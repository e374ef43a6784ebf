/-!
Types of log events. A type belongs to a class and inherits from others; its
lineage lists them, the nearest first. Which fields a value has follows from its
lineage: only what inherits from the class of events has any.
-/

namespace HeapChronicle

/-- A class of events: the root of all values, the classes known here, or one
that is defined elsewhere and has only a name. Two classes of one name that are
defined elsewhere are not modelled as different. -/
inductive EventClass where
  | root
  | event
  | generationalPause
  | g1Pause
  | zgcCycle
  | shenandoahCycle
  | named (name : List Char)
  deriving DecidableEq

namespace EventClass

def name : EventClass → List Char
  | root => "object".toList
  | event => "JVMEvent".toList
  | generationalPause => "GenerationalGCPauseEvent".toList
  | g1Pause => "G1GCPauseEvent".toList
  | zgcCycle => "ZGCCycle".toList
  | shenandoahCycle => "ShenandoahCycle".toList
  | named cs => cs

/-- Pauses report on the heap. -/
def reportsHeap : EventClass → Bool
  | generationalPause | g1Pause => true
  | _ => false

/-- Cycles that reclaim memory report what stays alive. -/
def reportsLive : EventClass → Bool
  | zgcCycle => true
  | _ => false

end EventClass

structure EventType where
  cls : EventClass
  ancestors : List EventClass
  deriving DecidableEq

namespace EventType

/-- The class of the type, then its ancestors from the nearest on. -/
def lineage (t : EventType) : List EventClass :=
  t.cls :: t.ancestors

/-- Types of events have a stamp, a kind of collection and a duration. The root
of all values has no fields. -/
def isEvent (t : EventType) : Bool :=
  t.lineage.contains .event

def hasHeap (t : EventType) : Bool :=
  t.lineage.any EventClass.reportsHeap

def hasLive (t : EventType) : Bool :=
  t.lineage.any EventClass.reportsLive

def root : EventType := ⟨.root, []⟩

def event : EventType := ⟨.event, [.root]⟩

def generationalPause : EventType := ⟨.generationalPause, [.event, .root]⟩

def g1Pause : EventType := ⟨.g1Pause, [.event, .root]⟩

def zgcCycle : EventType := ⟨.zgcCycle, [.event, .root]⟩

def shenandoahCycle : EventType := ⟨.shenandoahCycle, [.event, .root]⟩

end EventType
end HeapChronicle
