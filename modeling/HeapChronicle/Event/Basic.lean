import HeapChronicle.CollectionKind
import HeapChronicle.Event.Type
import HeapChronicle.Stamp.Order

/-!
Events of a garbage collector log, with the measurements that their types have.
-/

namespace HeapChronicle

/-- Use and size of the heap around a collection. -/
structure MemoryPool where
  occupancyBefore : Number
  sizeBefore : Number
  occupancyAfter : Number
  sizeAfter : Number

/-- What is alive when reclaiming starts and when it ends. -/
structure Reclaim where
  start : Number
  finish : Number

/-- The sizes in their order, all four of them. -/
def MemoryPool.ofSizes? : List Number → Option MemoryPool
  | [a, b, c, d] => some ⟨a, b, c, d⟩
  | _ => none

def Reclaim.ofSizes? : List Number → Option Reclaim
  | [a, b] => some ⟨a, b⟩
  | _ => none

def MemoryPool.same (p q : MemoryPool) : Bool :=
  p.occupancyBefore.numEq q.occupancyBefore && p.sizeBefore.numEq q.sizeBefore &&
    p.occupancyAfter.numEq q.occupancyAfter && p.sizeAfter.numEq q.sizeAfter

def Reclaim.same (p q : Reclaim) : Bool :=
  p.start.numEq q.start && p.finish.numEq q.finish

/-- An event has heap and live sizes exactly as its type says. -/
structure Event where
  type : EventType
  stamp : Stamp
  collection : CollectionKind
  duration : Number
  heap : Option MemoryPool
  live : Option Reclaim
  isEvent : type.isEvent = true
  heap_isSome : heap.isSome = type.hasHeap
  live_isSome : live.isSome = type.hasLive

/-- The fields of an event as they are offered, measurements as lists of
sizes. -/
structure EventFields where
  stamp : Option Stamp
  collection : Option CollectionKind
  duration : Option Number
  heap : Option (List Number)
  live : Option (List Number)

namespace Event

/-- A measurement that may be missing. None if it has the wrong number of
sizes. -/
def measured? {α : Type} (ofSizes? : List Number → Option α) :
    Option (List Number) → Option (Option α)
  | some sizes => (ofSizes? sizes).map some
  | none => some none

/-- Builds an event. None if a field is missing that the type has, or there is
one that it has not, or a measurement is malformed. Events take no time unless
it is given. -/
def ofFields? (type : EventType) (f : EventFields) : Option Event := do
  let stamp ← f.stamp
  let collection ← f.collection
  let heap ← measured? MemoryPool.ofSizes? f.heap
  let live ← measured? Reclaim.ofSizes? f.live
  if h : type.isEvent = true ∧ heap.isSome = type.hasHeap ∧ live.isSome = type.hasLive then
    some ⟨type, stamp, collection, f.duration.getD (.double .zero), heap, live, h.1, h.2.1, h.2.2⟩
  else none

def sameOption {α : Type} (same : α → α → Bool) : Option α → Option α → Bool
  | some a, some b => same a b
  | none, none => true
  | _, _ => false

/-- Events are equal if they are of one class and their fields are equal. -/
def same (e f : Event) : Bool :=
  e.type.cls == f.type.cls && e.stamp.same f.stamp && e.collection == f.collection &&
    e.duration.numEq f.duration && sameOption MemoryPool.same e.heap f.heap &&
    sameOption Reclaim.same e.live f.live

end Event
end HeapChronicle
