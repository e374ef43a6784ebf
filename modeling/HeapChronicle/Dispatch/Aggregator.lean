import HeapChronicle.Dispatch.Registry
import HeapChronicle.Event.Basic
import HeapChronicle.Notice

/-!
An aggregator passes each event to the handler of its nearest registered class.
Handlers act on a state of any kind, may leave notices, and may fail.
-/

namespace HeapChronicle

/-- A handler gave up on an event. -/
structure HandlerFailure where
  handler : List Char
  deriving DecidableEq

structure Reaction (σ : Type) where
  state : σ
  notices : List Notice
  failure : Option HandlerFailure

/-- Only the state has changed. -/
def Reaction.quiet {σ : Type} (state : σ) : Reaction σ :=
  ⟨state, [], none⟩

structure Handler (σ : Type) where
  name : List Char
  react : Event → σ → Reaction σ

structure Aggregator (σ : Type) where
  name : List Char
  handlers : Registry (Handler σ)

namespace Aggregator

variable {σ : Type}

def register (a : Aggregator σ) (cls : EventClass) (offered : Option (Handler σ)) :
    Except RegistryError (Aggregator σ) :=
  (a.handlers.register cls offered).map fun handlers => { a with handlers }

def lookup (a : Aggregator σ) (type : EventType) : Option (Handler σ) :=
  a.handlers.lookup type.lineage

def noHandler (a : Aggregator σ) (type : EventType) : Notice :=
  .debug (a.name ++ " has no handler for ".toList ++ type.cls.name)

/-- Passes an event to its handler. Without one the state stays as it is, and a
notice says so. -/
def receive (a : Aggregator σ) (e : Event) (state : σ) : Reaction σ :=
  match a.lookup e.type with
  | some handler => handler.react e state
  | none => ⟨state, [a.noHandler e.type], none⟩

end Aggregator
end HeapChronicle
