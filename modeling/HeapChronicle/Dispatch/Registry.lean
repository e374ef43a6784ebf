import HeapChronicle.Event.Type

/-!
A registry keeps one entry for each event class that has been registered. An
entry is never replaced. Looking up a lineage finds the entry of the first class
in it that has one.
-/

namespace HeapChronicle

inductive RegistryError where
  | notCallable
  | alreadyRegistered (cls : EventClass)
  deriving DecidableEq

def RegistryError.message : RegistryError → List Char
  | notCallable => "handler must be callable".toList
  | alreadyRegistered cls => cls.name ++ " is already registered".toList

structure Registry (α : Type) where
  entries : List (EventClass × α)
  nodup : (entries.map Prod.fst).Nodup

namespace Registry

variable {α : Type}

def empty : Registry α :=
  ⟨[], List.nodup_nil⟩

def get? (r : Registry α) (cls : EventClass) : Option α :=
  r.entries.lookup cls

def contains (r : Registry α) (cls : EventClass) : Bool :=
  (r.entries.map Prod.fst).contains cls

def insert (r : Registry α) (cls : EventClass) (entry : α) (h : r.contains cls = false) :
    Registry α :=
  ⟨r.entries ++ [(cls, entry)], by
    rw [List.map_append, List.nodup_append]
    refine ⟨r.nodup, by simp, ?_⟩
    intro a ha b hb hab
    simp only [List.map_cons, List.map_nil, List.mem_singleton] at hb
    rw [contains, ← hb, ← hab, List.contains_iff_mem.mpr ha] at h
    exact absurd h (by decide)⟩

/-- Registers what is offered for a class. A thing that cannot be called is
refused first, then a class that is already there. -/
def register (r : Registry α) (cls : EventClass) (offered : Option α) :
    Except RegistryError (Registry α) :=
  match offered with
  | none => .error .notCallable
  | some entry =>
    if h : r.contains cls = false then .ok (r.insert cls entry h)
    else .error (.alreadyRegistered cls)

/-- The entry of the nearest registered class. -/
def lookup (r : Registry α) (lineage : List EventClass) : Option α :=
  lineage.findSome? r.get?

end Registry
end HeapChronicle
