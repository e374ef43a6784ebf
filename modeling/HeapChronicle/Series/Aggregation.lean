import HeapChronicle.Series.DataPoint

/-!
Time series of data points, one for each kind of collection that has any. The
kinds stand in the order in which they were first seen, and the points of a kind
in the order in which they were added.
-/

namespace HeapChronicle

abbrev PointGroup := CollectionKind × List DataPoint

namespace PointGroup

/-- Files a point under its kind, in a new group if it is the first one. -/
def file (p : DataPoint) : List PointGroup → List PointGroup
  | [] => [(p.collection, [p])]
  | (kind, points) :: rest =>
    if kind = p.collection then (kind, points ++ [p]) :: rest
    else (kind, points) :: file p rest

/-- A group has points, and all of them are of its kind. -/
def IsFiled (g : PointGroup) : Prop :=
  g.2 ≠ [] ∧ ∀ p ∈ g.2, p.collection = g.1

theorem mem_kinds_file {kind : CollectionKind} {p : DataPoint} {groups : List PointGroup} :
    kind ∈ (file p groups).map Prod.fst ↔
      kind ∈ groups.map Prod.fst ∨ kind = p.collection := by
  induction groups with
  | nil => simp [file]
  | cons g groups ih =>
    obtain ⟨k, points⟩ := g
    by_cases h : k = p.collection
    · simp only [file, h, if_true, List.map_cons, List.mem_cons]
      exact ⟨Or.inl, fun hk => hk.elim id Or.inl⟩
    · simp only [file, h, if_false, List.map_cons, List.mem_cons, ih, or_assoc]

theorem nodup_file {p : DataPoint} {groups : List PointGroup}
    (h : (groups.map Prod.fst).Nodup) : ((file p groups).map Prod.fst).Nodup := by
  induction groups with
  | nil => simp [file]
  | cons g groups ih =>
    obtain ⟨k, points⟩ := g
    rw [List.map_cons, List.nodup_cons] at h
    by_cases hk : k = p.collection
    · rw [file, if_pos hk, List.map_cons, List.nodup_cons]
      exact h
    · rw [file, if_neg hk, List.map_cons, List.nodup_cons, mem_kinds_file, not_or]
      exact ⟨⟨h.1, hk⟩, ih h.2⟩

theorem isFiled_file {p : DataPoint} {groups : List PointGroup}
    (h : ∀ g ∈ groups, IsFiled g) : ∀ g ∈ file p groups, IsFiled g := by
  induction groups with
  | nil => simp [file, IsFiled]
  | cons g groups ih =>
    obtain ⟨k, points⟩ := g
    have hrest : ∀ g ∈ groups, IsFiled g := fun g hg => h g (List.mem_cons_of_mem _ hg)
    have hfirst := h _ List.mem_cons_self
    by_cases hk : k = p.collection
    · intro g hg
      simp only [file, hk, if_true, List.mem_cons] at hg
      rcases hg with rfl | hg
      · refine ⟨by simp, fun q hq => ?_⟩
        rcases List.mem_append.mp hq with hq | hq
        · exact (hfirst.2 q hq).trans hk
        · rw [List.mem_singleton.mp hq]
      · exact hrest g hg
    · intro g hg
      simp only [file, hk, if_false, List.mem_cons] at hg
      rcases hg with rfl | hg
      · exact hfirst
      · exact ih hrest g hg

end PointGroup

structure Aggregation where
  groups : List PointGroup
  nodup : (groups.map Prod.fst).Nodup
  filed : ∀ g ∈ groups, PointGroup.IsFiled g

namespace Aggregation

def empty : Aggregation :=
  ⟨[], List.nodup_nil, by simp⟩

def add (a : Aggregation) (p : DataPoint) : Aggregation :=
  ⟨PointGroup.file p a.groups, PointGroup.nodup_file a.nodup, PointGroup.isFiled_file a.filed⟩

/-- The kinds that have data, in the order in which they were first seen. -/
def kinds (a : Aggregation) : List CollectionKind :=
  a.groups.map Prod.fst

/-- The points of a kind in the order in which they were added. -/
def pointsOf (a : Aggregation) (kind : CollectionKind) : List DataPoint :=
  (a.groups.lookup kind).getD []

/-- The points of a kind in time. -/
def series (a : Aggregation) (kind : CollectionKind) : List DataPoint :=
  DataPoint.sort (a.pointsOf kind)

def dataPoints (a : Aggregation) : List DataPoint :=
  DataPoint.sort (a.groups.flatMap Prod.snd)

def isEmpty (a : Aggregation) : Bool :=
  a.groups.isEmpty

end Aggregation
end HeapChronicle
