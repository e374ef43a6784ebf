import Mathlib.Data.List.Induction
import HeapChronicle.Series.Aggregation

/-!
What filing points one after another comes to. The points of a kind are those
that were added with it, in order (`pointsOf_ofPoints`); the kinds are those that
occurred, in order of first occurrence (`kinds_ofPoints`); and the groups
together are a rearrangement of all points (`filed_perm`).
-/

namespace HeapChronicle
namespace PointGroup

variable {p : DataPoint} {groups : List PointGroup} {kind k : CollectionKind}

theorem lookup_cons_of_ne (h : kind ≠ k) (points : List DataPoint) :
    List.lookup kind ((k, points) :: groups) = groups.lookup kind := by
  rw [List.lookup_cons, beq_eq_false_iff_ne.mpr h]

/-- Filing touches the group of the point's own kind only. -/
theorem lookup_file_of_ne (h : kind ≠ p.collection) :
    (file p groups).lookup kind = groups.lookup kind := by
  induction groups with
  | nil => exact lookup_cons_of_ne h [p]
  | cons g groups ih =>
    obtain ⟨k, points⟩ := g
    rw [file]
    split
    next hk =>
      rw [lookup_cons_of_ne (hk ▸ h), lookup_cons_of_ne (hk ▸ h)]
    next =>
      by_cases hkind : kind = k
      · rw [hkind, List.lookup_cons_self, List.lookup_cons_self]
      · rw [lookup_cons_of_ne hkind, lookup_cons_of_ne hkind, ih]

theorem lookup_file_self :
    (file p groups).lookup p.collection =
      some ((groups.lookup p.collection).getD [] ++ [p]) := by
  induction groups with
  | nil => exact List.lookup_cons_self
  | cons g groups ih =>
    obtain ⟨k, points⟩ := g
    rw [file]
    split
    next hk =>
      subst hk
      rw [List.lookup_cons_self, List.lookup_cons_self, Option.getD_some]
    next hk =>
      rw [lookup_cons_of_ne (Ne.symm hk), lookup_cons_of_ne (Ne.symm hk), ih]

theorem file_perm : ((file p groups).flatMap Prod.snd).Perm (groups.flatMap Prod.snd ++ [p]) := by
  induction groups with
  | nil => exact List.Perm.refl [p]
  | cons g groups ih =>
    obtain ⟨k, points⟩ := g
    rw [file]
    split
    · simp only [List.flatMap_cons, List.append_assoc]
      exact List.perm_append_comm.append_left points
    · simp only [List.flatMap_cons, List.append_assoc]
      exact ih.append_left points

/-- A kind is entered with its first point, behind the kinds before it. -/
theorem kinds_file : (file p groups).map Prod.fst =
    groups.map Prod.fst ++ if p.collection ∈ groups.map Prod.fst then [] else [p.collection] := by
  induction groups with
  | nil => rfl
  | cons g groups ih =>
    obtain ⟨k, points⟩ := g
    rw [file]
    split
    next hk => simp [hk]
    next hk =>
      have hmem : p.collection ∈ k :: groups.map Prod.fst ↔ p.collection ∈ groups.map Prod.fst := by
        simp [Ne.symm hk]
      simp only [List.map_cons, ih, hmem, List.cons_append]

/-- The points of one kind, picked out of all groups, are those of its group. -/
theorem filter_groups (hnodup : (groups.map Prod.fst).Nodup)
    (hfiled : ∀ g ∈ groups, IsFiled g) :
    (groups.flatMap Prod.snd).filter (·.collection = kind) = (groups.lookup kind).getD [] := by
  induction groups with
  | nil => rfl
  | cons g groups ih =>
    obtain ⟨k, points⟩ := g
    rw [List.map_cons, List.nodup_cons] at hnodup
    have hpoints := (hfiled _ List.mem_cons_self).2
    have hrest := ih hnodup.2 fun g hg => hfiled g (List.mem_cons_of_mem _ hg)
    rw [List.flatMap_cons, List.filter_append, hrest]
    by_cases h : kind = k
    · subst h
      have hnone : groups.lookup kind = none := by
        rw [List.lookup_eq_none_iff]
        intro g hg
        rw [bne_iff_ne]
        rintro rfl
        exact hnodup.1 (List.mem_map.mpr ⟨_, hg, rfl⟩)
      rw [hnone, List.lookup_cons_self, Option.getD_none, Option.getD_some, List.append_nil,
        List.filter_eq_self]
      exact fun p hp => decide_eq_true (hpoints p hp)
    · have hempty : points.filter (·.collection = kind) = [] := by
        rw [List.filter_eq_nil_iff]
        intro p hp
        rw [decide_eq_true_eq, hpoints p hp]
        exact Ne.symm h
      rw [lookup_cons_of_ne h, hempty, List.nil_append]

end PointGroup

namespace Aggregation

variable {ps : List DataPoint} {kind : CollectionKind}

/-- What is kept once some points have been added one after another. -/
def ofPoints (ps : List DataPoint) : Aggregation :=
  ps.foldl add empty

theorem ofPoints_concat (ps : List DataPoint) (p : DataPoint) :
    ofPoints (ps ++ [p]) = (ofPoints ps).add p := by
  rw [ofPoints, List.foldl_append]
  rfl

theorem kinds_add (a : Aggregation) (p : DataPoint) :
    (a.add p).kinds = a.kinds ++ if p.collection ∈ a.kinds then [] else [p.collection] :=
  PointGroup.kinds_file

theorem pointsOf_ofPoints : (ofPoints ps).pointsOf kind = ps.filter (·.collection = kind) := by
  induction ps using List.reverseRecOn with
  | nil => rfl
  | append_singleton ps p ih =>
    unfold pointsOf at ih ⊢
    rw [ofPoints_concat, List.filter_append]
    by_cases h : kind = p.collection
    · subst h
      rw [← ih]
      simp [add, PointGroup.lookup_file_self]
    · have hother : [p].filter (·.collection = kind) = [] := by
        simp [Ne.symm h]
      rw [hother, List.append_nil, ← ih]
      exact congrArg (Option.getD · []) (PointGroup.lookup_file_of_ne h)

theorem filed_perm : ((ofPoints ps).groups.flatMap Prod.snd).Perm ps := by
  induction ps using List.reverseRecOn with
  | nil => exact List.Perm.refl []
  | append_singleton ps p ih =>
    rw [ofPoints_concat]
    exact PointGroup.file_perm.trans (ih.append_right [p])

theorem kinds_ofPoints : (ofPoints ps).kinds = (ps.map DataPoint.collection).eraseDups := by
  induction ps using List.reverseRecOn with
  | nil => rfl
  | append_singleton ps p ih =>
    have hmem : p.collection ∈ (ofPoints ps).kinds ↔ p.collection ∈ ps.map DataPoint.collection := by
      rw [ih, List.mem_eraseDups]
    rw [ofPoints_concat, kinds_add, List.map_append, List.eraseDups_append, ← ih]
    congr 1
    by_cases h : p.collection ∈ ps.map DataPoint.collection
    · rw [if_pos (hmem.mpr h)]
      simp [List.removeAll, -List.mem_map, h]
    · rw [if_neg (mt hmem.mp h)]
      simp [List.removeAll, List.eraseDups_cons, -List.mem_map, h]

/-- Where a kind occurs for the first time among some points. -/
def firstIndex (ps : List DataPoint) (kind : CollectionKind) : Nat :=
  (ps.map DataPoint.collection).idxOf kind

theorem firstIndex_concat_of_mem {p : DataPoint} (h : kind ∈ (ofPoints ps).kinds) :
    firstIndex (ps ++ [p]) kind = firstIndex ps kind := by
  rw [kinds_ofPoints, List.mem_eraseDups] at h
  rw [firstIndex, List.map_append, List.idxOf_append, if_pos h, firstIndex]

/-- The kinds stand in the order in which their first points were added. -/
theorem kinds_pairwise_firstIndex :
    (ofPoints ps).kinds.Pairwise fun k l => firstIndex ps k < firstIndex ps l := by
  induction ps using List.reverseRecOn with
  | nil => exact List.Pairwise.nil
  | append_singleton ps p ih =>
    -- The kinds before the last point keep their first index when it is added.
    have hold : (ofPoints ps).kinds.Pairwise fun k l =>
        firstIndex (ps ++ [p]) k < firstIndex (ps ++ [p]) l := by
      refine ih.imp_of_mem ?_
      intro k l hk hl hlt
      rwa [firstIndex_concat_of_mem hk, firstIndex_concat_of_mem hl]
    rw [ofPoints_concat, kinds_add]
    split
    · rwa [List.append_nil]
    next hnew =>
      rw [List.pairwise_append]
      refine ⟨hold, List.pairwise_singleton _ _, ?_⟩
      intro k hk l hl
      rw [List.mem_singleton.mp hl, firstIndex_concat_of_mem hk]
      rw [kinds_ofPoints, List.mem_eraseDups] at hk hnew
      rw [firstIndex, firstIndex, List.map_append, List.idxOf_append, if_neg hnew]
      exact Nat.lt_of_lt_of_le (List.idxOf_lt_length_of_mem hk) (Nat.le_add_left _ _)

theorem isEmpty_ofPoints : (ofPoints ps).isEmpty = true ↔ ps = [] := by
  rw [isEmpty, List.isEmpty_iff]
  constructor
  · intro hgroups
    have hperm : ((ofPoints ps).groups.flatMap Prod.snd).Perm ps := filed_perm
    rw [hgroups] at hperm
    exact hperm.nil_eq.symm
  · rintro rfl
    rfl

end Aggregation
end HeapChronicle
