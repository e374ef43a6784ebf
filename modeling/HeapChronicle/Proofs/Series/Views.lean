import HeapChronicle.Proofs.Series.Filing
import HeapChronicle.Proofs.Sorting.Stable
import HeapChronicle.Proofs.Stamp.Place

/-!
The series of a kind and the merged list of points, as stable sorts. Both sort
by the place of the stamps, so both are in order, keep ties as they stood, and
commute with picking out a kind. Where there are no ties, neither depends on the
order of addition.
-/

namespace HeapChronicle
namespace DataPoint

variable {ps qs : List DataPoint}

theorem sort_perm : (sort ps).Perm ps :=
  List.mergeSort_perm _ _

/-- Without NaN, sorting by the stamps is sorting by their places. -/
theorem sort_eq_sortOn (hps : ∀ p ∈ ps, p.stamp.IsTimed) :
    sort ps = sortOn (·.stamp.place) ps := by
  have hle (p : DataPoint) (hp : p ∈ ps) (q : DataPoint) (hq : q ∈ ps) :
      (!q.stamp.lt p.stamp) = decide (p.stamp.place ≤ q.stamp.place) := by
    have hlt := (Stamp.compares_place (hps q hq) (hps p hp)).eq_lt
    rw [Bool.eq_iff_iff, Bool.not_eq_true', decide_eq_true_eq, ← not_lt, ← hlt, Stamp.lt,
      beq_eq_false_iff_ne]
  have hmap : (sort ps).map id = sortOn (·.stamp.place) (ps.map id) :=
    List.map_mergeSort hle
  rwa [List.map_id, List.map_id] at hmap

theorem sort_pairwise (hps : ∀ p ∈ ps, p.stamp.IsTimed) :
    (sort ps).Pairwise fun p q => (p.stamp.compare q.stamp).isLE = true := by
  have hsorted : (sort ps).Pairwise fun p q => p.stamp.place ≤ q.stamp.place := by
    rw [sort_eq_sortOn hps]
    exact sortOn_pairwise
  refine hsorted.imp_of_mem ?_
  intro p q hp hq hle
  have hp := hps p (sort_perm.mem_iff.mp hp)
  have hq := hps q (sort_perm.mem_iff.mp hq)
  rw [← Ordering.ne_gt_iff_isLE]
  exact (Stamp.compares_place hp hq).ne_gt.mpr hle

theorem filter_sort (hps : ∀ p ∈ ps, p.stamp.IsTimed) (keep : DataPoint → Bool) :
    (sort ps).filter keep = sort (ps.filter keep) := by
  have hkept : ∀ p ∈ ps.filter keep, p.stamp.IsTimed :=
    fun p hp => hps p (List.mem_filter.mp hp).1
  rw [sort_eq_sortOn hps, sort_eq_sortOn hkept, filter_sortOn]

/-- Points whose stamps compare as equal keep their order. -/
theorem filter_sort_ties (hps : ∀ p ∈ ps, p.stamp.IsTimed) {s : Stamp} (hs : s.IsTimed) :
    (sort ps).filter (·.stamp.compare s = .eq) = ps.filter (·.stamp.compare s = .eq) := by
  have hplace {l : List DataPoint} (hl : ∀ p ∈ l, p.stamp.IsTimed) :
      l.filter (·.stamp.compare s = .eq) = l.filter (·.stamp.place = s.place) := by
    apply List.filter_congr
    intro p hp
    rw [decide_eq_decide]
    exact (Stamp.compares_place (hl p hp) hs).eq_eq
  rw [hplace hps, hplace fun p hp => hps p (sort_perm.mem_iff.mp hp), sort_eq_sortOn hps]
  exact filter_sortOn_key s.place

theorem sort_pairwise_ties (hps : ∀ p ∈ ps, p.stamp.IsTimed) {R : DataPoint → DataPoint → Prop}
    (h : ps.Pairwise R) :
    (sort ps).Pairwise fun p q => p.stamp.compare q.stamp = .eq → R p q := by
  have hties : (sort ps).Pairwise fun p q => p.stamp.place = q.stamp.place → R p q := by
    rw [sort_eq_sortOn hps]
    exact sortOn_pairwise_ties h
  refine hties.imp_of_mem ?_
  intro p q hp hq himp heq
  have hp := hps p (sort_perm.mem_iff.mp hp)
  have hq := hps q (sort_perm.mem_iff.mp hq)
  exact himp ((Stamp.compares_place hp hq).eq_eq.mp heq)

/-- Points of which no two tie have distinct places. -/
theorem nodup_places (hps : ∀ p ∈ ps, p.stamp.IsTimed)
    (hdistinct : ps.Pairwise fun p q => p.stamp.compare q.stamp ≠ .eq) :
    (ps.map (·.stamp.place)).Nodup := by
  rw [List.Nodup, List.pairwise_map]
  refine hdistinct.imp_of_mem ?_
  intro p q hp hq hne heq
  exact hne ((Stamp.compare_eq_eq_iff (hps p hp) (hps q hq)).mpr heq)

/-- Points without ties are sorted in one way only. -/
theorem sort_congr (hps : ∀ p ∈ ps, p.stamp.IsTimed) (hperm : ps.Perm qs)
    (hdistinct : (ps.map (·.stamp.place)).Nodup) : sort ps = sort qs := by
  have hqs : ∀ q ∈ qs, q.stamp.IsTimed := fun q hq => hps q (hperm.mem_iff.mpr hq)
  rw [sort_eq_sortOn hps, sort_eq_sortOn hqs]
  exact sortOn_congr hperm hdistinct

end DataPoint

namespace Aggregation

variable {ps qs : List DataPoint} {kind : CollectionKind}

theorem series_ofPoints :
    (ofPoints ps).series kind = DataPoint.sort (ps.filter (·.collection = kind)) := by
  rw [series, pointsOf_ofPoints]

theorem series_perm : ((ofPoints ps).series kind).Perm (ps.filter (·.collection = kind)) := by
  rw [series_ofPoints]
  exact DataPoint.sort_perm

theorem series_isTimed (hps : ∀ p ∈ ps, p.stamp.IsTimed) (kind : CollectionKind) :
    ∀ p ∈ ps.filter (·.collection = kind), p.stamp.IsTimed :=
  fun p hp => hps p (List.mem_filter.mp hp).1

theorem dataPoints_perm : (ofPoints ps).dataPoints.Perm ps :=
  DataPoint.sort_perm.trans filed_perm

theorem filed_isTimed (hps : ∀ p ∈ ps, p.stamp.IsTimed) :
    ∀ p ∈ (ofPoints ps).groups.flatMap Prod.snd, p.stamp.IsTimed :=
  fun p hp => hps p (filed_perm.mem_iff.mp hp)

/-- Points without ties make the same series and the same merged list in whatever
order they are added. -/
theorem series_congr (hps : ∀ p ∈ ps, p.stamp.IsTimed) (hperm : ps.Perm qs)
    (hdistinct : (ps.map (·.stamp.place)).Nodup) (kind : CollectionKind) :
    (ofPoints ps).series kind = (ofPoints qs).series kind := by
  rw [series_ofPoints, series_ofPoints]
  apply DataPoint.sort_congr (series_isTimed hps kind) (hperm.filter _)
  exact hdistinct.sublist (List.filter_sublist.map _)

theorem dataPoints_congr (hps : ∀ p ∈ ps, p.stamp.IsTimed) (hperm : ps.Perm qs)
    (hdistinct : (ps.map (·.stamp.place)).Nodup) :
    (ofPoints ps).dataPoints = (ofPoints qs).dataPoints := by
  have hgroups : ((ofPoints ps).groups.flatMap Prod.snd).Perm
      ((ofPoints qs).groups.flatMap Prod.snd) :=
    filed_perm.trans (hperm.trans filed_perm.symm)
  apply DataPoint.sort_congr (filed_isTimed hps) hgroups
  exact (filed_perm.map _).nodup_iff.mpr hdistinct

/-- The merged list, cut down to one kind, is the series of that kind. -/
theorem filter_dataPoints (hps : ∀ p ∈ ps, p.stamp.IsTimed) :
    (ofPoints ps).dataPoints.filter (·.collection = kind) = (ofPoints ps).series kind := by
  rw [dataPoints, DataPoint.filter_sort (filed_isTimed hps),
    PointGroup.filter_groups (ofPoints ps).nodup (ofPoints ps).filed]
  rfl

/-- Ties within a kind stand as they were added, in both views. -/
theorem filter_series_ties (hps : ∀ p ∈ ps, p.stamp.IsTimed) {s : Stamp} (hs : s.IsTimed) :
    ((ofPoints ps).series kind).filter (·.stamp.compare s = .eq) =
      ps.filter fun p => p.stamp.compare s = .eq ∧ p.collection = kind := by
  rw [series_ofPoints, DataPoint.filter_sort_ties (series_isTimed hps kind) hs,
    List.filter_filter]
  simp only [Bool.decide_and]

theorem filter_dataPoints_ties (hps : ∀ p ∈ ps, p.stamp.IsTimed) {s : Stamp} (hs : s.IsTimed) :
    (ofPoints ps).dataPoints.filter (fun p => p.stamp.compare s = .eq ∧ p.collection = kind) =
      ps.filter fun p => p.stamp.compare s = .eq ∧ p.collection = kind := by
  rw [← filter_series_ties hps hs, ← filter_dataPoints hps, List.filter_filter]
  simp only [Bool.decide_and]

/-- Groups follow each other as their kinds do. -/
theorem filed_pairwise_firstIndex :
    ((ofPoints ps).groups.flatMap Prod.snd).Pairwise fun p q =>
      p.collection ≠ q.collection →
        firstIndex ps p.collection < firstIndex ps q.collection := by
  rw [List.pairwise_flatMap]
  constructor
  · intro g hg
    apply List.pairwise_of_forall_mem_list
    intro p hp q hq hne
    have hfiled := (ofPoints ps).filed g hg
    exact absurd ((hfiled.2 p hp).trans (hfiled.2 q hq).symm) hne
  · have hkinds : ((ofPoints ps).groups.map Prod.fst).Pairwise fun k l =>
        firstIndex ps k < firstIndex ps l := kinds_pairwise_firstIndex
    rw [List.pairwise_map] at hkinds
    refine hkinds.imp_of_mem ?_
    intro g h hg hh hlt p hp q hq _
    rw [((ofPoints ps).filed g hg).2 p hp, ((ofPoints ps).filed h hh).2 q hq]
    exact hlt

end Aggregation
end HeapChronicle
