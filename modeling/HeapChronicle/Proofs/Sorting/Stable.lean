import Mathlib.Data.List.Nodup
import Mathlib.Data.List.Pairwise
import Mathlib.Order.Lattice

/-!
Stable sorting by a key. Equal keys keep the order in which they stood
(`filter_sortOn_key`), and that together with sortedness determines the result
(`eq_of_ties`). So sorting commutes with leaving elements out
(`filter_sortOn`), whatever the ties; and without ties it forgets how the
elements stood (`sortOn_congr`).
-/

namespace HeapChronicle

variable {α κ : Type} [LinearOrder κ]

/-- Sorts by a key, elements of equal keys as they stood. -/
def sortOn (key : α → κ) (l : List α) : List α :=
  l.mergeSort fun a b => key a ≤ key b

section

variable {key : α → κ} {l m : List α}

private theorem keyLE_trans (a b c : α) (hab : decide (key a ≤ key b) = true)
    (hbc : decide (key b ≤ key c) = true) : decide (key a ≤ key c) = true := by
  rw [decide_eq_true_eq] at *
  exact hab.trans hbc

private theorem keyLE_total (a b : α) :
    (decide (key a ≤ key b) || decide (key b ≤ key a)) = true := by
  simpa using le_total (key a) (key b)

theorem sortOn_perm : (sortOn key l).Perm l :=
  List.mergeSort_perm _ _

theorem sortOn_pairwise : (sortOn key l).Pairwise fun a b => key a ≤ key b := by
  have hsorted : (sortOn key l).Pairwise fun a b => decide (key a ≤ key b) = true :=
    List.pairwise_mergeSort keyLE_trans keyLE_total l
  exact hsorted.imp fun h => decide_eq_true_eq.mp h

/-- Sorting is stable: the elements of one key keep their order. -/
theorem filter_sortOn_key (k : κ) :
    (sortOn key l).filter (key · = k) = l.filter (key · = k) := by
  have htied : (l.filter (key · = k)).Pairwise fun a b => decide (key a ≤ key b) = true := by
    apply List.pairwise_of_forall_mem_list
    intro a ha b hb
    have ha := (List.mem_filter.mp ha).2
    have hb := (List.mem_filter.mp hb).2
    rw [decide_eq_true_eq] at *
    exact (ha.trans hb.symm).le
  have hkept : (l.filter (key · = k)).Sublist (sortOn key l) :=
    List.sublist_mergeSort keyLE_trans keyLE_total htied List.filter_sublist
  have hsub : (l.filter (key · = k)).Sublist ((sortOn key l).filter (key · = k)) := by
    simpa only [List.filter_filter, Bool.and_self] using hkept.filter (key · = k)
  have hperm : ((sortOn key l).filter (key · = k)).Perm (l.filter (key · = k)) :=
    sortOn_perm.filter (key · = k)
  exact (hsub.eq_of_length hperm.length_eq.symm).symm

/-- The least key of a sorted list is that of its head. -/
private theorem key_head_le {a b : α} (hl : (a :: l).Pairwise fun a b => key a ≤ key b)
    (hb : b ∈ a :: l) : key a ≤ key b := by
  rcases List.mem_cons.mp hb with rfl | hb
  · exact le_rfl
  · exact (List.pairwise_cons.mp hl).1 b hb

private theorem mem_iff_of_ties (hties : ∀ k, l.filter (key · = k) = m.filter (key · = k))
    (c : α) : c ∈ l ↔ c ∈ m := by
  have hc : c ∈ l.filter (key · = key c) ↔ c ∈ m.filter (key · = key c) := by
    rw [hties]
  simpa using hc

/-- Sorted lists that agree on the elements of each key are equal. -/
theorem eq_of_ties (hl : l.Pairwise fun a b => key a ≤ key b)
    (hm : m.Pairwise fun a b => key a ≤ key b)
    (hties : ∀ k, l.filter (key · = k) = m.filter (key · = k)) : l = m := by
  induction l generalizing m with
  | nil =>
    cases m with
    | nil => rfl
    | cons b m => exact absurd ((mem_iff_of_ties hties b).mpr List.mem_cons_self) List.not_mem_nil
  | cons a l ih =>
    cases m with
    | nil => exact absurd ((mem_iff_of_ties hties a).mp List.mem_cons_self) List.not_mem_nil
    | cons b m =>
      -- Both heads have the least key, so the elements of that key begin with them.
      have hab : key a = key b := by
        apply le_antisymm
        · exact key_head_le hl ((mem_iff_of_ties hties b).mpr List.mem_cons_self)
        · exact key_head_le hm ((mem_iff_of_ties hties a).mp List.mem_cons_self)
      have hheads := hties (key a)
      rw [List.filter_cons_of_pos (by simp), List.filter_cons_of_pos (by simp [hab])] at hheads
      obtain ⟨rfl, -⟩ := List.cons.inj hheads
      have htails (k : κ) : l.filter (key · = k) = m.filter (key · = k) := by
        have hk := hties k
        simp only [List.filter_cons] at hk
        split at hk
        · exact (List.cons.inj hk).2
        · exact hk
      exact congrArg (a :: ·) (ih hl.of_cons hm.of_cons htails)

/-- Sorting commutes with leaving elements out. -/
theorem filter_sortOn (keep : α → Bool) :
    (sortOn key l).filter keep = sortOn key (l.filter keep) := by
  apply eq_of_ties (sortOn_pairwise.filter keep) sortOn_pairwise
  intro k
  have hcomm (l : List α) :
      (l.filter keep).filter (key · = k) = (l.filter (key · = k)).filter keep := by
    simp only [List.filter_filter, Bool.and_comm]
  rw [filter_sortOn_key, hcomm, hcomm, filter_sortOn_key]

/-- Without ties, the order in which the elements stood does not matter. -/
theorem sortOn_congr (hperm : l.Perm m) (hdistinct : (l.map key).Nodup) :
    sortOn key l = sortOn key m := by
  have hsorted : (sortOn key l).Perm (sortOn key m) :=
    sortOn_perm.trans (hperm.trans sortOn_perm.symm)
  refine List.Perm.eq_of_pairwise ?_ sortOn_pairwise sortOn_pairwise hsorted
  intro a b ha hb hab hba
  apply List.inj_on_of_nodup_map hdistinct
  · exact sortOn_perm.mem_iff.mp ha
  · exact sortOn_perm.mem_iff.mp (hsorted.mem_iff.mpr hb)
  · exact le_antisymm hab hba

/-- What holds along a list still holds between its ties once it is sorted. -/
theorem sortOn_pairwise_ties {R : α → α → Prop} (hl : l.Pairwise R) :
    (sortOn key l).Pairwise fun a b => key a = key b → R a b := by
  rw [List.pairwise_iff_forall_sublist]
  intro a b hab htie
  have hpair : [a, b].Sublist ((sortOn key l).filter (key · = key b)) := by
    simpa [htie] using hab.filter (key · = key b)
  rw [filter_sortOn_key] at hpair
  exact List.pairwise_iff_forall_sublist.mp hl (hpair.trans List.filter_sublist)

end

end HeapChronicle
