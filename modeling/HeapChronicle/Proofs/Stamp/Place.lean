import Mathlib
import HeapChronicle.Proofs.Binary64.Order
import HeapChronicle.Stamp.Order

/-!
The place of a stamp in the sorting order: whether it lacks a date, the rank of
its seconds, the instant of its date. Places are compared from the left, and a
missing stamp stands past all of them. As long as no seconds are NaN, `compare`
is the comparison of places (`compares_place`), which is a linear order.
-/

namespace HeapChronicle
namespace Stamp

open Prod.Lex

/-- The seconds of the stamp are not NaN. -/
def IsTimed (s : Stamp) : Prop :=
  s.seconds.isNaN = false

instance (s : Stamp) : Decidable s.IsTimed :=
  inferInstanceAs (Decidable (_ = _))

theorem hasDate_eq_true_iff {s : Stamp} : s.hasDate = true ↔ ∃ t, s.date = some t :=
  Option.isSome_iff_exists

theorem hasDate_eq_false_iff {s : Stamp} : s.hasDate = false ↔ s.date = none := by
  rw [hasDate, Option.isSome_eq_false_iff, Option.isNone_iff_eq_none]

abbrev Place := Bool ×ₗ Int ×ₗ Int

def place (s : Stamp) : Place :=
  toLex (!s.hasDate, toLex (s.seconds.rank, (s.date.map ZonedTime.instant).getD 0))

def place? (s : Option Stamp) : WithTop Place :=
  s.map place

private theorem wall_lt_limit (east : Fin 24) :
    62135596800000000 + east.val * 3600000000 < LocalTime.limit := by
  simp only [LocalTime.limit, microsPerDay, Calendar.daysOfYears]
  omega

private theorem offset_in_day (east : Fin 24) :
    -86400 < (east.val : Int) * 3600 ∧ (east.val : Int) * 3600 < 86400 := by
  omega

/-- The beginning of 1970 on a clock some hours east of UTC, with zero seconds of
either sign. -/
def atEpoch (east : Fin 24) (negative : Bool) : Stamp where
  date := some
    { wall := ⟨62135596800000000 + east.val * 3600000000, wall_lt_limit east⟩
      offset := east.val * 3600
      offset_gt := (offset_in_day east).1
      offset_lt := (offset_in_day east).2 }
  seconds := .finite negative .zero

private theorem compares_seconds {x y : Binary64} (hx : x.isNaN = false)
    (hy : y.isNaN = false) {i j : Int} {o : Ordering} (ho : o.Compares i j) :
    (if x.numEq y then o else if x.lt y then .lt else .gt : Ordering).Compares
      (toLex (x.rank, i)) (toLex (y.rank, j)) := by
  have heq := Binary64.numEq_iff_rank_eq hx hy
  have hlt := Binary64.lt_iff_rank_lt hx hy
  by_cases hsame : x.rank = y.rank
  · -- Equal ranks leave the decision to the second key.
    rw [if_pos (heq.mpr hsame), hsame]
    cases o with
    | lt => exact toLex_lt_toLex.mpr (Or.inr ⟨rfl, ho⟩)
    | eq => exact congrArg (fun k => toLex (y.rank, k)) ho
    | gt => exact toLex_lt_toLex.mpr (Or.inr ⟨rfl, ho⟩)
  · rw [if_neg (mt heq.mp hsame)]
    by_cases hless : x.rank < y.rank
    · rw [if_pos (hlt.mpr hless)]
      exact toLex_lt_toLex.mpr (Or.inl hless)
    · rw [if_neg (mt hlt.mp hless)]
      exact toLex_lt_toLex.mpr (Or.inl (by omega))

private theorem compares_group {b : Bool} {u v : Int ×ₗ Int} {o : Ordering}
    (h : o.Compares u v) : o.Compares (toLex (b, u)) (toLex (b, v)) := by
  cases o with
  | lt => exact toLex_lt_toLex.mpr (Or.inr ⟨rfl, h⟩)
  | eq => exact congrArg (fun w => toLex (b, w)) h
  | gt => exact toLex_lt_toLex.mpr (Or.inr ⟨rfl, h⟩)

/-- Comparing stamps is comparing their places. -/
theorem compares_place {s t : Stamp} (hs : s.IsTimed) (ht : t.IsTimed) :
    (s.compare t).Compares s.place t.place := by
  obtain ⟨sdate, x⟩ := s
  obtain ⟨tdate, y⟩ := t
  cases sdate with
  | none =>
    cases tdate with
    | none => exact compares_group (compares_seconds hs ht rfl)
    | some b => exact toLex_lt_toLex.mpr (Or.inl Bool.false_lt_true)
  | some a =>
    cases tdate with
    | none => exact toLex_lt_toLex.mpr (Or.inl Bool.false_lt_true)
    | some b =>
      have hinstants : (a.compare b).Compares a.instant b.instant :=
        (compare_iff _ _).mp rfl
      exact compares_group (compares_seconds hs ht hinstants)

theorem compare_eq_lt_iff {s t : Stamp} (hs : s.IsTimed) (ht : t.IsTimed) :
    s.compare t = .lt ↔ s.place < t.place :=
  (compares_place hs ht).eq_lt

theorem compare_eq_eq_iff {s t : Stamp} (hs : s.IsTimed) (ht : t.IsTimed) :
    s.compare t = .eq ↔ s.place = t.place :=
  (compares_place hs ht).eq_eq

theorem compare_eq_gt_iff {s t : Stamp} (hs : s.IsTimed) (ht : t.IsTimed) :
    s.compare t = .gt ↔ t.place < s.place :=
  (compares_place hs ht).eq_gt

theorem compares_place? {a b : Option Stamp} (ha : ∀ s ∈ a, s.IsTimed)
    (hb : ∀ s ∈ b, s.IsTimed) : (compare? a b).Compares (place? a) (place? b) := by
  cases a with
  | none =>
    cases b with
    | none => rfl
    | some t => exact WithTop.coe_lt_top _
  | some s =>
    cases b with
    | none => exact WithTop.coe_lt_top _
    | some t =>
      have hplace := compares_place (ha s rfl) (hb t rfl)
      change (s.compare t).Compares (s.place : WithTop Place) t.place
      cases hst : s.compare t with
      | lt => exact WithTop.coe_lt_coe.mpr (hplace.eq_lt.mp hst)
      | eq => exact congrArg _ (hplace.eq_eq.mp hst)
      | gt => exact WithTop.coe_lt_coe.mpr (hplace.eq_gt.mp hst)

end Stamp
end HeapChronicle
