import HeapChronicle.Proofs.Stamp.Edges
import HeapChronicle.Proofs.Stamp.Together

/-!
Stamps against numbers of seconds. The number is converted only to find out whether
it fits; it is compared as it was given, and so no rounding can put it on the wrong
side of the stamp (`Operand.seconds_compared_exactly`).
-/

namespace HeapChronicle

namespace Binary64

variable {x : Binary64} {y : Number}

/-- A double is compared with a number by its rank and the units of the number. An
infinite rank is past the units of every integer that fits. -/
theorem comparisons_iff_units (hx : x.isNaN = false) (hy : ¬y.TooLarge) :
    (x.ltNumber y.orZero = true ↔ x.rank < y.units) ∧
      (x.gtNumber y.orZero = true ↔ y.units < x.rank) ∧
      ((Number.double x).numEq y.orZero = true ↔ x.rank = y.units) := by
  cases y with
  | double d =>
    have hd := isNaN_orZero d
    have hunits : (Number.double d).units = d.orZero.rank := (rank_orZero d).symm
    rw [hunits]
    exact ⟨lt_iff_rank_lt hx hd, lt_iff_rank_lt hd hx, numEq_iff_rank_eq hx hd⟩
  | whole n =>
    have hn := Number.natAbs_units_lt (Number.isFinite_whole n) hy
    cases x with
    | nan => cases hx
    | finite negative m => exact ⟨decide_eq_true_iff, decide_eq_true_iff, beq_iff_eq⟩
    | infinite negative =>
      cases negative with
      | true =>
        have hrank : (infinite true).rank = -Magnitude.limit := rfl
        exact ⟨iff_of_true rfl (by omega), iff_of_false Bool.noConfusion (by omega),
          iff_of_false Bool.noConfusion (by omega)⟩
      | false =>
        have hrank : (infinite false).rank = Magnitude.limit := rfl
        exact ⟨iff_of_false Bool.noConfusion (by omega), iff_of_true rfl (by omega),
          iff_of_false Bool.noConfusion (by omega)⟩

end Binary64

/-- The exact seconds of a stamp, infinities included. -/
def Stamp.exactSeconds (s : Stamp) : WithBot (WithTop ℚ) :=
  (Number.double s.seconds).extended

namespace Operand

open Stamp

variable {s : Stamp} {x y : Number}

theorem inRange_toDouble? {α : Type} (a : α) (hx : ¬x.TooLarge) :
    inRange (x.toDouble?.map fun _ => a) = .ok a := by
  rw [← Number.toDouble?_eq_none_iff, ← Ne, Option.ne_none_iff_exists'] at hx
  obtain ⟨d, hd⟩ := hx
  rw [hd, Option.map_some, inRange]

theorem before_seconds (hs : s.IsTimed) (hx : ¬x.TooLarge) :
    before s (.seconds x) = .ok (decide (s.exactSeconds < x.extended)) := by
  have hlt : s.seconds.ltNumber x.orZero = true ↔ s.exactSeconds < x.extended :=
    (Binary64.comparisons_iff_units hs hx).1.trans
      (Number.extended_lt_iff (Number.not_tooLarge_double _) hx).symm
  rw [before, isBeforeSeconds?, inRange_toDouble? _ hx, Except.ok.injEq, Bool.eq_iff_iff]
  exact hlt.trans decide_eq_true_iff.symm

theorem after_seconds (hs : s.IsTimed) (hx : ¬x.TooLarge) :
    after s (.seconds x) = .ok (decide (x.extended < s.exactSeconds)) := by
  have hgt : s.seconds.gtNumber x.orZero = true ↔ x.extended < s.exactSeconds :=
    (Binary64.comparisons_iff_units hs hx).2.1.trans
      (Number.extended_lt_iff hx (Number.not_tooLarge_double _)).symm
  rw [after, isAfterSeconds?, inRange_toDouble? _ hx, Except.ok.injEq, Bool.eq_iff_iff]
  exact hgt.trans decide_eq_true_iff.symm

theorem numEq_seconds_iff (hs : s.IsTimed) (hx : ¬x.TooLarge) :
    (Number.double s.seconds).numEq x.orZero = true ↔ s.exactSeconds = x.extended :=
  (Binary64.comparisons_iff_units hs hx).2.2.trans
    (Number.extended_eq_iff (Number.not_tooLarge_double _) hx).symm

/-- A stamp whose seconds are a number is before a number of seconds exactly if its
exact seconds are less than the number, after it exactly if they are greater, and has
seconds equal to it exactly if they are the same, so that always one of the three
holds. It is before every number greater than one that it is before, and after every
number less than one that it is after. For any stamp an integer too large for a double
is out of range in both comparisons, and dates have no part in either. -/
theorem seconds_compared_exactly (s : Stamp) :
    (s.IsTimed →
      (∀ x : Number, ¬x.TooLarge → ∃ isBefore isAfter : Bool,
        before s (.seconds x) = .ok isBefore ∧ after s (.seconds x) = .ok isAfter ∧
          (isBefore = true ↔ s.exactSeconds < x.extended) ∧
          (isAfter = true ↔ x.extended < s.exactSeconds) ∧
          ((Number.double s.seconds).numEq x.orZero = true ↔ s.exactSeconds = x.extended) ∧
          [isBefore, isAfter, (Number.double s.seconds).numEq x.orZero].count true = 1) ∧
      ∀ x y : Number, ¬x.TooLarge → ¬y.TooLarge → x.extended ≤ y.extended →
        (before s (.seconds x) = .ok true → before s (.seconds y) = .ok true) ∧
          (after s (.seconds y) = .ok true → after s (.seconds x) = .ok true)) ∧
    (∀ x : Number, x.TooLarge →
      before s (.seconds x) = .error .outOfRange ∧ after s (.seconds x) = .error .outOfRange) ∧
    ∀ (date : Option ZonedTime) (x : Number),
      before ⟨date, s.seconds⟩ (.seconds x) = before s (.seconds x) ∧
        after ⟨date, s.seconds⟩ (.seconds x) = after s (.seconds x) := by
  refine ⟨fun hs => ⟨?exact, ?monotone⟩, ?large, fun _ _ => ⟨rfl, rfl⟩⟩
  case exact =>
    intro x hx
    refine ⟨_, _, before_seconds hs hx, after_seconds hs hx, decide_eq_true_iff,
      decide_eq_true_iff, numEq_seconds_iff hs hx, ?_⟩
    have hequal : (Number.double s.seconds).numEq x.orZero =
        decide (s.exactSeconds = x.extended) :=
      Bool.eq_iff_iff.mpr ((numEq_seconds_iff hs hx).trans decide_eq_true_iff.symm)
    rw [hequal]
    rcases lt_trichotomy s.exactSeconds x.extended with h | h | h
    · simp [h, h.not_gt, h.ne]
    · simp [h]
    · simp [h, h.not_gt, h.ne']
  case monotone =>
    intro x y hx hy hxy
    rw [before_seconds hs hx, before_seconds hs hy, after_seconds hs hx, after_seconds hs hy]
    simp only [Except.ok.injEq, decide_eq_true_iff]
    exact ⟨fun h => h.trans_le hxy, fun h => hxy.trans_lt h⟩
  case large =>
    intro x hx
    rw [before, after, isBeforeSeconds?, isAfterSeconds?, Number.toDouble?_eq_none_iff.mpr hx]
    exact ⟨rfl, rfl⟩

/-- The integer behind `2 ^ 53` is rounded to `2 ^ 53` as a double. An uptime of `2 ^ 53`
seconds is before it all the same, and so before the next double. -/
theorem uptime_before_next :
    (Number.whole (2 ^ 53 + 1)).toDouble? = some (uptime (2 ^ 53)).seconds ∧
      before (uptime (2 ^ 53)) (.seconds (.whole (2 ^ 53 + 1))) = .ok true ∧
      after (uptime (2 ^ 53)) (.seconds (.whole (2 ^ 53 + 1))) = .ok false ∧
      before (uptime (2 ^ 53)) (.seconds (.double (.ofInt (2 ^ 53 + 2)))) = .ok true ∧
      before (uptime (2 ^ 53)) (.seconds (.whole (10 ^ 309))) = .error .outOfRange := by
  have hdouble : (Number.whole (2 ^ 53 + 1)).toDouble? = some (uptime (2 ^ 53)).seconds := by
    decide +kernel
  obtain ⟨hdecided, hlarge, -⟩ := seconds_compared_exactly (uptime (2 ^ 53))
  obtain ⟨hexact, hmono⟩ := hdecided (isTimed_uptime (2 ^ 53))
  have hnext : ¬(Number.whole (2 ^ 53 + 1)).TooLarge := by
    rw [← Number.toDouble?_eq_none_iff, hdouble]
    exact Option.some_ne_none _
  have hlater := Number.not_tooLarge_double (.ofInt (2 ^ 53 + 2))
  have hless : (uptime (2 ^ 53)).exactSeconds < (Number.whole (2 ^ 53 + 1)).extended := by
    rw [exactSeconds, Number.extended_lt_iff (Number.not_tooLarge_double _) hnext]
    decide +kernel
  have hle : (Number.whole (2 ^ 53 + 1)).extended ≤
      (Number.double (.ofInt (2 ^ 53 + 2))).extended := by
    rw [← not_lt, Number.extended_lt_iff hlater hnext]
    decide +kernel
  obtain ⟨isBefore, isAfter, hbefore, hafter, hbeforeIff, hafterIff, -⟩ := hexact _ hnext
  obtain rfl : isBefore = true := hbeforeIff.mpr hless
  obtain rfl : isAfter = false := Bool.eq_false_iff.mpr fun h => hless.not_gt (hafterIff.mp h)
  exact ⟨hdouble, hbefore, hafter, (hmono _ _ hnext hlater hle).1 hbefore,
    (hlarge _ ⟨10 ^ 309, rfl, by decide +kernel⟩).1⟩

end Operand
end HeapChronicle
