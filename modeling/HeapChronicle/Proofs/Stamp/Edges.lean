import HeapChronicle.Proofs.Number.Units
import HeapChronicle.Proofs.Stamp.Derived
import HeapChronicle.Proofs.Stamp.Timed
import HeapChronicle.Stamp.Operand

/-!
What no stamp can be moved by. An integer may be too large for a double; a date is
moved by no infinity, and not past the first or the last microsecond of the
calendar by its own local time. Nothing else stands in the way of a move
(`add?_eq_none_iff_of_dated`, `add?_eq_none_iff_of_undated`).
-/

namespace HeapChronicle

/-- The first microsecond of the year 1. -/
def LocalFields.first : LocalFields :=
  ⟨⟨1, 1, 1⟩, 0, 0, 0, 0⟩

/-- The last microsecond of the year 9999. -/
def LocalFields.last : LocalFields :=
  ⟨⟨9999, 12, 31⟩, 23, 59, 59, 999999⟩

theorem LocalTime.microsOf_first : microsOf .first = 0 := by
  decide

theorem LocalTime.microsOf_last : microsOf .last + 1 = limit := by
  decide

/-- The microseconds take the local time of the date past an end of the calendar. -/
def ZonedTime.LeavesBy (t : ZonedTime) (micros : Int) : Prop :=
  (t.wall.micros : Int) + micros < LocalTime.microsOf .first ∨
    (LocalTime.microsOf .last : Int) < t.wall.micros + micros

theorem ZonedTime.shift?_eq_none_iff_leavesBy {t : ZonedTime} {micros : Int} :
    t.shift? micros = none ↔ t.LeavesBy micros := by
  have hlast := LocalTime.microsOf_last
  rw [shift?_eq_none_iff, LeavesBy, LocalTime.microsOf_first]
  omega

namespace Number

variable {x : Number} {t : ZonedTime}

def IsInfinite (x : Number) : Prop :=
  ∃ negative, x = double (.infinite negative)

theorem toMicros?_eq_none_iff : x.toMicros? = none ↔ x.TooLarge ∨ x.IsInfinite := by
  rw [← toDouble?_eq_none_iff, toMicros?, Option.bind_eq_none_iff]
  cases x with
  | whole n =>
    have hdouble (a : Binary64) (ha : (whole n).toDouble? = some a) : a.toMicros? ≠ none := by
      have hfinite := isFinite_of_toDouble? (isFinite_whole n) ha
      rw [← Option.isSome_iff_ne_none, Binary64.isSome_toMicros?_iff]
      rintro negative rfl
      cases hfinite
    constructor
    · intro h
      refine .inl (Option.eq_none_iff_forall_ne_some.mpr ?_)
      intro a ha
      exact hdouble a ha (h a ha)
    · rintro (hnone | ⟨_, ⟨⟩⟩) a ha
      rw [hnone] at ha
      cases ha
  | double d =>
    have hinfinite : d.toMicros? = none ↔ ∃ negative, d = .infinite negative := by
      rw [← Option.not_isSome_iff_eq_none, Binary64.isSome_toMicros?_iff]
      simp only [not_forall, not_not]
    simp [toDouble?, IsInfinite, hinfinite]

/-- Only a finite number takes a date anywhere. -/
theorem isFinite_of_leavesBy (h : t.LeavesBy x.micros) : x.IsFinite := by
  rw [← ZonedTime.shift?_eq_none_iff_leavesBy] at h
  have hstays : x.micros ≠ 0 := by
    intro hzero
    rw [hzero, ZonedTime.shift?_zero] at h
    cases h
  cases x with
  | whole n => exact isFinite_whole n
  | double d =>
    cases d with
    | nan => exact absurd rfl hstays
    | infinite negative => exact absurd rfl hstays
    | finite negative m => exact (rfl : Binary64.isFinite (.finite negative m) = true)

end Number

namespace Stamp

variable {s : Stamp} {t : ZonedTime} {x : Number}

theorem add?_eq_none_iff_of_undated (hs : s.date = none) :
    s.add? x = none ↔ x.TooLarge := by
  have hdate := congrArg Option.isNone (date_add?_of_undated (x := x) hs)
  rw [Option.isNone_map, Option.isNone_map, Bool.eq_iff_iff, Option.isNone_iff_eq_none,
    Option.isNone_iff_eq_none, Number.toDouble?_eq_none_iff] at hdate
  exact hdate

theorem add?_eq_none_iff_of_dated (hs : s.date = some t) :
    s.add? x = none ↔ x.TooLarge ∨ x.IsInfinite ∨ t.LeavesBy x.micros := by
  have hdate := congrArg Option.isNone (date_add? (x := x) hs)
  rw [Option.isNone_map, Option.isNone_map, Bool.eq_iff_iff, Option.isNone_iff_eq_none,
    Option.isNone_iff_eq_none] at hdate
  rw [hdate, ← or_assoc, ← Number.toMicros?_eq_none_iff, ← ZonedTime.shift?_eq_none_iff_leavesBy,
    Number.micros]
  cases x.toMicros? with
  | none => exact iff_of_true rfl (.inl rfl)
  | some micros => simp only [Option.bind_some, Option.getD_some, reduceCtorEq, false_or]

theorem add?_eq_none_iff :
    s.add? x = none ↔ x.TooLarge ∨ s.hasDate = true ∧ x.IsInfinite ∨
      ∃ t, s.date = some t ∧ x.IsFinite ∧ t.LeavesBy x.micros := by
  cases hs : s.date with
  | none => simp [add?_eq_none_iff_of_undated hs, hasDate, hs]
  | some t =>
    have hfinite : x.IsFinite ∧ t.LeavesBy x.micros ↔ t.LeavesBy x.micros :=
      and_iff_right_of_imp Number.isFinite_of_leavesBy
    simp [add?_eq_none_iff_of_dated hs, hasDate, hs, hfinite]

end Stamp

namespace Operand

open Stamp

theorem inRange_eq_error_iff {α : Type} {result : Option α} {e : StampError} :
    inRange result = .error e ↔ e = .outOfRange ∧ result = none := by
  cases result with
  | none => simp [inRange, eq_comm]
  | some a => simp [inRange]

/-- Adding a number to a stamp fails exactly if it is an integer too large for a
double, if it is infinite and the stamp has a date, or if it is finite and takes the
local time of the date, by its rounded microseconds, before the first or past the
last microsecond of the calendar. The error is always the same. Subtracting a number
fails exactly where adding its negative does, and no double is too large for a stamp
without a date. -/
theorem add_fails_iff (s : Stamp) (x : Number) :
    (∀ e, add s (.seconds x) = .error e ↔ e = .outOfRange ∧
      (x.TooLarge ∨ s.hasDate = true ∧ x.IsInfinite ∨
        ∃ t, s.date = some t ∧ x.IsFinite ∧ t.LeavesBy x.micros)) ∧
    (∀ e, sub s (.seconds x) = .error e ↔ add s (.seconds x.neg) = .error e) ∧
    (s.hasDate = false → ∀ d : Binary64, (∃ v, add s (.seconds (.double d)) = .ok v) ∧
      ∃ v, sub s (.seconds (.double d)) = .ok (.stamp v)) := by
  refine ⟨?_, ?_, ?_⟩
  · intro e
    exact inRange_eq_error_iff.trans (and_congr_right fun _ => add?_eq_none_iff)
  · intro e
    have hmap : sub s (.seconds x) = (add s (.seconds x.neg)).map .stamp := rfl
    rw [hmap]
    cases add s (.seconds x.neg) with
    | error e' => simp [Except.map]
    | ok v => simp [Except.map]
  · intro hs d
    have hmoves (y : Binary64) : ∃ v, s.add? (.double y) = some v := by
      rw [← Option.ne_none_iff_exists', Ne, add?_eq_none_iff_of_undated (hasDate_eq_false_iff.mp hs)]
      exact Number.not_tooLarge_double y
    obtain ⟨v, hv⟩ := hmoves d
    obtain ⟨w, hw⟩ := hmoves d.neg
    refine ⟨⟨v, ?_⟩, w, ?_⟩
    · rw [add, hv]
      rfl
    · rw [sub, sub?, Number.neg, hw]
      rfl

/-- The double nearest to a microsecond. -/
def oneMicro : Number :=
  .double (.ofQuotient false 1 1000000)

/-- A microsecond does not fit after the end of the calendar, whether it is added or
its negative is subtracted, while a stamp without a date even takes an infinity. -/
theorem yearsEnd_has_no_next :
    add (ofDate (yearsEnd 0)) (.seconds oneMicro) = .error .outOfRange ∧
      sub (ofDate (yearsEnd 0)) (.seconds oneMicro.neg) = .error .outOfRange ∧
      ∃ v, add empty (.seconds (.double (.infinite false))) = .ok v := by
  have hfinite : oneMicro.IsFinite := Binary64.isFinite_ofQuotient (by decide) (by decide)
  have hleaves : (LocalTime.microsOf .last : Int) < (yearsEnd 0).wall.micros + oneMicro.micros := by
    decide +kernel
  have hback : oneMicro.neg.neg = oneMicro := by decide +kernel
  obtain ⟨hadd, -⟩ := add_fails_iff (ofDate (yearsEnd 0)) oneMicro
  obtain ⟨-, hsub, -⟩ := add_fails_iff (ofDate (yearsEnd 0)) oneMicro.neg
  obtain ⟨-, -, hundated⟩ := add_fails_iff empty oneMicro
  have hfails : add (ofDate (yearsEnd 0)) (.seconds oneMicro) = .error .outOfRange :=
    (hadd .outOfRange).mpr ⟨rfl, .inr (.inr ⟨yearsEnd 0, rfl, hfinite, .inr hleaves⟩)⟩
  refine ⟨hfails, ?_, (hundated rfl (.infinite false)).1⟩
  rw [hsub, hback]
  exact hfails

end Operand
end HeapChronicle
