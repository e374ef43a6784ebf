/-!
Gregorian dates of the years 1 to 9999 and their day numbers, counted from zero
at 1 January of the year 1. `ofDayNumber` and `dayNumber` undo each other
(`dayNumber_ofDayNumber`, `ofDayNumber_dayNumber`).
-/

namespace HeapChronicle
namespace Calendar

def isLeap (year : Nat) : Bool :=
  year % 4 == 0 && (year % 100 != 0 || year % 400 == 0)

def monthLengths (leap : Bool) : List Nat :=
  [31, if leap then 29 else 28, 31, 30, 31, 30, 31, 31, 30, 31, 30, 31]

def daysOfMonths : List Nat → Nat
  | [] => 0
  | length :: rest => length + daysOfMonths rest

@[simp] theorem daysOfMonths_nil : daysOfMonths [] = 0 := rfl

@[simp] theorem daysOfMonths_cons (length : Nat) (rest : List Nat) :
    daysOfMonths (length :: rest) = length + daysOfMonths rest := rfl

def daysOfYears (years : Nat) : Nat :=
  365 * years + years / 4 + years / 400 - years / 100

/-- The number of the last year that begins on or before a day, less one. The
estimate by the mean year is never too large, and at most one too small. -/
def yearsBefore (day : Nat) : Nat :=
  let estimate := 400 * day / 146097
  if daysOfYears (estimate + 1) ≤ day then estimate + 1 else estimate

/-- The full months before a day of the year, and the days after them. -/
def monthsBefore : List Nat → Nat → Nat × Nat
  | [], day => (0, day)
  | length :: rest, day =>
    if day < length then (0, day)
    else ((monthsBefore rest (day - length)).1 + 1, (monthsBefore rest (day - length)).2)

theorem daysOfYears_yearsBefore_le (day : Nat) : daysOfYears (yearsBefore day) ≤ day := by
  unfold yearsBefore
  dsimp only
  split
  · assumption
  · simp only [daysOfYears]
    omega

theorem lt_daysOfYears_yearsBefore (day : Nat) :
    day < daysOfYears (yearsBefore day + 1) := by
  unfold yearsBefore
  dsimp only
  split
  · simp only [daysOfYears]
    omega
  · omega

theorem daysOfYears_mono {a b : Nat} (h : a ≤ b) : daysOfYears a ≤ daysOfYears b := by
  rcases Nat.lt_or_eq_of_le h with h | rfl
  · simp only [daysOfYears]
    omega
  · exact Nat.le_refl _

theorem succ_div (n d : Nat) : (n + 1) / d = n / d + if (n + 1) % d = 0 then 1 else 0 := by
  rw [Nat.succ_div]
  simp only [Nat.dvd_iff_mod_eq_zero]

/-- Between two new years lie the days of the year's months. -/
theorem daysOfYears_succ (years : Nat) :
    daysOfYears (years + 1) = daysOfYears years + daysOfMonths (monthLengths (isLeap (years + 1))) := by
  have hcentury : years / 100 ≤ years / 4 := by omega
  have hlengths : daysOfMonths (monthLengths (isLeap (years + 1))) =
      if isLeap (years + 1) then 366 else 365 := by
    cases isLeap (years + 1) <;> rfl
  rw [hlengths]
  unfold daysOfYears
  rw [succ_div years 4, succ_div years 100, succ_div years 400]
  by_cases h4 : (years + 1) % 4 = 0 <;> by_cases h100 : (years + 1) % 100 = 0 <;>
    by_cases h400 : (years + 1) % 400 = 0 <;> simp [isLeap, h4, h100, h400] <;> omega

/-- A day within the months falls in one of them. -/
theorem monthsBefore_spec (lengths : List Nat) (day : Nat) (h : day < daysOfMonths lengths) :
    ∃ hm : (monthsBefore lengths day).1 < lengths.length,
      (monthsBefore lengths day).2 < lengths[(monthsBefore lengths day).1] ∧
      daysOfMonths (lengths.take (monthsBefore lengths day).1) + (monthsBefore lengths day).2 = day := by
  induction lengths generalizing day with
  | nil => simp at h
  | cons length rest ih =>
    by_cases hd : day < length
    · simp [monthsBefore, hd]
    · simp only [daysOfMonths_cons] at h
      obtain ⟨hm, hlt, hsum⟩ := ih (day - length) (by omega)
      simp only [monthsBefore, hd, if_false, List.length_cons, List.getElem_cons_succ,
        List.take_succ_cons, daysOfMonths_cons]
      exact ⟨by omega, hlt, by omega⟩

/-- Counting the days of the months before it finds a day's month again. -/
theorem monthsBefore_daysOfMonths_take (lengths : List Nat) (month day : Nat)
    (hm : month < lengths.length) (hd : day < lengths[month]) :
    monthsBefore lengths (daysOfMonths (lengths.take month) + day) = (month, day) := by
  induction lengths generalizing month with
  | nil => simp at hm
  | cons length rest ih =>
    cases month with
    | zero => simp_all [monthsBefore]
    | succ month =>
      simp only [List.length_cons, Nat.add_lt_add_iff_right] at hm
      simp only [List.getElem_cons_succ] at hd
      have hstep : daysOfMonths (List.take (month + 1) (length :: rest)) + day - length =
          daysOfMonths (rest.take month) + day := by
        simp only [List.take_succ_cons, daysOfMonths_cons]
        omega
      have hpast : ¬daysOfMonths (List.take (month + 1) (length :: rest)) + day < length := by
        simp only [List.take_succ_cons, daysOfMonths_cons]
        omega
      rw [monthsBefore, if_neg hpast, hstep, ih month hm hd]

end Calendar

/-- A day of the calendar. Months and days count from one. -/
structure CalendarDate where
  year : Nat
  month : Nat
  day : Nat
  deriving DecidableEq

namespace CalendarDate
open Calendar

/-- The days in a month; none in a month that does not exist. -/
def monthLength (year month : Nat) : Nat :=
  if month = 0 then 0 else ((monthLengths (isLeap year))[month - 1]?).getD 0

def IsValid (d : CalendarDate) : Prop :=
  1 ≤ d.year ∧ d.year ≤ 9999 ∧ 1 ≤ d.day ∧ d.day ≤ monthLength d.year d.month

instance (d : CalendarDate) : Decidable d.IsValid :=
  inferInstanceAs (Decidable (_ ∧ _ ∧ _ ∧ _))

/-- Days from 1 January of the year 1 to a date. -/
def dayNumber (d : CalendarDate) : Nat :=
  daysOfYears (d.year - 1) + daysOfMonths ((monthLengths (isLeap d.year)).take (d.month - 1)) + (d.day - 1)

def ofDayNumber (n : Nat) : CalendarDate :=
  let years := yearsBefore n
  let (months, days) := monthsBefore (monthLengths (isLeap (years + 1))) (n - daysOfYears years)
  ⟨years + 1, months + 1, days + 1⟩

/-- The day of the year that a day number leaves is one of the year's days. -/
theorem sub_lt_year (n : Nat) : n - daysOfYears (yearsBefore n) <
    daysOfMonths (monthLengths (isLeap (yearsBefore n + 1))) := by
  have hle := daysOfYears_yearsBefore_le n
  have hlt := lt_daysOfYears_yearsBefore n
  rw [daysOfYears_succ] at hlt
  omega

theorem dayNumber_ofDayNumber (n : Nat) : (ofDayNumber n).dayNumber = n := by
  obtain ⟨hm, hday, hsum⟩ := monthsBefore_spec _ _ (sub_lt_year n)
  have hle := daysOfYears_yearsBefore_le n
  simp only [ofDayNumber, dayNumber, Nat.add_sub_cancel]
  omega

theorem isValid_ofDayNumber {n : Nat} (h : n < daysOfYears 9999) : (ofDayNumber n).IsValid := by
  obtain ⟨hm, hday, hsum⟩ := monthsBefore_spec _ _ (sub_lt_year n)
  have hle := daysOfYears_yearsBefore_le n
  have hyear : yearsBefore n < 9999 := by
    refine Nat.lt_of_not_le fun hge => ?_
    have := daysOfYears_mono hge
    omega
  refine ⟨Nat.succ_pos _, hyear, Nat.succ_pos _, ?_⟩
  simp only [ofDayNumber, monthLength, Nat.add_sub_cancel, Nat.add_eq_zero_iff, Nat.one_ne_zero,
    and_false, if_false]
  rw [List.getElem?_eq_getElem hm, Option.getD_some]
  omega

/-- The month of a valid date exists, and the day lies in it. -/
theorem IsValid.month {d : CalendarDate} (h : d.IsValid) :
    1 ≤ d.month ∧ ∃ hm : d.month - 1 < (monthLengths (isLeap d.year)).length,
      d.day ≤ (monthLengths (isLeap d.year))[d.month - 1] := by
  obtain ⟨_, _, hday, hlength⟩ := h
  unfold monthLength at hlength
  split at hlength
  · omega
  · refine ⟨by omega, ?_⟩
    by_cases hm : d.month - 1 < (monthLengths (isLeap d.year)).length
    · rw [List.getElem?_eq_getElem hm, Option.getD_some] at hlength
      exact ⟨hm, hlength⟩
    · rw [List.getElem?_eq_none (by omega), Option.getD_none] at hlength
      omega

/-- The days of the full months and a day of the next stay within the year. -/
theorem daysOfMonths_take_add_lt (lengths : List Nat) (month day : Nat) (hm : month < lengths.length)
    (hd : day < lengths[month]) : daysOfMonths (lengths.take month) + day < daysOfMonths lengths := by
  induction lengths generalizing month with
  | nil => simp at hm
  | cons length rest ih =>
    cases month with
    | zero =>
      simp only [List.getElem_cons_zero] at hd
      simp only [List.take_zero, daysOfMonths_nil, daysOfMonths_cons]
      omega
    | succ month =>
      simp only [List.length_cons, Nat.add_lt_add_iff_right] at hm
      simp only [List.getElem_cons_succ] at hd
      have := ih month hm hd
      simp only [List.take_succ_cons, daysOfMonths_cons]
      omega

/-- The year of a day is the only one whose days reach around it. -/
theorem yearsBefore_eq {years n : Nat} (hle : daysOfYears years ≤ n)
    (hlt : n < daysOfYears (years + 1)) : yearsBefore n = years := by
  have hle' := daysOfYears_yearsBefore_le n
  have hlt' := lt_daysOfYears_yearsBefore n
  rcases Nat.lt_trichotomy (yearsBefore n) years with h | h | h
  · have := daysOfYears_mono (a := yearsBefore n + 1) (b := years) h
    omega
  · exact h
  · have := daysOfYears_mono (a := years + 1) (b := yearsBefore n) h
    omega

theorem dayNumber_bounds {d : CalendarDate} (h : d.IsValid) :
    daysOfYears (d.year - 1) ≤ d.dayNumber ∧ d.dayNumber < daysOfYears d.year := by
  obtain ⟨hmonth, hm, hday⟩ := h.month
  obtain ⟨hyear, _, hfirst, _⟩ := h
  have hyears : d.year = d.year - 1 + 1 := by omega
  have hsucc := daysOfYears_succ (d.year - 1)
  rw [← hyears] at hsucc
  have := daysOfMonths_take_add_lt _ (d.month - 1) (d.day - 1) hm (by omega)
  unfold dayNumber
  omega

theorem ofDayNumber_dayNumber {d : CalendarDate} (h : d.IsValid) :
    ofDayNumber d.dayNumber = d := by
  obtain ⟨hmonth, hm, hday⟩ := h.month
  have hbounds := dayNumber_bounds h
  obtain ⟨hyear, _, hfirst, _⟩ := h
  have hyears : d.year - 1 + 1 = d.year := by omega
  have hbefore : yearsBefore d.dayNumber = d.year - 1 :=
    yearsBefore_eq hbounds.1 (by rw [hyears]; exact hbounds.2)
  have hrest : d.dayNumber - daysOfYears (d.year - 1) =
      daysOfMonths ((monthLengths (isLeap d.year)).take (d.month - 1)) + (d.day - 1) := by
    unfold dayNumber
    omega
  simp only [ofDayNumber, hbefore, hyears, hrest]
  rw [monthsBefore_daysOfMonths_take _ _ _ hm (by omega)]
  obtain ⟨year, month, day⟩ := d
  simp only [CalendarDate.mk.injEq, true_and] at *
  omega

end CalendarDate
end HeapChronicle
