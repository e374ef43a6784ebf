import Mathlib.Tactic.IntervalCases
import HeapChronicle.Proofs.Calendar.Written
import HeapChronicle.Proofs.Log.Line

/-!
Which texts are dates. A date text denotes fields of the Gregorian calendar and an
offset, place by place (`Denotes`): most digits are western, but some places take
the digits of any script. The reader accepts just these texts, with what they
denote, and rejects every other text by name (`readDate?_iff_denotes`).
-/

namespace HeapChronicle

/-- The last day of a month, where every fourth year is a leap year, but of the full
centuries only every fourth. -/
def Calendar.lastDay (year month : Nat) : Nat :=
  if month = 2 then if 4 ∣ year ∧ (100 ∣ year → 400 ∣ year) then 29 else 28
  else if month ∈ [4, 6, 9, 11] then 30 else 31

theorem Calendar.isLeap_iff {year : Nat} :
    isLeap year = true ↔ 4 ∣ year ∧ (100 ∣ year → 400 ∣ year) := by
  simp only [isLeap, Bool.and_eq_true, Bool.or_eq_true, beq_iff_eq, bne_iff_ne]
  omega

namespace CalendarDate

theorem monthLength_eq_lastDay {year month : Nat} (hfirst : 1 ≤ month) (hlast : month ≤ 12) :
    monthLength year month = Calendar.lastDay year month := by
  simp only [Calendar.lastDay, ← Calendar.isLeap_iff, monthLength]
  interval_cases month
  all_goals rfl

theorem monthLength_eq_zero {year month : Nat} (h : ¬(1 ≤ month ∧ month ≤ 12)) :
    monthLength year month = 0 := by
  rw [monthLength]
  split
  next => rfl
  next hpositive =>
    have hpast : (Calendar.monthLengths (Calendar.isLeap year)).length ≤ month - 1 := by
      simp only [Calendar.monthLengths, List.length_cons, List.length_nil]
      omega
    rw [List.getElem?_eq_none hpast, Option.getD_none]

theorem isValid_iff {d : CalendarDate} :
    d.IsValid ↔ (1 ≤ d.year ∧ d.year ≤ 9999) ∧ (1 ≤ d.month ∧ d.month ≤ 12) ∧
      1 ≤ d.day ∧ d.day ≤ Calendar.lastDay d.year d.month := by
  rw [IsValid, ← and_assoc]
  refine and_congr_right fun _ => ?_
  by_cases hmonth : 1 ≤ d.month ∧ d.month ≤ 12
  · rw [monthLength_eq_lastDay hmonth.1 hmonth.2, and_iff_right hmonth]
  · rw [monthLength_eq_zero hmonth, iff_false_right (fun h => hmonth h.1)]
    omega

end CalendarDate

namespace Iso8601

/-- Which digits a place takes. -/
inductive Script where
  | western
  | any

/-- A character is a digit of a script, with its value. -/
def Script.Digit : Script → Char → Nat → Prop
  | western, c, d => c.isDigit = true ∧ c.toNat = '0'.toNat + d
  | any, c, d => Text.digit? c = some d

/-- A row of digits, with a script for each place, and its decimal value. -/
inductive Numeral : List Script → List Char → Nat → Prop where
  | nil : Numeral [] [] 0
  | cons {script : Script} {scripts : List Script} {c : Char} {cs : List Char} {d n : Nat} :
      script.Digit c d → Numeral scripts cs n →
        Numeral (script :: scripts) (c :: cs) (d * 10 ^ cs.length + n)

/-- The parts of a text of the shape of a date. -/
structure DateParts where
  year : List Char
  month : List Char
  day : List Char
  hour : List Char
  minute : List Char
  second : List Char
  millis : List Char
  sign : Char
  zoneHours : List Char
  zoneMinutes : List Char

def DateParts.text (p : DateParts) : List Char :=
  p.year ++ '-' :: p.month ++ '-' :: p.day ++ 'T' :: p.hour ++ ':' :: p.minute ++
    ':' :: p.second ++ '.' :: p.millis ++ p.sign :: (p.zoneHours ++ p.zoneMinutes)

/-- The units of the days 10 to 29 are digits of any script. -/
def dayUnits (day : Nat) : Script :=
  if 10 ≤ day ∧ day ≤ 29 then .any else .western

/-- The units of the hours 0 to 19 are digits of any script. -/
def hourUnits (hour : Nat) : Script :=
  if hour ≤ 19 then .any else .western

/-- Parts that write the fields of a local time to the millisecond. -/
structure DateParts.WriteFields (p : DateParts) (f : LocalFields) : Prop where
  year : Numeral [.any, .any, .any, .any] p.year f.date.year
  month : Numeral [.western, .western] p.month f.date.month
  day : Numeral [.western, dayUnits f.date.day] p.day f.date.day
  hour : Numeral [.western, hourUnits f.hour] p.hour f.hour
  minute : Numeral [.western, .any] p.minute f.minute
  second : Numeral [.western, .any] p.second f.second
  millis : ∃ n, Numeral [.western, .western, .western] p.millis n ∧ f.micro = n * 1000

/-- Parts that write an offset of whole minutes, less than a day either way. -/
def DateParts.WriteOffset (p : DateParts) (offset : Int) : Prop :=
  ∃ hours minutes : Nat, Numeral [.any, .any] p.zoneHours hours ∧ hours ≤ 23 ∧
    Numeral [.western, .any] p.zoneMinutes minutes ∧ minutes ≤ 59 ∧
    (p.sign = '+' ∧ offset = hours * 3600 + minutes * 60 ∨
      p.sign = '-' ∧ offset = -(hours * 3600 + minutes * 60 : Int))

/-- The fields are a day of the years 1 to 9999 and a time of the day. -/
def InCalendar (f : LocalFields) : Prop :=
  ((1 ≤ f.date.year ∧ f.date.year ≤ 9999) ∧ (1 ≤ f.date.month ∧ f.date.month ≤ 12) ∧
    1 ≤ f.date.day ∧ f.date.day ≤ Calendar.lastDay f.date.year f.date.month) ∧
    f.hour ≤ 23 ∧ f.minute ≤ 59 ∧ f.second ≤ 59

/-- The text is a date, of these fields and this offset in seconds. -/
def Denotes (cs : List Char) (f : LocalFields) (offset : Int) : Prop :=
  ∃ p : DateParts, p.text = cs ∧ p.WriteFields f ∧ p.WriteOffset offset ∧ InCalendar f

theorem digit_western_iff {c : Char} {d : Nat} :
    Script.western.Digit c d ↔ Text.westernDigit? c = some d := by
  have hdigit : c.isDigit = true ↔ 48 ≤ c.toNat ∧ c.toNat < 58 := by
    rw [Char.isDigit, Bool.and_eq_true, decide_eq_true_eq, decide_eq_true_eq, Nat.lt_succ_iff]
    rfl
  have hzero : '0'.toNat = 48 := rfl
  rw [Script.Digit, hdigit, hzero, Text.westernDigit?]
  split
  next h =>
    rw [Option.some.injEq]
    omega
  next h => simp only [h, false_and, reduceCtorEq]

theorem digit_any_iff {c : Char} {d : Nat} : Script.any.Digit c d ↔ Text.digit? c = some d :=
  Iff.rfl

theorem digit_lt {script : Script} {c : Char} {d : Nat} (h : script.Digit c d) : d < 10 := by
  cases script with
  | western => exact Text.westernDigit?_lt (digit_western_iff.mp h)
  | any => exact Text.digit?_lt h

variable {scripts : List Script} {script : Script} {cs : List Char} {c tens units : Char} {n : Nat}

theorem length_of_mapM {digit? : Char → Option Nat} {ds : List Nat}
    (h : cs.mapM digit? = some ds) : ds.length = cs.length := by
  induction cs generalizing ds with
  | nil =>
    obtain rfl := Option.some.inj h
    rfl
  | cons c cs ih =>
    rw [List.mapM_cons] at h
    obtain ⟨d, -, h⟩ := Option.bind_eq_some_iff.mp h
    obtain ⟨es, hes, h⟩ := Option.bind_eq_some_iff.mp h
    obtain rfl := Option.some.inj h
    rw [List.length_cons, List.length_cons, ih hes]

namespace Numeral

theorem length_eq (h : Numeral scripts cs n) : cs.length = scripts.length := by
  induction h with
  | nil => rfl
  | cons _ _ ih => rw [List.length_cons, List.length_cons, ih]

theorem lt (h : Numeral scripts cs n) : n < 10 ^ scripts.length := by
  induction h with
  | nil => exact Nat.one_pos
  | @cons script scripts c cs d n hd hn ih =>
    have hplace : d * 10 ^ cs.length ≤ 9 * 10 ^ cs.length :=
      Nat.mul_le_mul_right _ (Nat.le_of_lt_succ (digit_lt hd))
    rw [hn.length_eq] at hplace ⊢
    rw [List.length_cons, pow_succ]
    omega

theorem nil_iff : Numeral [] [] n ↔ n = 0 := by
  constructor
  · rintro ⟨⟩
    rfl
  · rintro rfl
    exact nil

theorem cons_iff : Numeral (script :: scripts) (c :: cs) n ↔
    ∃ d m, script.Digit c d ∧ Numeral scripts cs m ∧ n = d * 10 ^ cs.length + m := by
  constructor
  · rintro (_ | ⟨hdigit, hrest⟩)
    exact ⟨_, _, hdigit, hrest, rfl⟩
  · rintro ⟨d, m, hdigit, hrest, rfl⟩
    exact hrest.cons hdigit

/-- A row of digits of one script is read digit by digit. -/
theorem replicate_iff {digit? : Char → Option Nat}
    (hdigit : ∀ c d, script.Digit c d ↔ digit? c = some d) :
    Numeral (List.replicate cs.length script) cs n ↔
      ∃ ds, cs.mapM digit? = some ds ∧ Decimal.ofDigits ds = n := by
  induction cs generalizing n with
  | nil => simp [nil_iff, eq_comm]
  | cons c cs ih =>
    have hplace {d : Nat} {ds : List Nat} (hds : cs.mapM digit? = some ds) :
        Decimal.ofDigits (d :: ds) = d * 10 ^ cs.length + Decimal.ofDigits ds := by
      rw [Decimal.ofDigits_cons, length_of_mapM hds]
    rw [List.length_cons, List.replicate_succ, cons_iff, List.mapM_cons]
    constructor
    · rintro ⟨d, m, hd, hm, rfl⟩
      obtain ⟨ds, hds, rfl⟩ := ih.mp hm
      refine ⟨d :: ds, ?_, hplace hds⟩
      rw [(hdigit c d).mp hd, hds]
      rfl
    · rintro ⟨_, h, rfl⟩
      obtain ⟨d, hd, h⟩ := Option.bind_eq_some_iff.mp h
      obtain ⟨ds, hds, h⟩ := Option.bind_eq_some_iff.mp h
      obtain rfl := Option.some.inj h
      exact ⟨d, _, (hdigit c d).mpr hd, ih.mpr ⟨ds, hds, rfl⟩, hplace hds⟩

theorem two_iff {first last : Script} : Numeral [first, last] [tens, units] n ↔
    ∃ t u, first.Digit tens t ∧ last.Digit units u ∧ 10 * t + u = n := by
  simp only [cons_iff, nil_iff, List.length_cons, List.length_nil]
  constructor
  · rintro ⟨t, _, ht, ⟨u, _, hu, rfl, rfl⟩, rfl⟩
    exact ⟨t, u, ht, hu, by omega⟩
  · rintro ⟨t, u, ht, hu, rfl⟩
    exact ⟨t, u, ht, ⟨u, 0, hu, rfl, by omega⟩, by omega⟩

end Numeral

theorem anyDigits?_eq_some_iff :
    anyDigits? cs = some n ↔ Numeral (List.replicate cs.length .any) cs n := by
  rw [anyDigits?, Option.map_eq_some_iff, Numeral.replicate_iff fun _ _ => Iff.rfl]

theorem western?_eq_some_iff :
    western? cs = some n ↔ Numeral (List.replicate cs.length .western) cs n := by
  rw [western?, Option.map_eq_some_iff, Numeral.replicate_iff fun _ _ => digit_western_iff]

theorem westernTens?_eq_some_iff :
    westernTens? tens units = some n ↔ Numeral [.western, .any] [tens, units] n := by
  simp only [westernTens?, Option.bind_eq_bind, Option.bind_eq_some_iff, Option.some.injEq,
    Numeral.two_iff, digit_western_iff, digit_any_iff]
  constructor
  · rintro ⟨t, ht, u, hu, h⟩
    exact ⟨t, u, ht, hu, h⟩
  · rintro ⟨t, u, ht, hu, h⟩
    exact ⟨t, ht, u, hu, h⟩

/-- After some tens the units are digits of any script, after the others western. -/
theorem ite_tens_eq_some_iff {opens : Prop} [Decidable opens] (free : Nat → Prop)
    [DecidablePred free]
    (hopens : ∀ t u, Script.western.Digit tens t → u < 10 → (opens ↔ free (10 * t + u))) :
    (if opens then westernTens? tens units else western? [tens, units]) = some n ↔
      Numeral [.western, if free n then .any else .western] [tens, units] n := by
  have hfree {last : Script} (hn : Numeral [.western, last] [tens, units] n) :
      opens ↔ free n := by
    obtain ⟨t, u, ht, hu, rfl⟩ := Numeral.two_iff.mp hn
    exact hopens t u ht (digit_lt hu)
  split
  next h =>
    rw [westernTens?_eq_some_iff]
    constructor
    · intro hn
      rwa [if_pos ((hfree hn).mp h)]
    · intro hn
      rwa [if_pos ((hfree hn).mp h)] at hn
  next h =>
    rw [western?_eq_some_iff]
    constructor
    · intro hn
      rwa [if_neg (mt (hfree hn).mpr h)]
    · intro hn
      rwa [if_neg (mt (hfree hn).mpr h)] at hn

theorem eq_digitChar_iff {t : Nat} (h : Script.western.Digit tens t) (k : Nat) (hk : k < 10) :
    tens = Decimal.digitChar k ↔ t = k := by
  rw [digit_western_iff] at h
  constructor
  · rintro rfl
    rw [Decimal.westernDigit?_digitChar hk] at h
    exact (Option.some.inj h).symm
  · rintro rfl
    exact Decimal.eq_digitChar h

theorem day?_eq_some_iff :
    day? tens units = some n ↔ Numeral [.western, dayUnits n] [tens, units] n := by
  refine ite_tens_eq_some_iff (fun day => 10 ≤ day ∧ day ≤ 29) fun t u ht hu => ?_
  have hone : tens = '1' ↔ t = 1 := eq_digitChar_iff ht 1 (by decide)
  have htwo : tens = '2' ↔ t = 2 := eq_digitChar_iff ht 2 (by decide)
  rw [hone, htwo]
  omega

theorem hour?_eq_some_iff :
    hour? tens units = some n ↔ Numeral [.western, hourUnits n] [tens, units] n := by
  refine ite_tens_eq_some_iff (· ≤ 19) fun t u ht hu => ?_
  have hzero : tens = '0' ↔ t = 0 := eq_digitChar_iff ht 0 (by decide)
  have hone : tens = '1' ↔ t = 1 := eq_digitChar_iff ht 1 (by decide)
  rw [hzero, hone]
  omega

/-! ## The reader -/

theorem inCalendar_of_isValid {f : LocalFields} (h : f.IsValid) : InCalendar f := by
  obtain ⟨hdate, hhour, hminute, hsecond, -⟩ := h
  exact ⟨CalendarDate.isValid_iff.mp hdate, Nat.le_of_lt_succ hhour, Nat.le_of_lt_succ hminute,
    Nat.le_of_lt_succ hsecond⟩

/-- What a text denotes is the local time and the offset of some zoned time. -/
theorem exists_of_denotes {f : LocalFields} {offset : Int} (h : Denotes cs f offset) :
    ∃ t : ZonedTime, t.wall.fields = f ∧ t.offset = offset := by
  obtain ⟨p, -, hfields, ⟨hours, minutes, -, hhours, -, hminutes, hsign⟩, hdate, hhour, hminute,
    hsecond⟩ := h
  obtain ⟨millis, hmillis, hmicro⟩ := hfields.millis
  have hthousand : millis < 1000 := hmillis.lt
  have hvalid : f.IsValid := by
    refine ⟨CalendarDate.isValid_iff.mpr hdate, ?_⟩
    omega
  exact ⟨⟨.ofFields f hvalid, offset, by omega, by omega⟩, LocalTime.fields_ofFields hvalid, rfl⟩

theorem denotes_of_zonedTime? {t : ZonedTime} (h : zonedTime? cs = some t) :
    Denotes cs t.wall.fields t.offset := by
  rw [zonedTime?.eq_def] at h
  split at h
  next y₁ y₂ y₃ y₄ a o₁ o₂ b d₁ d₂ t' h₁ h₂ c m₁ m₂ e s₁ s₂ p f₁ f₂ f₃ sign z₁ z₂ w₁ w₂ =>
    simp only [Option.bind_eq_bind, Option.bind_eq_some_iff] at h
    obtain ⟨_, hmarks, year, hyear, month, hmonth, day, hday, hour, hhour, minute, hminute,
      second, hsecond, millis, hmillis, hours, hhours, minutes, hminutes, wall, hwall,
      offset, hoffset, ht⟩ := h
    obtain ⟨rfl, rfl⟩ := ZonedTime.ofWall?_eq_some_iff.mp ht
    obtain ⟨hsixty, hsign⟩ := offset?_eq_some_iff.mp hoffset
    have hbefore := t.offset_lt
    have hafter := t.offset_gt
    cases (Option.guard_eq_some' _).mp hmarks
    refine ⟨⟨[y₁, y₂, y₃, y₄], [o₁, o₂], [d₁, d₂], [h₁, h₂], [m₁, m₂], [s₁, s₂], [f₁, f₂, f₃],
      sign, [z₁, z₂], [w₁, w₂]⟩, rfl, ?_, ?_, inCalendar_of_isValid t.wall.fields_isValid⟩
    · rw [LocalTime.ofFields?_eq_some hwall]
      exact {
        year := anyDigits?_eq_some_iff.mp hyear
        month := western?_eq_some_iff.mp hmonth
        day := day?_eq_some_iff.mp hday
        hour := hour?_eq_some_iff.mp hhour
        minute := westernTens?_eq_some_iff.mp hminute
        second := westernTens?_eq_some_iff.mp hsecond
        millis := ⟨millis, western?_eq_some_iff.mp hmillis, rfl⟩ }
    · exact ⟨hours, minutes, anyDigits?_eq_some_iff.mp hhours, by omega,
        westernTens?_eq_some_iff.mp hminutes, by omega, hsign⟩
  next => cases h

theorem zonedTime?_of_denotes {t : ZonedTime} (h : Denotes cs t.wall.fields t.offset) :
    zonedTime? cs = some t := by
  obtain ⟨⟨year, month, day, hour, minute, second, millis, sign, zoneHours, zoneMinutes⟩, rfl,
    ⟨hyear, hmonth, hday, hhour, hminute, hsecond, count, hmillis, hmicro⟩,
    ⟨hours, minutes, hhours, -, hminutes, hsixty, hsign⟩, -⟩ := h
  -- The reader takes the text character by character, so each part is cut up first.
  obtain ⟨y₁, y₂, y₃, y₄, rfl⟩ := List.length_eq_four.mp hyear.length_eq
  obtain ⟨o₁, o₂, rfl⟩ := List.length_eq_two.mp hmonth.length_eq
  obtain ⟨d₁, d₂, rfl⟩ := List.length_eq_two.mp hday.length_eq
  obtain ⟨h₁, h₂, rfl⟩ := List.length_eq_two.mp hhour.length_eq
  obtain ⟨m₁, m₂, rfl⟩ := List.length_eq_two.mp hminute.length_eq
  obtain ⟨s₁, s₂, rfl⟩ := List.length_eq_two.mp hsecond.length_eq
  obtain ⟨f₁, f₂, f₃, rfl⟩ := List.length_eq_three.mp hmillis.length_eq
  obtain ⟨z₁, z₂, rfl⟩ := List.length_eq_two.mp hhours.length_eq
  obtain ⟨w₁, w₂, rfl⟩ := List.length_eq_two.mp hminutes.length_eq
  have hyear : anyDigits? [y₁, y₂, y₃, y₄] = _ := anyDigits?_eq_some_iff.mpr hyear
  have hmonth : western? [o₁, o₂] = _ := western?_eq_some_iff.mpr hmonth
  have hday : day? d₁ d₂ = _ := day?_eq_some_iff.mpr hday
  have hhour : hour? h₁ h₂ = _ := hour?_eq_some_iff.mpr hhour
  have hminute : westernTens? m₁ m₂ = _ := westernTens?_eq_some_iff.mpr hminute
  have hsecond : westernTens? s₁ s₂ = _ := westernTens?_eq_some_iff.mpr hsecond
  have hmillis : western? [f₁, f₂, f₃] = _ := western?_eq_some_iff.mpr hmillis
  have hhours : anyDigits? [z₁, z₂] = _ := anyDigits?_eq_some_iff.mpr hhours
  have hminutes : westernTens? w₁ w₂ = _ := westernTens?_eq_some_iff.mpr hminutes
  have hoffset : offset? sign hours minutes = some t.offset :=
    offset?_eq_some_iff.mpr ⟨Nat.lt_succ_of_le hsixty, hsign⟩
  have hwall := LocalTime.ofFields?_fields t.wall
  have hzoned : ZonedTime.ofWall? t.wall t.offset = some t :=
    ZonedTime.ofWall?_eq_some_iff.mpr ⟨rfl, rfl⟩
  show zonedTime? [y₁, y₂, y₃, y₄, '-', o₁, o₂, '-', d₁, d₂, 'T', h₁, h₂, ':', m₁, m₂, ':', s₁, s₂,
    '.', f₁, f₂, f₃, sign, z₁, z₂, w₁, w₂] = some t
  rw [zonedTime?, hyear, hmonth, hday, hhour, hminute, hsecond, hmillis, hhours, hminutes]
  simp only [Option.bind_eq_bind, Option.bind_some, ← hmicro, hwall, hoffset, hzoned]
  rfl

theorem zonedTime?_eq_some_iff {t : ZonedTime} :
    zonedTime? cs = some t ↔ Denotes cs t.wall.fields t.offset :=
  ⟨denotes_of_zonedTime?, zonedTime?_of_denotes⟩

theorem read_eq_ok_iff {t : ZonedTime} :
    read cs = .ok t ↔ Denotes cs t.wall.fields t.offset := by
  rw [← zonedTime?_eq_some_iff, read]
  cases zonedTime? cs with
  | none => simp
  | some u => simp

theorem read_eq_error_iff_not_denotes {e : FormatError} :
    read cs = .error e ↔ e = .date cs ∧ ∀ f offset, ¬Denotes cs f offset := by
  rw [read_eq_error_iff, and_comm]
  refine and_congr_right fun _ => ?_
  rw [Option.eq_none_iff_forall_ne_some]
  constructor
  · intro hnone f offset hdenotes
    obtain ⟨t, rfl, rfl⟩ := exists_of_denotes hdenotes
    exact hnone t (zonedTime?_eq_some_iff.mpr hdenotes)
  · intro hnone t ht
    exact hnone _ _ (zonedTime?_eq_some_iff.mp ht)

end Iso8601

namespace Stamp

open Iso8601 (Denotes)

variable {cs : List Char} {t : ZonedTime} {e : FormatError}

theorem readDate?_eq_ok_iff :
    readDate? (some cs) = .ok (some t) ↔ Denotes cs t.wall.fields t.offset := by
  rw [readDate?, ← Iso8601.read_eq_ok_iff]
  cases Iso8601.read cs with
  | error e => simp [Except.map]
  | ok u => simp [Except.map]

theorem readDate?_eq_error_iff :
    readDate? (some cs) = .error e ↔ e = .date cs ∧ ∀ f offset, ¬Denotes cs f offset := by
  rw [readDate?, ← Iso8601.read_eq_error_iff_not_denotes]
  cases Iso8601.read cs with
  | error e' => simp [Except.map]
  | ok u => simp [Except.map]

/-- A date is read from exactly the texts that denote one, with the fields and the
offset that they denote. From every other text there is the one error that keeps
the text. -/
theorem readDate?_iff_denotes (cs : List Char) :
    (∀ f offset, Denotes cs f offset ↔
      ∃ t, readDate? (some cs) = .ok (some t) ∧ t.wall.fields = f ∧ t.offset = offset) ∧
    (∀ e, readDate? (some cs) = .error e ↔ e = .date cs ∧ ∀ f offset, ¬Denotes cs f offset) ∧
    ∀ e, readDate? (some cs) = .error e → e.text = cs := by
  refine ⟨?_, fun e => readDate?_eq_error_iff, ?_⟩
  · intro f offset
    constructor
    · intro hdenotes
      obtain ⟨t, rfl, rfl⟩ := Iso8601.exists_of_denotes hdenotes
      exact ⟨t, readDate?_eq_ok_iff.mpr hdenotes, rfl, rfl⟩
    · rintro ⟨t, ht, rfl, rfl⟩
      exact readDate?_eq_ok_iff.mp ht
  · intro e he
    obtain ⟨rfl, -⟩ := readDate?_eq_error_iff.mp he
    rfl

example : ∃ t, readDate? (some "2017-09-1٧T09:00:12.795+0200".toList) = .ok (some t) ∧
    t.wall.fields = ⟨⟨2017, 9, 17⟩, 9, 0, 12, 795000⟩ ∧ t.offset = 7200 :=
  ⟨_, rfl, by decide +kernel, rfl⟩

example : readDate? (some "2017-09-0٧T09:00:12.795+0200".toList) =
    .error (.date "2017-09-0٧T09:00:12.795+0200".toList) := rfl

end Stamp
end HeapChronicle
