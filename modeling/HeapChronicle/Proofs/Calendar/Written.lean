import HeapChronicle.Calendar.Iso8601
import HeapChronicle.Proofs.Decimal.Digits
import HeapChronicle.Series.DataPoint
import HeapChronicle.Stamp.Text

/-!
Dates that are written and dates that are read. For ASCII texts a date is read
from exactly the written form of its fields (`zonedTime?_clockText`,
`eq_clockText`), up to the colon of the offset, which is only written. So reading
and writing undo each other to the millisecond (`written_date_reads_back`), and a
written date determines its local time to the millisecond and its offset
(`text_eq_iff`).
-/

namespace HeapChronicle

namespace LocalTime

theorem toMillis_lt_limit (t : LocalTime) : t.micros / 1000 * 1000 < limit :=
  Nat.lt_of_le_of_lt (Nat.div_mul_le_self t.micros 1000) t.lt_limit

/-- A local time without the part of its last millisecond. -/
def toMillis (t : LocalTime) : LocalTime :=
  ⟨t.micros / 1000 * 1000, t.toMillis_lt_limit⟩

theorem fields_toMillis (t : LocalTime) :
    t.toMillis.fields = { t.fields with micro := t.fields.micro / 1000 * 1000 } := by
  simp only [fields, toMillis, microsPerDay, LocalFields.mk.injEq]
  refine ⟨congrArg CalendarDate.ofDayNumber ?_, ?_, ?_, ?_, ?_⟩ <;> omega

theorem ofFields?_eq_some {f : LocalFields} {t : LocalTime} (h : ofFields? f = some t) :
    t.fields = f := by
  rw [ofFields?] at h
  split at h
  next hvalid =>
    cases h
    exact fields_ofFields hvalid
  next => cases h

theorem ofFields?_fields (t : LocalTime) : ofFields? t.fields = some t := by
  rw [ofFields?, dif_pos t.fields_isValid]
  obtain ⟨micros, hlt⟩ := t
  simp only [ofFields, microsOf_fields]

end LocalTime

theorem ZonedTime.ofWall?_eq_some_iff {wall : LocalTime} {offset : Int} {t : ZonedTime} :
    ofWall? wall offset = some t ↔ t.wall = wall ∧ t.offset = offset := by
  rw [ofWall?]
  obtain ⟨w, o, hgt, hlt⟩ := t
  constructor
  · intro h
    split at h
    · cases h
      exact ⟨rfl, rfl⟩
    · cases h
  · rintro ⟨rfl, rfl⟩
    rw [dif_pos ⟨hgt, hlt⟩]

/-- A zoned time without the part of its last millisecond. -/
def ZonedTime.toMillis (t : ZonedTime) : ZonedTime :=
  { t with wall := t.wall.toMillis }

namespace Iso8601

open Decimal (digitChar paddedText)

def IsAscii (cs : List Char) : Prop :=
  ∀ c ∈ cs, c.toNat < 128

theorem all_iff_isAscii (cs : List Char) : cs.all (·.toNat < 128) = true ↔ IsAscii cs := by
  simp only [IsAscii, List.all_eq_true, decide_eq_true_eq]

instance : DecidablePred IsAscii :=
  fun cs => decidable_of_iff (cs.all (·.toNat < 128) = true) (all_iff_isAscii cs)

theorem digit?_of_ascii {c : Char} (h : c.toNat < 128) : Text.digit? c = Text.westernDigit? c := by
  cases hwestern : Text.westernDigit? c with
  | some d => exact Text.digit?_of_westernDigit? hwestern
  | none =>
    cases hany : Text.digit? c with
    | none => rfl
    | some d => rw [Decimal.westernDigit?_of_ascii h hany] at hwestern; cases hwestern

theorem western?_paddedText (width n : Nat) :
    western? (paddedText width n) = some (n % Nat.pow 10 width) := by
  rw [western?, paddedText, Decimal.mapM_map_digitChar fun _ => Decimal.lt_ten_of_mem_padded,
    Option.map_some, Decimal.ofDigits_padded]

theorem eq_paddedText {cs : List Char} {n : Nat} (h : western? cs = some n) :
    cs = paddedText cs.length n ∧ n < Nat.pow 10 cs.length := by
  obtain ⟨ds, hds, rfl⟩ := Option.map_eq_some_iff.mp h
  obtain ⟨rfl, hlt⟩ := Decimal.eq_map_digitChar hds
  rw [List.length_map, paddedText, Decimal.padded_ofDigits hlt]
  refine ⟨rfl, ?_⟩
  have hmod := Decimal.ofDigits_padded ds.length (Decimal.ofDigits ds)
  rw [Decimal.padded_ofDigits hlt] at hmod
  rw [hmod]
  exact Nat.mod_lt _ (Nat.pow_pos (by decide))

theorem anyDigits?_of_ascii {cs : List Char} (h : IsAscii cs) : anyDigits? cs = western? cs := by
  rw [anyDigits?, western?]
  congr 1
  induction cs with
  | nil => rfl
  | cons c cs ih =>
    obtain ⟨hc, hcs⟩ := List.forall_mem_cons.mp h
    rw [List.mapM_cons, List.mapM_cons, digit?_of_ascii hc, ih hcs]

theorem westernTens?_of_ascii {tens units : Char} (h : units.toNat < 128) :
    westernTens? tens units = western? [tens, units] := by
  rw [westernTens?, digit?_of_ascii h, western?, List.mapM_cons, List.mapM_cons, List.mapM_nil]
  cases Text.westernDigit? tens with
  | none => rfl
  | some t =>
    cases Text.westernDigit? units with
    | none => rfl
    | some u => simp [Decimal.ofDigits]

theorem day?_of_ascii {tens units : Char} (h : units.toNat < 128) :
    day? tens units = western? [tens, units] := by
  rw [day?, westernTens?_of_ascii h, ite_self]

theorem hour?_of_ascii {tens units : Char} (h : units.toNat < 128) :
    hour? tens units = western? [tens, units] := by
  rw [hour?, westernTens?_of_ascii h, ite_self]

/-! ## The form that is read -/

/-- The part of a date before its offset. -/
def clockText (f : LocalFields) : List Char :=
  dateText f.date ++ 'T' :: two f.hour ++ ':' :: two f.minute ++ ':' :: two f.second ++
    '.' :: paddedText 3 (f.micro / 1000)

theorem text_eq (t : ZonedTime) : text 3 t = clockText t.wall.fields ++ offsetText t.offset := rfl

/-- A date is read with whole milliseconds, in whatever script. -/
theorem dvd_instant_of_zonedTime? {cs : List Char} {t : ZonedTime} (h : zonedTime? cs = some t) :
    1000 ∣ t.instant := by
  rw [zonedTime?.eq_def] at h
  split at h
  next =>
    simp only [Option.bind_eq_bind, Option.bind_eq_some_iff] at h
    obtain ⟨_, -, year, -, month, -, day, -, hour, -, minute, -, second, -, millis, -, hours, -,
      minutes, -, wall, hwall, offset, -, ht⟩ := h
    obtain ⟨rfl, rfl⟩ := ZonedTime.ofWall?_eq_some_iff.mp ht
    have hmicros := LocalTime.microsOf_fields t.wall
    rw [LocalTime.ofFields?_eq_some hwall] at hmicros
    simp only [LocalTime.microsOf, microsPerDay] at hmicros
    simp only [ZonedTime.instant, ZonedTime.epoch]
    omega
  next => cases h

theorem dvd_instant_of_read {cs : List Char} {t : ZonedTime} (h : read cs = .ok t) :
    1000 ∣ t.instant := by
  rw [read] at h
  split at h
  next hread =>
    cases h
    exact dvd_instant_of_zonedTime? hread
  next => cases h

/-- What is read from an ASCII text is written in it. -/
theorem eq_clockText {cs : List Char} {t : ZonedTime} (hascii : IsAscii cs)
    (h : zonedTime? cs = some t) : ∃ (sign : Char) (hours minutes : Nat),
      cs = clockText t.wall.fields ++ sign :: (two hours ++ two minutes) ∧
      t.wall.fields.micro % 1000 = 0 ∧ hours < 100 ∧ offset? sign hours minutes = some t.offset := by
  rw [zonedTime?.eq_def] at h
  split at h
  next y₁ y₂ y₃ y₄ a o₁ o₂ b d₁ d₂ t' h₁ h₂ c m₁ m₂ e s₁ s₂ p f₁ f₂ f₃ sign z₁ z₂ w₁ w₂ =>
    simp only [IsAscii, List.forall_mem_cons] at hascii
    obtain ⟨hy₁, hy₂, hy₃, hy₄, -, -, -, -, -, hd₂, -, -, hh₂, -, -, hm₂, -, -, hs₂, -, -, -, -, -,
      hz₁, hz₂, -, hw₂, hnil⟩ := hascii
    have hyears : IsAscii [y₁, y₂, y₃, y₄] := by
      simp only [IsAscii, List.forall_mem_cons]
      exact ⟨hy₁, hy₂, hy₃, hy₄, hnil⟩
    have hzone : IsAscii [z₁, z₂] := by
      simp only [IsAscii, List.forall_mem_cons]
      exact ⟨hz₁, hz₂, hnil⟩
    simp only [anyDigits?_of_ascii hyears, anyDigits?_of_ascii hzone, day?_of_ascii hd₂,
      hour?_of_ascii hh₂, westernTens?_of_ascii hm₂, westernTens?_of_ascii hs₂,
      westernTens?_of_ascii hw₂, Option.bind_eq_bind, Option.bind_eq_some_iff] at h
    obtain ⟨_, hmarks, year, hyear, month, hmonth, day, hday, hour, hhour, minute, hminute,
      second, hsecond, millis, hmillis, hours, hhours, minutes, hminutes, wall, hwall,
      offset, hoffset, ht⟩ := h
    obtain ⟨rfl, rfl⟩ := ZonedTime.ofWall?_eq_some_iff.mp ht
    have hfields := LocalTime.ofFields?_eq_some hwall
    have hmilli : millis * 1000 / 1000 = millis := Nat.mul_div_cancel millis (by decide)
    refine ⟨sign, hours, minutes, ?_, ?_, (eq_paddedText hhours).2, hoffset⟩
    · have hyear' : paddedText 4 year = [y₁, y₂, y₃, y₄] := (eq_paddedText hyear).1.symm
      have hmonth' : two month = [o₁, o₂] := (eq_paddedText hmonth).1.symm
      have hday' : two day = [d₁, d₂] := (eq_paddedText hday).1.symm
      have hhour' : two hour = [h₁, h₂] := (eq_paddedText hhour).1.symm
      have hminute' : two minute = [m₁, m₂] := (eq_paddedText hminute).1.symm
      have hsecond' : two second = [s₁, s₂] := (eq_paddedText hsecond).1.symm
      have hmillis' : paddedText 3 millis = [f₁, f₂, f₃] := (eq_paddedText hmillis).1.symm
      have hhours' : two hours = [z₁, z₂] := (eq_paddedText hhours).1.symm
      have hminutes' : two minutes = [w₁, w₂] := (eq_paddedText hminutes).1.symm
      simp [guard] at hmarks
      obtain ⟨rfl, rfl, rfl, rfl, rfl, rfl⟩ := hmarks
      simp only [hfields, clockText, dateText, hmilli, hyear', hmonth', hday', hhour', hminute',
        hsecond', hmillis', hhours', hminutes', List.cons_append, List.nil_append]
    · rw [hfields]
      exact Nat.mul_mod_left millis 1000
  next => cases h

theorem western?_two {n : Nat} (h : n < 100) : western? (two n) = some n := by
  rw [two, western?_paddedText]
  exact congrArg some (Nat.mod_eq_of_lt h)

theorem isAscii_paddedText (width n : Nat) : IsAscii (paddedText width n) := by
  intro c hc
  obtain ⟨d, hd, rfl⟩ := List.mem_map.mp hc
  have hlt := Decimal.lt_ten_of_mem_padded hd
  rw [Decimal.toNat_digitChar hlt]
  omega

/-- The two characters of a number below a hundred. -/
theorem exists_two (n : Nat) : ∃ tens units, two n = [tens, units] ∧ units.toNat < 128 :=
  ⟨_, _, rfl, isAscii_paddedText 2 n _ (List.mem_cons_of_mem _ List.mem_cons_self)⟩

theorem lt_hundred {f : LocalFields} (hf : f.IsValid) :
    f.date.month < 100 ∧ f.date.day < 100 ∧ f.hour < 100 ∧ f.minute < 100 ∧ f.second < 100 := by
  obtain ⟨hdate, hhour, hminute, hsecond, -⟩ := hf
  obtain ⟨hmonth, hlength, hday⟩ := hdate.month
  have hmonths : (Calendar.monthLengths (Calendar.isLeap f.date.year)).length = 12 := rfl
  have hlengths : ∀ length ∈ Calendar.monthLengths (Calendar.isLeap f.date.year), length ≤ 31 := by
    cases Calendar.isLeap f.date.year <;> decide
  have hlongest := hlengths _ (List.getElem_mem hlength)
  omega

theorem zonedTime?_clockText {f : LocalFields} (hf : f.IsValid) {sign : Char} {hours minutes : Nat}
    (hhours : hours < 100) (hminutes : minutes < 100) :
    zonedTime? (clockText f ++ sign :: (two hours ++ two minutes)) =
      (LocalTime.ofFields? { f with micro := f.micro / 1000 * 1000 }).bind fun wall =>
        (offset? sign hours minutes).bind fun offset => ZonedTime.ofWall? wall offset := by
  obtain ⟨hmonth, hday, hhour, hminute, hsecond⟩ := lt_hundred hf
  obtain ⟨hdate, -, -, -, hmicro⟩ := hf
  have hyear : western? (paddedText 4 f.date.year) = some f.date.year := by
    rw [western?_paddedText]
    exact congrArg some (Nat.mod_eq_of_lt (Nat.lt_succ_of_le hdate.2.1))
  have hmillis : western? (paddedText 3 (f.micro / 1000)) = some (f.micro / 1000) := by
    rw [western?_paddedText]
    exact congrArg some (Nat.mod_eq_of_lt (Nat.div_lt_of_lt_mul hmicro))
  have hyearAscii : IsAscii (paddedText 4 f.date.year) := isAscii_paddedText 4 _
  have hzoneAscii : IsAscii (two hours) := isAscii_paddedText 2 _
  -- The reader takes the text character by character, so each field is cut up first.
  obtain ⟨y₁, y₂, y₃, y₄, hy⟩ : ∃ y₁ y₂ y₃ y₄, paddedText 4 f.date.year = [y₁, y₂, y₃, y₄] :=
    ⟨_, _, _, _, rfl⟩
  obtain ⟨f₁, f₂, f₃, hf⟩ : ∃ f₁ f₂ f₃, paddedText 3 (f.micro / 1000) = [f₁, f₂, f₃] :=
    ⟨_, _, _, rfl⟩
  obtain ⟨o₁, o₂, ho, -⟩ := exists_two f.date.month
  obtain ⟨d₁, d₂, hd, hd₂⟩ := exists_two f.date.day
  obtain ⟨h₁, h₂, hh, hh₂⟩ := exists_two f.hour
  obtain ⟨m₁, m₂, hm, hm₂⟩ := exists_two f.minute
  obtain ⟨s₁, s₂, hs, hs₂⟩ := exists_two f.second
  obtain ⟨z₁, z₂, hz, -⟩ := exists_two hours
  obtain ⟨w₁, w₂, hw, hw₂⟩ := exists_two minutes
  have htext : clockText f ++ sign :: (two hours ++ two minutes) =
      [y₁, y₂, y₃, y₄, '-', o₁, o₂, '-', d₁, d₂, 'T', h₁, h₂, ':', m₁, m₂, ':', s₁, s₂, '.',
        f₁, f₂, f₃, sign, z₁, z₂, w₁, w₂] := by
    simp only [clockText, dateText, hy, ho, hd, hh, hm, hs, hf, hz, hw, List.cons_append,
      List.nil_append]
  rw [hy] at hyear hyearAscii
  rw [hz] at hzoneAscii
  rw [htext, zonedTime?, anyDigits?_of_ascii hyearAscii, anyDigits?_of_ascii hzoneAscii,
    day?_of_ascii hd₂, hour?_of_ascii hh₂, westernTens?_of_ascii hm₂, westernTens?_of_ascii hs₂,
    westernTens?_of_ascii hw₂, ← ho, ← hd, ← hh, ← hm, ← hs, ← hf, ← hz, ← hw, hyear,
    western?_two hmonth, western?_two hday, western?_two hhour, western?_two hminute,
    western?_two hsecond, hmillis, western?_two hhours, western?_two hminutes]
  rfl

/-- A written date is read as what it says, to the millisecond. -/
theorem zonedTime?_written (t : ZonedTime) {sign : Char} {hours minutes : Nat}
    (hhours : hours < 100) (hminutes : minutes < 100)
    (hoffset : offset? sign hours minutes = some t.offset) :
    zonedTime? (clockText t.wall.fields ++ sign :: (two hours ++ two minutes)) =
      some t.toMillis := by
  rw [zonedTime?_clockText t.wall.fields_isValid hhours hminutes, ← LocalTime.fields_toMillis,
    LocalTime.ofFields?_fields, hoffset, Option.bind_some, Option.bind_some,
    ZonedTime.ofWall?_eq_some_iff]
  exact ⟨rfl, rfl⟩

def signOf (offset : Int) : Char :=
  if offset < 0 then '-' else '+'

theorem offset?_eq_some_iff {sign : Char} {hours minutes : Nat} {offset : Int} :
    offset? sign hours minutes = some offset ↔ minutes < 60 ∧
      (sign = '+' ∧ offset = hours * 3600 + minutes * 60 ∨
        sign = '-' ∧ offset = -(hours * 3600 + minutes * 60 : Int)) := by
  simp only [offset?]
  split
  next h => simp [Nat.not_lt.mpr h]
  next h =>
    rw [Nat.not_le] at h
    split
    next hplus => simp [h, hplus, eq_comm]
    next hplus =>
      split
      next hminus => simp [h, hminus, eq_comm]
      next hminus => simp [hplus, hminus]

/-- An offset of whole minutes is read from its sign, hours and minutes. -/
theorem offset?_signOf {offset : Int} (h : offset % 60 = 0) :
    offset? (signOf offset) (offset.natAbs / 3600) (offset.natAbs / 60 % 60) = some offset := by
  rw [offset?_eq_some_iff, signOf]
  refine ⟨Nat.mod_lt _ (by decide), ?_⟩
  split
  next hneg => exact .inr ⟨rfl, by omega⟩
  next hneg => exact .inl ⟨rfl, by omega⟩

theorem offsetText_of_minutes {offset : Int} (h : offset % 60 = 0) :
    offsetText offset = signOf offset ::
      (two (offset.natAbs / 3600) ++ ':' :: two (offset.natAbs / 60 % 60)) := by
  have hseconds : offset.natAbs % 60 = 0 := by omega
  simp only [offsetText, if_pos hseconds, List.append_nil]
  rfl

/-- A text without its last colon. -/
def dropLastColon (cs : List Char) : List Char :=
  (cs.reverse.erase ':').reverse

theorem dropLastColon_append {front back : List Char} (h : ':' ∉ back) :
    dropLastColon (front ++ ':' :: back) = front ++ back := by
  have hback : ':' ∉ back.reverse := fun hmem => h (List.mem_reverse.mp hmem)
  rw [dropLastColon, List.reverse_append, List.reverse_cons, List.append_assoc,
    List.erase_append_right _ hback, List.singleton_append, List.erase_cons_head,
    List.reverse_append, List.reverse_reverse, List.reverse_reverse]

theorem not_mem_paddedText {c : Char} (h : Text.westernDigit? c = none) (width n : Nat) :
    c ∉ paddedText width n := by
  intro hc
  obtain ⟨d, hd, rfl⟩ := List.mem_map.mp hc
  rw [Decimal.westernDigit?_digitChar (Decimal.lt_ten_of_mem_padded hd)] at h
  cases h

theorem dropLastColon_text {t : ZonedTime} (h : t.offset % 60 = 0) :
    dropLastColon (text 3 t) = clockText t.wall.fields ++ signOf t.offset ::
      (two (t.offset.natAbs / 3600) ++ two (t.offset.natAbs / 60 % 60)) := by
  have hcolon : ':' ∉ two (t.offset.natAbs / 60 % 60) := not_mem_paddedText (by decide) 2 _
  rw [text_eq, offsetText_of_minutes h, ← List.cons_append, ← List.append_assoc,
    dropLastColon_append hcolon, List.append_assoc, List.cons_append]

theorem clockText_eq_iff {t u : LocalTime} :
    clockText t.fields = clockText u.fields ↔ t.micros / 1000 = u.micros / 1000 := by
  constructor
  · intro h
    -- Read with some offset, both texts give back their times to the millisecond.
    have hzero : offset? '+' 0 0 = some 0 := rfl
    have hread (w : LocalTime) :=
      zonedTime?_written ⟨w, 0, by decide, by decide⟩ (by decide) (by decide) hzero
    have hmillis := (hread t).symm.trans
      ((congrArg (fun cs => zonedTime? (cs ++ _)) h).trans (hread u))
    have hwall := congrArg (fun v : ZonedTime => v.wall.micros) (Option.some.inj hmillis)
    simp only [ZonedTime.toMillis, LocalTime.toMillis] at hwall
    omega
  · intro h
    have hmillis : t.toMillis = u.toMillis := by
      simp only [LocalTime.toMillis, h]
    have hfields := t.fields_toMillis
    rw [hmillis, u.fields_toMillis, LocalFields.mk.injEq] at hfields
    obtain ⟨hdate, hhour, hminute, hsecond, hmicro⟩ := hfields
    have hplaces : t.fields.micro / 1000 = u.fields.micro / 1000 := by omega
    rw [clockText, clockText, ← hdate, ← hhour, ← hminute, ← hsecond, hplaces]

theorem two_inj {m n : Nat} (hm : m < 100) (hn : n < 100) (h : two m = two n) : m = n := by
  have hread := western?_two hm
  rw [h, western?_two hn] at hread
  exact (Option.some.inj hread).symm

theorem offsetText_inj {a b : Int} (ha : a.natAbs < 86400) (hb : b.natAbs < 86400)
    (h : offsetText a = offsetText b) : a = b := by
  have hlength (n : Nat) : (two n).length = 2 := Decimal.length_paddedText 2 n
  simp only [offsetText] at h
  obtain ⟨hminutes, hseconds⟩ := List.append_inj h (by simp [hlength])
  obtain ⟨hhours, hminutes⟩ := List.append_inj hminutes (by simp [hlength])
  obtain ⟨hsign, hhours⟩ := List.cons.inj hhours
  have hhours := two_inj (by omega) (by omega) hhours
  have hminutes := two_inj (by omega) (by omega) (List.cons.inj hminutes).2
  have hseconds : a.natAbs % 60 = b.natAbs % 60 := by
    split at hseconds <;> split at hseconds
    next h₁ h₂ => rw [h₁, h₂]
    next => cases hseconds
    next => cases hseconds
    next => exact two_inj (by omega) (by omega) (List.cons.inj hseconds).2
  have hnegative : a < 0 ↔ b < 0 := by
    split at hsign <;> split at hsign
    next h₁ h₂ => exact iff_of_true h₁ h₂
    next => cases hsign
    next => cases hsign
    next h₁ h₂ => exact iff_of_false h₁ h₂
  omega

theorem length_clockText (f : LocalFields) : (clockText f).length = 23 := by
  simp [clockText, dateText, two, Decimal.length_paddedText]

theorem text_eq_iff {t u : ZonedTime} :
    text 3 t = text 3 u ↔ t.wall.micros / 1000 = u.wall.micros / 1000 ∧ t.offset = u.offset := by
  have hday (v : ZonedTime) : v.offset.natAbs < 86400 := by
    have := v.offset_gt
    have := v.offset_lt
    omega
  rw [text_eq, text_eq]
  constructor
  · intro h
    obtain ⟨hclock, hoffset⟩ := List.append_inj h (by rw [length_clockText, length_clockText])
    exact ⟨clockText_eq_iff.mp hclock, offsetText_inj (hday t) (hday u) hoffset⟩
  · rintro ⟨hclock, hoffset⟩
    rw [clockText_eq_iff.mpr hclock, hoffset]

theorem all_isPlain_clockText (f : LocalFields) : (clockText f).all Decimal.isPlain = true := by
  have hmarks : ['-', 'T', ':', '.'].all Decimal.isPlain = true := by decide
  simp only [List.all_cons, List.all_nil, Bool.and_true, Bool.and_eq_true] at hmarks
  simp [clockText, dateText, two, hmarks]

theorem all_isPlain_offsetText (offset : Int) :
    (offsetText offset).all Decimal.isPlain = true := by
  have hmarks : ['-', '+', ':'].all Decimal.isPlain = true := by decide
  simp only [List.all_cons, List.all_nil, Bool.and_true, Bool.and_eq_true] at hmarks
  simp only [offsetText, two]
  split <;> split <;> simp [hmarks]

theorem all_isPlain_date (t : ZonedTime) : (text 3 t).all Decimal.isPlain = true := by
  rw [text_eq, List.all_append, all_isPlain_clockText, all_isPlain_offsetText, Bool.and_self]

/-- Only the minus sign with zero hours and minutes ends a text as `-0000`. -/
theorem suffix_minusZero {front : List Char} {sign : Char} {hours minutes : Nat}
    (hhours : hours < 100) (hminutes : minutes < 100)
    (h : "-0000".toList <:+ front ++ sign :: (two hours ++ two minutes)) :
    sign = '-' ∧ hours = 0 ∧ minutes = 0 := by
  obtain ⟨front', heq⟩ := h
  have hlength (n : Nat) : (two n).length = 2 := Decimal.length_paddedText 2 n
  obtain ⟨-, hend⟩ := List.append_inj' heq (by simp [hlength])
  obtain ⟨hsign, hdigits⟩ := List.cons.inj hend
  have hzeros : two 0 ++ two 0 = two hours ++ two minutes := hdigits
  obtain ⟨hzero, hzero'⟩ := List.append_inj hzeros (by simp [hlength])
  exact ⟨hsign.symm, (two_inj (by decide) hhours hzero).symm,
    (two_inj (by decide) hminutes hzero').symm⟩

/-- The date that a stamp and a data point write, without the colon of its offset,
is read back to the millisecond, in the same offset; and an ASCII text from which
a date is read is what the date is written as, but for the sign of a zero
offset. -/
theorem written_date_reads_back :
    (∀ (s : Stamp) (t : ZonedTime), s.date = some t →
      s.text.takeWhile (· != '@') = text 3 t ∧
      DataPoint.dateText s.date = '"' :: text 3 t ++ ['"']) ∧
    (∀ t : ZonedTime, t.offset % 60 = 0 → ∃ u, read (dropLastColon (text 3 t)) = .ok u ∧
      u.offset = t.offset ∧
      u.wall.fields = { t.wall.fields with micro := t.wall.fields.micro / 1000 * 1000 }) ∧
    ∀ (cs : List Char) (t : ZonedTime), IsAscii cs → read cs = .ok t →
      (¬ "-0000".toList <:+ cs ∧ dropLastColon (text 3 t) = cs) ∨
      ∃ front, cs = front ++ "-0000".toList ∧ dropLastColon (text 3 t) = front ++ "+0000".toList := by
  refine ⟨?_, ?_, ?_⟩
  · intro s t hs
    have hplain : ∀ c ∈ text 3 t, (c != '@') = true := by
      intro c hc
      rw [bne_iff_ne]
      rintro rfl
      exact Decimal.not_mem_of_isPlain (all_isPlain_date t) (by decide) hc
    rw [Stamp.text, hs]
    refine ⟨?_, rfl⟩
    rw [List.takeWhile_append_of_pos hplain, List.takeWhile_cons_of_neg (by decide), List.append_nil]
  · intro t hminutes
    refine ⟨t.toMillis, ?_, rfl, t.wall.fields_toMillis⟩
    have hday := t.offset_gt
    have hday' := t.offset_lt
    rw [dropLastColon_text hminutes, read, zonedTime?_written t (by omega) (by omega)
      (offset?_signOf hminutes)]
  · intro cs t hascii hread
    have ht : zonedTime? cs = some t := by
      rw [read] at hread
      split at hread
      next h => rw [h, Except.ok.inj hread]
      next => cases hread
    obtain ⟨sign, hours, minutes, rfl, -, hhundred, hoffset⟩ := eq_clockText hascii ht
    obtain ⟨hlt, hsign⟩ := offset?_eq_some_iff.mp hoffset
    have hwhole : t.offset % 60 = 0 := by omega
    have hhours : t.offset.natAbs / 3600 = hours := by omega
    have hminutes : t.offset.natAbs / 60 % 60 = minutes := by omega
    rw [dropLastColon_text hwhole, hhours, hminutes, signOf]
    obtain ⟨rfl, hplus⟩ | ⟨rfl, hminus⟩ := hsign
    · refine .inl ⟨fun hsuffix => ?_, ?_⟩
      · exact absurd (suffix_minusZero hhundred (by omega) hsuffix).1 (by decide)
      · rw [if_neg (by omega)]
    · by_cases hzero : t.offset = 0
      · have hh : hours = 0 := by omega
        have hm : minutes = 0 := by omega
        rw [if_neg (by omega), hh, hm]
        exact .inr ⟨_, rfl, rfl⟩
      · refine .inl ⟨fun hsuffix => ?_, ?_⟩
        · have hnone := (suffix_minusZero hhundred (by omega) hsuffix).2
          omega
        · rw [if_pos (by omega)]

/-- The last microsecond of a leap day, half an hour west. -/
def leapDayEnd : ZonedTime :=
  ⟨⟨63844847999999999, by decide⟩, -1800, by decide, by decide⟩

theorem leapDayEnd_reads_back :
    leapDayEnd.offset % 60 = 0 ∧
      (∃ u, read "2024-02-29T23:59:59.999-0030".toList = .ok u ∧ u.offset = -1800 ∧
        u.wall.fields = ⟨⟨2024, 2, 29⟩, 23, 59, 59, 999000⟩) ∧
      IsAscii "2024-02-29T23:59:59.999-0030".toList ∧
      read "2024-02-29T23:59:59.999-0030".toList = .ok leapDayEnd.toMillis ∧
      dropLastColon (text 3 leapDayEnd.toMillis) = "2024-02-29T23:59:59.999-0030".toList := by
  have hwhole : leapDayEnd.offset % 60 = 0 := by decide
  have hascii : IsAscii "2024-02-29T23:59:59.999-0030".toList := by decide
  have hwritten : dropLastColon (text 3 leapDayEnd) = "2024-02-29T23:59:59.999-0030".toList := by
    decide +kernel
  have hfields : leapDayEnd.wall.fields = ⟨⟨2024, 2, 29⟩, 23, 59, 59, 999999⟩ := by
    decide +kernel
  have hread : read "2024-02-29T23:59:59.999-0030".toList = .ok leapDayEnd.toMillis := by
    have hsome : zonedTime? "2024-02-29T23:59:59.999-0030".toList = some leapDayEnd.toMillis := by
      decide +kernel
    rw [read, hsome]
  obtain ⟨-, hreads, hwrites⟩ := written_date_reads_back
  obtain ⟨u, hu, hoffset, hwall⟩ := hreads leapDayEnd hwhole
  rw [hwritten] at hu
  rw [hfields] at hwall
  refine ⟨hwhole, ⟨u, hu, hoffset, hwall⟩, hascii, hread, ?_⟩
  obtain ⟨-, hsame⟩ | ⟨front, hfront, -⟩ := hwrites _ _ hascii hread
  · exact hsame
  · have hsuffix : "-0000".toList <:+ "2024-02-29T23:59:59.999-0030".toList := ⟨front, hfront.symm⟩
    exact absurd hsuffix (by decide)

end Iso8601
end HeapChronicle
