import HeapChronicle.Calendar.Date

/-!
Wall-clock times without a zone: microseconds since the year 1 began, up to the
end of the year 9999. A local time and its calendar fields determine each other
(`fields_ofFields`, `fields_isValid`).
-/

namespace HeapChronicle

structure LocalFields where
  date : CalendarDate
  hour : Nat
  minute : Nat
  second : Nat
  micro : Nat
  deriving DecidableEq

def LocalFields.IsValid (f : LocalFields) : Prop :=
  f.date.IsValid ∧ f.hour < 24 ∧ f.minute < 60 ∧ f.second < 60 ∧ f.micro < 1000000

instance (f : LocalFields) : Decidable f.IsValid :=
  inferInstanceAs (Decidable (_ ∧ _ ∧ _ ∧ _ ∧ _))

def microsPerDay : Nat := 86400000000

/-- The first count of microseconds past the year 9999. -/
def LocalTime.limit : Nat := microsPerDay * Calendar.daysOfYears 9999

structure LocalTime where
  micros : Nat
  lt_limit : micros < LocalTime.limit
  deriving DecidableEq

namespace LocalTime

def microsOf (f : LocalFields) : Nat :=
  f.date.dayNumber * microsPerDay +
    (((f.hour * 60 + f.minute) * 60 + f.second) * 1000000 + f.micro)

theorem microsOf_lt {f : LocalFields} (h : f.IsValid) : microsOf f < limit := by
  obtain ⟨hdate, hhour, hminute, hsecond, hmicro⟩ := h
  have hday := (CalendarDate.dayNumber_bounds hdate).2
  have hyears := Calendar.daysOfYears_mono hdate.2.1
  simp only [microsOf, limit, microsPerDay]
  omega

def ofFields (f : LocalFields) (h : f.IsValid) : LocalTime :=
  ⟨microsOf f, microsOf_lt h⟩

def ofFields? (f : LocalFields) : Option LocalTime :=
  if h : f.IsValid then some (ofFields f h) else none

def fields (t : LocalTime) : LocalFields :=
  let seconds := t.micros / 1000000
  { date := .ofDayNumber (t.micros / microsPerDay)
    hour := seconds / 3600 % 24
    minute := seconds / 60 % 60
    second := seconds % 60
    micro := t.micros % 1000000 }

/-- A local time moved by microseconds, unless that leaves the calendar. -/
def shift? (t : LocalTime) (micros : Int) : Option LocalTime :=
  let moved := t.micros + micros
  if h : 0 ≤ moved ∧ moved < limit then some ⟨moved.toNat, by omega⟩
  else none

theorem fields_isValid (t : LocalTime) : t.fields.IsValid := by
  have hlt := t.lt_limit
  refine ⟨CalendarDate.isValid_ofDayNumber ?_, Nat.mod_lt _ (by omega), Nat.mod_lt _ (by omega),
    Nat.mod_lt _ (by omega), Nat.mod_lt _ (by omega)⟩
  rw [Nat.div_lt_iff_lt_mul (by decide), Nat.mul_comm]
  exact hlt

theorem fields_ofFields {f : LocalFields} (h : f.IsValid) : (ofFields f h).fields = f := by
  obtain ⟨hdate, hhour, hminute, hsecond, hmicro⟩ := h
  obtain ⟨date, hour, minute, second, micro⟩ := f
  simp only at hdate hhour hminute hsecond hmicro
  have hday : microsOf ⟨date, hour, minute, second, micro⟩ / microsPerDay = date.dayNumber := by
    simp only [microsOf, microsPerDay]
    omega
  simp only [fields, ofFields, hday, CalendarDate.ofDayNumber_dayNumber hdate]
  simp only [LocalFields.mk.injEq, true_and, microsOf, microsPerDay]
  omega

theorem microsOf_fields (t : LocalTime) : microsOf t.fields = t.micros := by
  simp only [microsOf, fields, CalendarDate.dayNumber_ofDayNumber, microsPerDay]
  omega

end LocalTime
end HeapChronicle
