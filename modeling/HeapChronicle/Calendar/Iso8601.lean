import HeapChronicle.Calendar.ZonedTime
import HeapChronicle.Decimal.Digits
import HeapChronicle.Text.Token
import HeapChronicle.FormatError

/-!
Dates as text. The written form has a colon in the offset, and seconds in it
only when they are not zero. The form that is read has milliseconds and a
compact offset, as in `2017-09-07T09:00:12.795+0200`; there a field takes digits
of any script, except where only some western digits can begin or end it.
-/

namespace HeapChronicle.Iso8601

def two (n : Nat) : List Char :=
  Decimal.paddedText 2 n

def offsetText (offset : Int) : List Char :=
  let seconds := offset.natAbs
  (if offset < 0 then '-' else '+') :: two (seconds / 3600) ++ ':' :: two (seconds / 60 % 60) ++
    if seconds % 60 = 0 then [] else ':' :: two (seconds % 60)

def dateText (d : CalendarDate) : List Char :=
  Decimal.paddedText 4 d.year ++ '-' :: two d.month ++ '-' :: two d.day

/-- A zoned time with up to six places of seconds; further digits are cut
off. -/
def text (places : Nat) (t : ZonedTime) : List Char :=
  let f := t.wall.fields
  dateText f.date ++ 'T' :: two f.hour ++ ':' :: two f.minute ++ ':' :: two f.second ++
    '.' :: Decimal.paddedText places (f.micro / Nat.pow 10 (6 - places)) ++ offsetText t.offset

/-- The shape of a date token: digits of any script around fixed marks. -/
def shape : Text.Shape :=
  let digits (n : Nat) := List.replicate n Text.isDigit
  digits 4 ++ [(· == '-')] ++ digits 2 ++ [(· == '-')] ++ digits 2 ++ [(· == 'T')] ++
    digits 2 ++ [(· == ':')] ++ digits 2 ++ [(· == ':')] ++ digits 2 ++ [(· == '.')] ++
    digits 3 ++ [fun c => c == '+' || c == '-'] ++ digits 4

def anyDigits? (cs : List Char) : Option Nat :=
  (cs.mapM Text.digit?).map Decimal.ofDigits

def western? (cs : List Char) : Option Nat :=
  (cs.mapM Text.westernDigit?).map Decimal.ofDigits

def westernTens? (tens units : Char) : Option Nat := do
  let t ← Text.westernDigit? tens
  let u ← Text.digit? units
  some (10 * t + u)

/-- Units of any script follow the tens 1 and 2; the units after 0 and 3 are
western. -/
def day? (tens units : Char) : Option Nat :=
  if tens = '1' ∨ tens = '2' then westernTens? tens units else western? [tens, units]

/-- Units of any script follow the tens 0 and 1; the units after 2 are
western. -/
def hour? (tens units : Char) : Option Nat :=
  if tens = '0' ∨ tens = '1' then westernTens? tens units else western? [tens, units]

def offset? (sign : Char) (hours minutes : Nat) : Option Int :=
  let seconds : Int := hours * 3600 + minutes * 60
  if 60 ≤ minutes then none
  else if sign = '+' then some seconds
  else if sign = '-' then some (-seconds)
  else none

def zonedTime? : List Char → Option ZonedTime
  | [y₁, y₂, y₃, y₄, a, o₁, o₂, b, d₁, d₂, t, h₁, h₂, c, m₁, m₂, e, s₁, s₂, p, f₁, f₂, f₃,
      sign, z₁, z₂, w₁, w₂] => do
    guard ([a, b, t, c, e, p] = ['-', '-', 'T', ':', ':', '.'])
    let year ← anyDigits? [y₁, y₂, y₃, y₄]
    let month ← western? [o₁, o₂]
    let day ← day? d₁ d₂
    let hour ← hour? h₁ h₂
    let minute ← westernTens? m₁ m₂
    let second ← westernTens? s₁ s₂
    let millis ← western? [f₁, f₂, f₃]
    let offsetHours ← anyDigits? [z₁, z₂]
    let offsetMinutes ← westernTens? w₁ w₂
    let wall ← LocalTime.ofFields? ⟨⟨year, month, day⟩, hour, minute, second, millis * 1000⟩
    let offset ← offset? sign offsetHours offsetMinutes
    ZonedTime.ofWall? wall offset
  | _ => none

/-- Reads a date, with an error that keeps the text. -/
def read (cs : List Char) : Except FormatError ZonedTime :=
  match zonedTime? cs with
  | some t => .ok t
  | none => .error (.date cs)

end HeapChronicle.Iso8601
