import HeapChronicle.Calendar.ZonedTime
import HeapChronicle.Number.Basic

/-!
A stamp is a point in time read from a log: perhaps a date, and decimal seconds
from some epoch. A stamp that is built with a date and without usable seconds
gets the seconds since 1970 of its date. From then on the two are independent.
-/

namespace HeapChronicle

structure Stamp where
  date : Option ZonedTime
  seconds : Binary64
  deriving DecidableEq

/-- What a stamp cannot be built from, compared with or moved by. -/
inductive StampError where
  /-- A date without an offset was offered as the date of a stamp. -/
  | zoneless
  /-- A date was compared with one that has no offset. -/
  | zonelessComparison
  /-- The operand is neither a stamp nor a number. -/
  | unsupportedOperand
  /-- A number is too large for a double, or a date leaves the calendar. -/
  | outOfRange
  deriving DecidableEq

def StampError.message? : StampError → Option (List Char)
  | zoneless => some "date_time must be timezone-aware".toList
  | _ => none

namespace Stamp

/-- The seconds of a stamp that has none. -/
def noSeconds : Binary64 :=
  .ofInt (-1)

/-- Nothing was found: no date and no seconds. -/
def empty : Stamp :=
  ⟨none, noSeconds⟩

/-- Whole seconds from 1970 on, rounded down. -/
def wholeSeconds (t : ZonedTime) : Int :=
  t.instant / 1000000

def partMicros (t : ZonedTime) : Nat :=
  (t.instant % 1000000).toNat

/-- The seconds since 1970 of a date. The part of a second is rounded, and the
sum is rounded again. -/
def derivedSeconds (t : ZonedTime) : Binary64 :=
  (Binary64.ofInt (wholeSeconds t)).add (.ofQuotient false (partMicros t) 1000000)

/-- Builds a stamp. NaN and negative seconds are replaced by those of the date;
without a date NaN becomes zero. -/
def ofParts (date : Option ZonedTime) (seconds : Binary64) : Stamp :=
  match date with
  | some t => ⟨some t, if seconds.isNaN || seconds.isNegative then derivedSeconds t else seconds⟩
  | none => ⟨none, seconds.orZero⟩

def ofOffered (date : Option DateReading) (seconds : Number) : Except StampError Stamp :=
  match date, seconds.toDouble? with
  | some (.zoneless _), _ => .error .zoneless
  | _, none => .error .outOfRange
  | some (.zoned t), some x => .ok (ofParts (some t) x)
  | none, some x => .ok (ofParts none x)

def hasDate (s : Stamp) : Bool :=
  s.date.isSome

def hasSeconds (s : Stamp) : Bool :=
  !(s.seconds.numEq noSeconds || s.seconds.isNaN)

/-- The milliseconds since 1970 of the date, and `-1` without one. -/
def epochMillis (s : Stamp) : Binary64 :=
  match s.date with
  | some t =>
    ((Binary64.ofInt (wholeSeconds t)).scaleUp 1000).add (.ofQuotient false (partMicros t) 1000)
  | none => .ofInt (-1)

end Stamp
end HeapChronicle
