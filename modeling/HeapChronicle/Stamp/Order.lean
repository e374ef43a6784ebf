import HeapChronicle.Stamp.Basic

/-!
Two orders on stamps. `compare` sorts: dated stamps first, then by seconds, then
by date, and no stamp at all comes last. `isAfter` asks the dates first, and the
seconds only when the dates do not decide.
-/

namespace HeapChronicle

/-- Dates in order of their instants, and a missing date after all others. -/
def compareDates : Option ZonedTime → Option ZonedTime → Ordering
  | some s, some t => s.compare t
  | some _, none => .lt
  | none, some _ => .gt
  | none, none => .eq

namespace Stamp

/-- The order in which stamps are sorted. Seconds that are not equal and not
less count as greater. -/
def compare (s t : Stamp) : Ordering :=
  if s.hasDate != t.hasDate then
    if s.hasDate then .lt else .gt
  else if s.seconds.numEq t.seconds then compareDates s.date t.date
  else if s.seconds.lt t.seconds then .lt
  else .gt

/-- Stamps in order, and no stamp after all stamps. -/
def compare? : Option Stamp → Option Stamp → Ordering
  | some s, some t => s.compare t
  | some _, none => .lt
  | none, some _ => .gt
  | none, none => .eq

def lt (s t : Stamp) : Bool :=
  s.compare t == .lt

def le (s t : Stamp) : Bool :=
  s.compare t != .gt

def gt (s t : Stamp) : Bool :=
  s.compare t == .gt

def ge (s t : Stamp) : Bool :=
  s.compare t != .lt

/-- Equal stamps have equal seconds, and dates of the same instant or none. -/
def same (s t : Stamp) : Bool :=
  compareDates s.date t.date == .eq && s.seconds.numEq t.seconds

def same? : Option Stamp → Option Stamp → Bool
  | some s, some t => s.same t
  | none, none => true
  | _, _ => false

def isEmpty (s : Stamp) : Bool :=
  s.same empty

/-- Whether a stamp comes after another. Dates that differ decide; otherwise
the seconds do, those of the other stamp counting as zero if they are NaN. -/
def isAfter (s t : Stamp) : Bool :=
  match s.date, t.date with
  | some a, some b =>
    match a.compare b with
    | .gt => true
    | .lt => false
    | .eq => t.seconds.orZero.lt s.seconds
  | _, _ => t.seconds.orZero.lt s.seconds

/-- Whether a stamp does not come after another, so that equal stamps are
before each other. -/
def isBefore (s t : Stamp) : Bool :=
  !s.isAfter t

/-- Whether a stamp has more than so many seconds. None if the number is too
large for a double. -/
def isAfterSeconds? (s : Stamp) (x : Number) : Option Bool :=
  x.toDouble?.map fun _ => s.seconds.gtNumber x.orZero

/-- Whether a stamp has less than so many seconds. None if the number is too
large for a double. -/
def isBeforeSeconds? (s : Stamp) (x : Number) : Option Bool :=
  x.toDouble?.map fun _ => s.seconds.ltNumber x.orZero

def compareDate (s : Stamp) (date : Option DateReading) : Except StampError Ordering :=
  match s.date, date with
  | some _, some (.zoneless _) => .error .zonelessComparison
  | none, some (.zoneless _) => .ok .gt
  | a, some (.zoned t) => .ok (compareDates a (some t))
  | a, none => .ok (compareDates a none)

/-- Stamps in the sorting order, equal ones as they stood. It is meant for stamps
without NaN: NaN seconds compare as greater both ways around, so the result with
them depends on which pairs a sort compares. -/
def sort (stamps : List (Option Stamp)) : List (Option Stamp) :=
  stamps.mergeSort fun s t => compare? t s != .lt

/-- The first of each group of equal stamps. -/
def distinct (stamps : List (Option Stamp)) : List (Option Stamp) :=
  stamps.eraseDupsBy same?

end Stamp
end HeapChronicle
