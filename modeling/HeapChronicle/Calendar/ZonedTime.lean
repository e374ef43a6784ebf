import HeapChronicle.Calendar.LocalTime

/-!
Wall-clock times with an offset from UTC. They are compared by the instant they
stand for, whatever their offsets; moving one keeps its offset.
-/

namespace HeapChronicle

/-- A local time and its offset from UTC, a fixed number of whole seconds that is
less than a day either way. Zones whose offset changes with the date and offsets
with a part of a second are not modelled. -/
structure ZonedTime where
  wall : LocalTime
  offset : Int
  offset_gt : -86400 < offset
  offset_lt : offset < 86400
  deriving DecidableEq

namespace ZonedTime

/-- 1 January 1970, in microseconds since the year 1 began. -/
def epoch : Int := 719162 * 86400 * 1000000

/-- Microseconds from 1970-01-01T00:00:00Z. -/
def instant (t : ZonedTime) : Int :=
  t.wall.micros - t.offset * 1000000 - epoch

def ofWall? (wall : LocalTime) (offset : Int) : Option ZonedTime :=
  if h : -86400 < offset ∧ offset < 86400 then some ⟨wall, offset, h.1, h.2⟩ else none

def compare (s t : ZonedTime) : Ordering :=
  Ord.compare s.instant t.instant

/-- Moved by microseconds in the same offset. None when the local time leaves
the years 1 to 9999. -/
def shift? (t : ZonedTime) (micros : Int) : Option ZonedTime :=
  (t.wall.shift? micros).map fun wall => { t with wall }

end ZonedTime

/-- A date as it is offered from outside, with an offset or without one. -/
inductive DateReading where
  | zoned (t : ZonedTime)
  | zoneless (t : LocalTime)

end HeapChronicle
