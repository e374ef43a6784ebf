import HeapChronicle.Stamp.Basic

/-!
Moving stamps by decimal seconds, and the distance between stamps. A date moves
by whole microseconds (`toMicros?`), the seconds by a rounded sum.
-/

namespace HeapChronicle

namespace Binary64

/-- A number of seconds in microseconds. Whole seconds count exactly; the rest
is scaled as a double, then rounded to the even neighbour on a tie. None for the
infinities. -/
def toMicros? : Binary64 → Option Int
  | nan => some 0
  | infinite _ => none
  | finite negative m =>
    let rest := Magnitude.nearest (m.units % Magnitude.one * 1000000) 1
    some (signed negative (m.units / Magnitude.one * 1000000 + roundDiv rest Magnitude.one))

end Binary64

/-- A step of a number of seconds, forward or back. -/
inductive Move where
  | forward (x : Number)
  | back (x : Number)

namespace Stamp

/-- A stamp moved by seconds, NaN counting as zero. None if the date would leave
the calendar. -/
def shift? (s : Stamp) (x : Binary64) : Option Stamp :=
  let seconds := s.seconds.add x.orZero
  match s.date with
  | none => some ⟨none, seconds⟩
  | some t => do
    let micros ← x.toMicros?
    let date ← t.shift? micros
    some ⟨some date, seconds⟩

/-- A stamp moved forward. None if the number is too large for a double, or the
date would leave the calendar. -/
def add? (s : Stamp) (x : Number) : Option Stamp :=
  x.toDouble?.bind s.shift?

def sub? (s : Stamp) (x : Number) : Option Stamp :=
  s.add? x.neg

def move? (s : Stamp) : Move → Option Stamp
  | .forward x => s.add? x
  | .back x => s.sub? x

/-- The stamp after a move, the same as before if the move cannot be made. -/
def move (s : Stamp) (m : Move) : Stamp :=
  (s.move? m).getD s

/-- What each of some moves in a row comes to. One that cannot be made leaves
the stamp as it was. -/
def trail (s : Stamp) : List Move → List (Option Stamp)
  | [] => []
  | m :: rest => s.move? m :: (s.move m).trail rest

def secondsSince (s t : Stamp) : Binary64 :=
  s.seconds.sub t.seconds

def minutesSince (s t : Stamp) : Binary64 :=
  (s.secondsSince t).scaleDown 60

end Stamp
end HeapChronicle
