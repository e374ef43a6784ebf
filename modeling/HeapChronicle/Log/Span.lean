import HeapChronicle.Stamp.Shift

/-!
The time that a log spans. When every stamp has a date it is measured between
the earliest and the latest instant, else between the least and the greatest
seconds.
-/

namespace HeapChronicle.Log

/-- The greatest number; of equal ones the first. A number that is not greater,
such as NaN, never takes the place of an earlier one. -/
def greatest (first : Binary64) (rest : List Binary64) : Binary64 :=
  rest.foldl (fun best x => if best.lt x then x else best) first

/-- The least number, chosen like the greatest. -/
def least (first : Binary64) (rest : List Binary64) : Binary64 :=
  rest.foldl (fun best x => if x.lt best then x else best) first

def instantSpan (first : Int) (rest : List Int) : Binary64 :=
  .ofQuotient false (rest.foldl max first - rest.foldl min first).toNat 1000000

def secondsSpan (first : Binary64) (rest : List Binary64) : Binary64 :=
  (greatest first rest).sub (least first rest)

/-- The seconds between the earliest and the latest stamp; zero for fewer than
two. -/
def span : List Stamp → Binary64
  | [] | [_] => .zero
  | first :: rest =>
    match first.date, rest.mapM Stamp.date with
    | some t, some ts => instantSpan t.instant (ts.map ZonedTime.instant)
    | _, _ => secondsSpan first.seconds (rest.map Stamp.seconds)

end HeapChronicle.Log
