import HeapChronicle.Decimal.Basic

/-!
The shortest decimal of a double: the one with the fewest digits that rounds
back to it, and among those the nearest, a tie going to the even last digit.
Only the two neighbours of the value on each decimal grid are tried, since a
grid that has any number which rounds back has a neighbour which does.
-/

namespace HeapChronicle.Decimal

def readsBack (units : Nat) (d : Decimal) : Bool :=
  Magnitude.nearest (d.numerator * Magnitude.one) d.denominator == units

/-- The power of ten of the leading digit of a magnitude above zero. Scaled by
`10 ^ 324`, even the least double has a digit before the point. -/
def leadingExponent (units : Nat) : Int :=
  (digits (units * Nat.pow 10 324 / Magnitude.one)).length - 325

/-- The two neighbours of a magnitude among the multiples of
`10 ^ exponent`, the nearer one first. -/
def neighbours (units : Nat) (exponent : Int) : List Decimal :=
  let num := units * Nat.pow 10 (-exponent).toNat
  let den := Magnitude.one * Nat.pow 10 exponent.toNat
  let below := num / den
  let near := roundDiv num den
  let far := if near = below then below + 1 else below
  [⟨near, exponent⟩, ⟨far, exponent⟩]

/-- The nearer neighbour on a grid, if it reads back, else the other one. -/
def onGrid? (units : Nat) (exponent : Int) : Option Decimal :=
  (neighbours units exponent).find? (readsBack units)

/-- The first of ever finer grids that has something to give, or `finest` when
none of them does. -/
def firstGrid (onGrid? : Int → Option Decimal) (finest : Decimal) : Nat → Int → Decimal
  | 0, _ => finest
  | finer + 1, exponent =>
    match onGrid? exponent with
    | some d => d
    | none => firstGrid onGrid? finest finer (exponent - 1)

/-- The value itself, on the grid of the units. -/
def finest (units : Nat) : Decimal :=
  ⟨units * Nat.pow 5 1074, -1074⟩

/-- The shortest decimal that rounds to `units` units. -/
def shortest (units : Nat) : Decimal :=
  if units = 0 then ⟨0, 0⟩
  else
    let lead := leadingExponent units
    (firstGrid (onGrid? units) (finest units) (lead + 1074).toNat lead).stripZeros

end HeapChronicle.Decimal
