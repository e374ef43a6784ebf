import HeapChronicle.Decimal.Basic

/-!
How a decimal is written: with all its places, or with a power of ten, or
rounded to a fixed number of places.
-/

namespace HeapChronicle.Decimal

/-- Where the positional form ends, and how wide exponents are. -/
structure Layout where
  /-- The least power of ten of a leading digit that is written positionally. -/
  positionalFrom : Int
  /-- The first power of ten beyond the positional range. -/
  positionalBelow : Int
  /-- Exponents have at least this many digits. -/
  exponentWidth : Nat

/-- All places, with one zero after the point of a whole number. -/
def positional (ds : List Char) (exponent : Int) : List Char :=
  if 0 ≤ exponent then ds ++ List.replicate exponent.toNat '0' ++ ['.', '0']
  else
    let places := (-exponent).toNat
    if places < ds.length then
      ds.take (ds.length - places) ++ '.' :: ds.drop (ds.length - places)
    else '0' :: '.' :: List.replicate (places - ds.length) '0' ++ ds

/-- One digit, the others after a point, and the power of ten. -/
def scientific (width : Nat) (ds : List Char) (lead : Int) : List Char :=
  let power := text lead.natAbs
  let mantissa := match ds with
    | d :: e :: rest => d :: '.' :: e :: rest
    | _ => ds
  mantissa ++ 'e' :: (if lead < 0 then '-' else '+') ::
    (List.replicate (width - power.length) '0' ++ power)

def Layout.write (layout : Layout) (d : Decimal) : List Char :=
  let ds := text d.coefficient
  let lead := d.exponent + ds.length - 1
  if layout.positionalFrom ≤ lead ∧ lead < layout.positionalBelow then
    positional ds d.exponent
  else scientific layout.exponentWidth ds lead

/-- The value `num / den` rounded to a number of places, ties to even. -/
def fixed (places num den : Nat) : List Char :=
  let count := roundDiv (num * Nat.pow 10 places) den
  text (count / Nat.pow 10 places) ++ '.' :: paddedText places (count % Nat.pow 10 places)

end HeapChronicle.Decimal
