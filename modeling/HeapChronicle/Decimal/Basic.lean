import HeapChronicle.Binary64.Basic
import HeapChronicle.Decimal.Digits

/-!
Decimal numbers `coefficient * 10 ^ exponent` and the double nearest to one.
-/

namespace HeapChronicle

structure Decimal where
  coefficient : Nat
  exponent : Int
  deriving DecidableEq

namespace Decimal

/-- With `denominator`, the value as a fraction of natural numbers. -/
def numerator (d : Decimal) : Nat :=
  d.coefficient * Nat.pow 10 d.exponent.toNat

def denominator (d : Decimal) : Nat :=
  Nat.pow 10 (-d.exponent).toNat

/-- The decimal with the digits `whole`, a point, and the digits `part`. -/
def ofParts (whole part : List Nat) : Decimal :=
  ⟨ofDigits (whole ++ part), -part.length⟩

def stripZeros (d : Decimal) : Decimal :=
  if d.coefficient % 10 = 0 ∧ 0 < d.coefficient then
    stripZeros ⟨d.coefficient / 10, d.exponent + 1⟩
  else d
termination_by d.coefficient
decreasing_by exact Nat.div_lt_self (by omega) (by omega)

end Decimal

def Binary64.ofDecimal (negative : Bool) (d : Decimal) : Binary64 :=
  ofQuotient negative d.numerator d.denominator

end HeapChronicle
