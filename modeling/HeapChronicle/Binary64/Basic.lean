import HeapChronicle.Binary64.Rounding

/-!
Double precision numbers as exact data. A finite double is a sign and a
magnitude on the grid, so two doubles are equal as data when they have the same
bits (all NaNs count as one). Comparison is exact, and each operation rounds
once, to nearest with ties to even.
-/

namespace HeapChronicle

inductive Binary64 where
  | nan
  | infinite (negative : Bool)
  | finite (negative : Bool) (magnitude : Magnitude)
  deriving DecidableEq

def signed (negative : Bool) (count : Nat) : Int :=
  if negative then -count else count

namespace Binary64

def zero : Binary64 := .finite false .zero

instance : Inhabited Binary64 := ⟨zero⟩

def isNaN : Binary64 → Bool
  | nan => true
  | _ => false

def isFinite : Binary64 → Bool
  | finite .. => true
  | _ => false

/-- The place of a number in the order of the doubles: its value in units, with
the infinities one past the largest finite values. NaN has no place. -/
def rank? : Binary64 → Option Int
  | nan => none
  | infinite negative => some (signed negative Magnitude.limit)
  | finite negative m => some (signed negative m.units)

/-- `x < y`. NaN is less than nothing, and nothing is less than NaN. -/
def lt (x y : Binary64) : Bool :=
  match x.rank?, y.rank? with
  | some a, some b => a < b
  | _, _ => false

/-- Numeric equality: the two zeros are equal, NaN equals nothing. -/
def numEq (x y : Binary64) : Bool :=
  match x.rank?, y.rank? with
  | some a, some b => a == b
  | _, _ => false

/-- Rounds `num / den` units to a double of the given sign. -/
def ofUnits (negative : Bool) (num den : Nat) : Binary64 :=
  match Magnitude.ofFraction? num den with
  | some m => .finite negative m
  | none => .infinite negative

def ofQuotient (negative : Bool) (num den : Nat) : Binary64 :=
  ofUnits negative (num * Magnitude.one) den

/-- Rounds an integer. Large integers become infinite. -/
def ofInt (n : Int) : Binary64 :=
  ofQuotient (n < 0) n.natAbs 1

def neg : Binary64 → Binary64
  | nan => nan
  | infinite s => infinite !s
  | finite s m => finite (!s) m

/-- The rounded sum. An exact sum of zero is negative only when both terms
are. -/
def add : Binary64 → Binary64 → Binary64
  | nan, _ => nan
  | _, nan => nan
  | infinite s, infinite t => if s = t then infinite s else nan
  | infinite s, finite _ _ => infinite s
  | finite _ _, infinite t => infinite t
  | finite s a, finite t b =>
    let sum := signed s a.units + signed t b.units
    if sum = 0 then finite (s && t) .zero
    else ofUnits (sum < 0) sum.natAbs 1

def sub (x y : Binary64) : Binary64 :=
  x.add y.neg

/-- The rounded product with a positive whole number that is itself a double. -/
def scaleUp (x : Binary64) (factor : Nat) : Binary64 :=
  match x with
  | nan => nan
  | infinite s => infinite s
  | finite s m => ofUnits s (m.units * factor) 1

/-- The rounded quotient by a positive whole number that is itself a double. -/
def scaleDown (x : Binary64) (divisor : Nat) : Binary64 :=
  match x with
  | nan => nan
  | infinite s => infinite s
  | finite s m => ofUnits s m.units divisor

/-- NaN counts as zero. -/
def orZero : Binary64 → Binary64
  | nan => zero
  | x => x

def isNegative (x : Binary64) : Bool :=
  x.lt zero

end Binary64

end HeapChronicle
