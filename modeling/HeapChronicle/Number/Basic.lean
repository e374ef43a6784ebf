import HeapChronicle.Binary64.Basic

/-!
Numbers as they are given: integers of any size, or doubles. The two kinds
compare by their exact values; only arithmetic turns an integer into a double.
-/

namespace HeapChronicle

inductive Number where
  | whole (n : Int)
  | double (x : Binary64)
  deriving DecidableEq

namespace Binary64

/-- `x < n` for the exact values. -/
def ltInt (x : Binary64) (n : Int) : Bool :=
  match x with
  | nan => false
  | infinite negative => negative
  | finite negative m => signed negative m.units < n * (Magnitude.one : Int)

def gtInt (x : Binary64) (n : Int) : Bool :=
  match x with
  | nan => false
  | infinite negative => !negative
  | finite negative m => n * (Magnitude.one : Int) < signed negative m.units

def eqInt (x : Binary64) (n : Int) : Bool :=
  match x with
  | finite negative m => signed negative m.units == n * (Magnitude.one : Int)
  | _ => false

end Binary64

namespace Number

/-- The nearest double; none for an integer that would become infinite. -/
def toDouble? : Number → Option Binary64
  | whole n => if (Binary64.ofInt n).isFinite then some (Binary64.ofInt n) else none
  | double x => some x

def neg : Number → Number
  | whole n => whole (-n)
  | double x => double x.neg

def orZero : Number → Number
  | whole n => whole n
  | double x => double x.orZero

/-- Numeric equality, across the two kinds. -/
def numEq : Number → Number → Bool
  | whole m, whole n => m == n
  | whole m, double y => y.eqInt m
  | double x, whole n => x.eqInt n
  | double x, double y => x.numEq y

end Number

namespace Binary64

/-- `x < n` for a number of either kind. -/
def ltNumber (x : Binary64) : Number → Bool
  | .whole n => x.ltInt n
  | .double y => x.lt y

def gtNumber (x : Binary64) : Number → Bool
  | .whole n => x.gtInt n
  | .double y => y.lt x

end Binary64

end HeapChronicle
