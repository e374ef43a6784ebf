/-!
Decimal digits of natural numbers, most significant first. A number read back
from its digits is itself (`ofDigits_digits`), and a number below `10 ^ width`
is read back from its last `width` digits (`ofDigits_padded`).
-/

namespace HeapChronicle.Decimal

/-- The digits of a number without leading zeros; zero has one digit. -/
def digits (n : Nat) : List Nat :=
  if n < 10 then [n] else digits (n / 10) ++ [n % 10]

/-- The last `width` digits of a number, with leading zeros. -/
def padded : Nat → Nat → List Nat
  | 0, _ => []
  | width + 1, n => padded width (n / 10) ++ [n % 10]

def ofDigits (ds : List Nat) : Nat :=
  ds.foldl (fun n d => 10 * n + d) 0

def digitChar (d : Nat) : Char :=
  Char.ofNat (48 + d)

def text (n : Nat) : List Char :=
  (digits n).map digitChar

def paddedText (width n : Nat) : List Char :=
  (padded width n).map digitChar

@[simp] theorem ofDigits_nil : ofDigits [] = 0 := rfl

@[simp] theorem ofDigits_append_singleton (ds : List Nat) (d : Nat) :
    ofDigits (ds ++ [d]) = 10 * ofDigits ds + d := by
  simp [ofDigits]

theorem ofDigits_digits (n : Nat) : ofDigits (digits n) = n := by
  fun_induction digits n with
  | case1 n h => simp [ofDigits]
  | case2 n h ih =>
    rw [ofDigits_append_singleton, ih]
    omega

theorem length_padded (width n : Nat) : (padded width n).length = width := by
  induction width generalizing n with
  | zero => rfl
  | succ width ih => simp [padded, ih]

theorem ofDigits_padded (width n : Nat) :
    ofDigits (padded width n) = n % Nat.pow 10 width := by
  induction width generalizing n with
  | zero => simp [padded, Nat.mod_one]
  | succ width ih =>
    rw [padded, ofDigits_append_singleton, ih, Nat.pow_eq, Nat.pow_eq, Nat.pow_succ,
      Nat.mul_comm (10 ^ width), Nat.mod_mul]
    omega

end HeapChronicle.Decimal
