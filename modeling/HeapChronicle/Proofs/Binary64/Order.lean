import HeapChronicle.Binary64.Basic

/-!
The order of the doubles, read from their ranks. Only NaN has no rank; of the
other numbers `lt` and `numEq` compare the ranks, so both inherit the laws of
the integers. The two zeros share a rank.
-/

namespace HeapChronicle.Binary64

/-- The rank of a number that is not NaN. -/
def rank (x : Binary64) : Int :=
  x.rank?.getD 0

theorem rank?_eq_some_rank {x : Binary64} (hx : x.isNaN = false) :
    x.rank? = some x.rank := by
  cases x with
  | nan => cases hx
  | infinite negative => rfl
  | finite negative m => rfl

theorem lt_iff_rank_lt {x y : Binary64} (hx : x.isNaN = false) (hy : y.isNaN = false) :
    x.lt y = true ↔ x.rank < y.rank := by
  simp only [lt, rank?_eq_some_rank hx, rank?_eq_some_rank hy, decide_eq_true_eq]

theorem numEq_iff_rank_eq {x y : Binary64} (hx : x.isNaN = false) (hy : y.isNaN = false) :
    x.numEq y = true ↔ x.rank = y.rank := by
  simp only [numEq, rank?_eq_some_rank hx, rank?_eq_some_rank hy, beq_iff_eq]

theorem lt_eq_false_of_rank_eq {x y : Binary64} (hx : x.isNaN = false) (hy : y.isNaN = false)
    (h : x.rank = y.rank) : x.lt y = false := by
  rw [Bool.eq_false_iff, Ne, lt_iff_rank_lt hx hy, h]
  exact Int.lt_irrefl _

theorem lt_or_numEq_iff_rank_le {x y : Binary64} (hx : x.isNaN = false) (hy : y.isNaN = false) :
    x.lt y = true ∨ x.numEq y = true ↔ x.rank ≤ y.rank := by
  rw [lt_iff_rank_lt hx hy, numEq_iff_rank_eq hx hy]
  exact Int.le_iff_lt_or_eq.symm

/-- Numerically less or equal. NaN is at most nothing, and nothing is at most NaN. -/
def AtMost (x y : Binary64) : Prop :=
  x.lt y = true ∨ x.numEq y = true

theorem atMost_iff_rank_le {x y : Binary64} (hx : x.isNaN = false) (hy : y.isNaN = false) :
    x.AtMost y ↔ x.rank ≤ y.rank :=
  lt_or_numEq_iff_rank_le hx hy

/-- Rounding gives a number. -/
theorem isNaN_ofUnits {negative : Bool} {num den : Nat} :
    (ofUnits negative num den).isNaN = false := by
  unfold ofUnits
  cases Magnitude.ofFraction? num den with
  | none => rfl
  | some m => rfl

theorem rank_ofUnits_nonneg {num den : Nat} : 0 ≤ (ofUnits false num den).rank := by
  unfold ofUnits
  cases Magnitude.ofFraction? num den with
  | none => exact Int.natCast_nonneg _
  | some m => exact Int.natCast_nonneg _

theorem isNaN_ofInt {n : Int} : (ofInt n).isNaN = false := by
  rw [ofInt, ofQuotient]
  exact isNaN_ofUnits

theorem isNaN_orZero (x : Binary64) : x.orZero.isNaN = false := by
  cases x with
  | nan => rfl
  | infinite negative => rfl
  | finite negative m => rfl

theorem orZero_of_isNaN {x : Binary64} (hx : x.isNaN = false) : x.orZero = x := by
  cases x with
  | nan => cases hx
  | infinite negative => rfl
  | finite negative m => rfl

theorem rank_orZero (x : Binary64) : x.orZero.rank = x.rank := by
  cases x with
  | nan => rfl
  | infinite negative => rfl
  | finite negative m => rfl

theorem isNegative_iff_rank_neg {x : Binary64} (hx : x.isNaN = false) :
    x.isNegative = true ↔ x.rank < 0 := by
  have hzero : zero.rank = 0 := rfl
  rw [isNegative, lt_iff_rank_lt hx rfl, hzero]

end HeapChronicle.Binary64
