import HeapChronicle.Proofs.Binary64.Fraction
import HeapChronicle.Proofs.Binary64.Negation
import HeapChronicle.Proofs.Binary64.Sum

/-!
Differences of doubles. The difference of two finite doubles is the double nearest to
the difference of their ranks (`sub_eq_ofCount`). Only the sign of a zero is not decided
by the ranks, and a number less itself is the positive zero.
-/

namespace HeapChronicle.Binary64

variable {x y : Binary64}

theorem rank_neg (x : Binary64) : x.neg.rank = -x.rank := by
  cases x with
  | nan => rfl
  | infinite s => exact signed_not s Magnitude.limit
  | finite s m => exact signed_not s m.units

/-- Rounding looks at the difference of the ranks. -/
theorem sub_eq_ofCount (hx : x.isFinite = true) (hy : y.isFinite = true)
    (h : x.rank = y.rank → x = y) : x.sub y = ofCount 1 1 (x.rank - y.rank) := by
  cases x with
  | nan => cases hx
  | infinite s => cases hx
  | finite s a =>
    cases y with
    | nan => cases hy
    | infinite t => cases hy
    | finite t b =>
      have hsum : signed s a.units + signed (!t) b.units = signed s a.units - signed t b.units := by
        rw [signed_not]
        rfl
      simp only [sub, neg, add, rank_finite, hsum] at h ⊢
      split
      next hzero =>
        cases h (Int.sub_eq_zero.mp hzero)
        rw [hzero, ofCount_zero, Bool.and_not_self]
        rfl
      next => rw [ofCount, Nat.mul_one]

theorem isNaN_sub (hx : x.isFinite = true) (hy : y.isFinite = true) : (x.sub y).isNaN = false := by
  apply isNaN_add_of_isFinite hx
  exact isNaN_of_isFinite ((isFinite_neg y).trans hy)

theorem rank_sub (hx : x.isFinite = true) (hy : y.isFinite = true) :
    (x.sub y).rank = (ofCount 1 1 (x.rank - y.rank)).rank := by
  have hneg : y.neg.isFinite = true := (isFinite_neg y).trans hy
  rw [sub, rank_add hx hneg, rank_neg, ← Int.sub_eq_add_neg, roundRank, ofCount, Nat.mul_one]

end HeapChronicle.Binary64
