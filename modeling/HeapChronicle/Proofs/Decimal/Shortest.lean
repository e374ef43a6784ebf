import Mathlib
import HeapChronicle.Decimal.Shortest
import HeapChronicle.Proofs.Binary64.Rounding

/-!
The shortest decimal of a double rounds back to it (`shortest_readsBack`). Whether
a decimal rounds to a double depends on its value alone (`readsBack_congr`): so
leaving out trailing zeros keeps it, and on the finest grid the value itself
stands.
-/

namespace HeapChronicle

namespace Decimal

/-- The number that a decimal stands for. -/
def value (d : Decimal) : ℚ :=
  d.coefficient * 10 ^ d.exponent

theorem denominator_pos (d : Decimal) : 0 < d.denominator :=
  Nat.pow_pos (by decide)

theorem numerator_div_denominator (d : Decimal) : (d.numerator : ℚ) / d.denominator = d.value := by
  obtain ⟨coefficient, exponent⟩ := d
  cases exponent with
  | ofNat n => simp [numerator, denominator, value]
  | negSucc n => simp [numerator, denominator, value, zpow_negSucc, div_eq_mul_inv]

theorem readsBack_congr {d e : Decimal} (h : d.value = e.value) (units : Nat) :
    readsBack units d = readsBack units e := by
  have hcross : d.numerator * e.denominator = e.numerator * d.denominator := by
    rw [← numerator_div_denominator, ← numerator_div_denominator,
      div_eq_div_iff (by exact_mod_cast d.denominator_pos.ne')
        (by exact_mod_cast e.denominator_pos.ne')] at h
    exact_mod_cast h
  rw [readsBack, readsBack, Magnitude.nearest_congr d.denominator_pos e.denominator_pos]
  rw [Nat.mul_right_comm, hcross, Nat.mul_right_comm]

/-- A decimal that rounds back to a magnitude is read as the double. -/
theorem ofDecimal_of_readsBack {m : Magnitude} {d : Decimal} (h : readsBack m.units d = true)
    (negative : Bool) : Binary64.ofDecimal negative d = .finite negative m := by
  rw [readsBack, beq_iff_eq] at h
  rw [Binary64.ofDecimal, Binary64.ofQuotient, Binary64.ofUnits_of_nearest h]

/-- Zeros at the end of the coefficient can be moved into the exponent. -/
theorem value_shift (coefficient places : Nat) (exponent : Int) :
    value ⟨coefficient * 10 ^ places, exponent⟩ = value ⟨coefficient, exponent + places⟩ := by
  simp only [value, Nat.cast_mul, Nat.cast_pow, Nat.cast_ofNat]
  rw [zpow_add₀ (by norm_num), zpow_natCast]
  ring

theorem value_stripZeros (d : Decimal) : d.stripZeros.value = d.value := by
  fun_induction stripZeros d with
  | case1 d h ih =>
    rw [ih]
    have hcoefficient : d.coefficient = d.coefficient / 10 * 10 ^ 1 := by omega
    calc value ⟨d.coefficient / 10, d.exponent + 1⟩
        = value ⟨d.coefficient / 10 * 10 ^ 1, d.exponent⟩ := (value_shift _ 1 _).symm
      _ = value d := by rw [← hcoefficient]
  | case2 d h => rfl

/-- On the grid of halves to the power `places` a count of halves stands itself. -/
theorem nearest_halves {units : Nat} (hgrid : Magnitude.spacing units ∣ units) (places : Nat) :
    Magnitude.nearest (units * Nat.pow 5 places * Nat.pow 2 places) (Nat.pow 10 places) = units := by
  rw [Nat.mul_assoc, Nat.pow_eq, Nat.pow_eq, Nat.pow_eq, ← Nat.mul_pow]
  exact Magnitude.nearest_exact (Nat.pow_pos (by decide)) hgrid

theorem readsBack_finest (m : Magnitude) : readsBack m.units (finest m.units) = true := by
  have hup : (-1074 : Int).toNat = 0 := by decide
  have hdown : (-(-1074) : Int).toNat = 1074 := by decide
  have hone : Nat.pow 10 0 = 1 := rfl
  rw [finest, readsBack, beq_iff_eq, numerator, denominator, hup, hdown, hone, Nat.mul_one]
  unfold Magnitude.one
  generalize 1074 = places
  exact nearest_halves m.onGrid places

theorem firstGrid_induction {P : Decimal → Prop} {onGrid? : Int → Option Decimal}
    {finest : Decimal} (hgrid : ∀ exponent d, onGrid? exponent = some d → P d) (hfinest : P finest)
    (finer : Nat) (exponent : Int) : P (firstGrid onGrid? finest finer exponent) := by
  induction finer generalizing exponent with
  | zero => exact hfinest
  | succ finer ih =>
    rw [firstGrid]
    split
    next d hd => exact hgrid exponent d hd
    next => exact ih (exponent - 1)

/-- A coefficient of zero reads back as zero. -/
theorem readsBack_of_coefficient_eq_zero {d : Decimal} (h : d.coefficient = 0) (units : Nat) :
    readsBack units d = (0 == units) := by
  rw [readsBack, numerator, h, Nat.zero_mul, Nat.zero_mul, Magnitude.nearest_zero]

theorem shortest_readsBack (m : Magnitude) : readsBack m.units (shortest m.units) = true := by
  rw [shortest]
  split
  next hzero => rw [readsBack_of_coefficient_eq_zero rfl, hzero, beq_self_eq_true]
  next =>
    rw [readsBack_congr (value_stripZeros _)]
    exact firstGrid_induction (P := fun d => readsBack m.units d = true)
      (fun _ _ => List.find?_some) (readsBack_finest m) _ _

/-- Only zero is written with the coefficient zero, and with no power then. -/
theorem shortest_coefficient (m : Magnitude) :
    0 < (shortest m.units).coefficient ∨ shortest m.units = ⟨0, 0⟩ := by
  by_cases hzero : m.units = 0
  · rw [hzero, shortest, if_pos rfl]
    exact .inr rfl
  · refine .inl (Nat.pos_of_ne_zero fun hcoefficient => hzero ?_)
    have hreads := shortest_readsBack m
    rw [readsBack_of_coefficient_eq_zero hcoefficient, beq_iff_eq] at hreads
    exact hreads.symm

end Decimal
end HeapChronicle
