import HeapChronicle.Proofs.Number.Units

/-!
Seconds as microseconds. The whole seconds count exactly, and the rest is rounded
twice: scaled as a double, and then to a whole count. Neither rounding reaches past
the next second, so more seconds never have fewer microseconds (`micros_mono`),
and together they are off by little more than half a microsecond
(`micros_error`).
-/

namespace HeapChronicle

namespace Magnitude

/-- The microseconds in a count of units of a second. -/
def micros (units : Nat) : Nat :=
  units / one * 1000000 + roundDiv (nearest (units % one * 1000000) 1) one

theorem rest_lt (units : Nat) : units % one * 1000000 < 1000000 * one := by
  rw [Nat.mul_comm 1000000]
  exact Nat.mul_lt_mul_of_pos_right (Nat.mod_lt units one_pos) (by decide)

/-- The part of a second is rounded to a second at most. -/
theorem roundDiv_rest_le (units : Nat) :
    roundDiv (nearest (units % one * 1000000) 1) one ≤ 1000000 := by
  have hscaled : nearest (units % one * 1000000) 1 ≤ 1000000 * one := by
    calc nearest (units % one * 1000000) 1
        ≤ nearest (1000000 * one * 1) 1 := by
          apply nearest_mono Nat.one_pos Nat.one_pos
          rw [Nat.mul_one, Nat.mul_one, Nat.mul_one]
          exact (rest_lt units).le
      _ = 1000000 * one := nearest_exact Nat.one_pos (mul_one_onGrid (by decide))
  calc roundDiv (nearest (units % one * 1000000) 1) one
      ≤ roundDiv (1000000 * one) one :=
        roundDiv_mono one_pos one_pos (Nat.mul_le_mul_right one hscaled)
    _ = 1000000 := roundDiv_exact one_pos

theorem micros_mono {a b : Nat} (h : a ≤ b) : micros a ≤ micros b := by
  have hwhole : a / one ≤ b / one := Nat.div_le_div_right h
  rcases Nat.lt_or_eq_of_le hwhole with hless | hsame
  · -- What the part of a second comes to does not make up for the next second.
    have hrest := roundDiv_rest_le a
    have hnext : (a / one + 1) * 1000000 ≤ b / one * 1000000 := Nat.mul_le_mul_right _ hless
    unfold micros
    omega
  · have hparts : a % one ≤ b % one := by
      have ha := Nat.div_add_mod a one
      have hb := Nat.div_add_mod b one
      rw [hsame] at ha
      omega
    have hscaled : nearest (a % one * 1000000) 1 ≤ nearest (b % one * 1000000) 1 := by
      apply nearest_mono Nat.one_pos Nat.one_pos
      exact Nat.mul_le_mul_right 1 (Nat.mul_le_mul_right _ hparts)
    unfold micros
    rw [hsame]
    apply Nat.add_le_add_left
    exact roundDiv_mono one_pos one_pos (Nat.mul_le_mul_right one hscaled)

/-- Whole seconds are not rounded. -/
theorem micros_mul_one (seconds : Nat) : micros (seconds * one) = seconds * 1000000 := by
  rw [micros, Nat.mul_div_cancel seconds one_pos, Nat.mul_mod_left, Nat.zero_mul, nearest_zero,
    roundDiv_zero one_pos, Nat.add_zero]

/-- Scaled, the part of a second is off by at most `2 ^ -34` of a microsecond, and the
whole count by a half more. -/
theorem micros_error (units : Nat) :
    |2 ^ 34 * ((micros units : Int) * one - 1000000 * units)| ≤ (2 ^ 33 + 1) * (one : Int) := by
  have hrange : units % one * 1000000 < 2 ^ 20 * one :=
    (rest_lt units).trans (Nat.mul_lt_mul_of_pos_right (by decide) one_pos)
  have hspacing : spacing (units % one * 1000000) * 2 ^ 33 ≤ one :=
    spacing_mul_le_one hrange rfl
  obtain ⟨hscaleAbove, hscaleBelow⟩ :=
    nearest_error (units % one * 1000000) Nat.one_pos
  rw [Nat.div_one, Nat.mul_one, Nat.mul_one] at hscaleAbove hscaleBelow
  obtain ⟨hcountAbove, hcountBelow⟩ :=
    roundDiv_error (nearest (units % one * 1000000) 1) one_pos
  have hunits : units = units / one * one + units % one := (Nat.div_add_mod' units one).symm
  have hmicros : micros units * one = 1000000 * (units / one * one) +
      roundDiv (nearest (units % one * 1000000) 1) one * one := by
    rw [micros]
    ring
  zify at hunits hmicros hspacing hscaleAbove hscaleBelow hcountAbove hcountBelow
  rw [abs_le]
  constructor
  · linarith
  · linarith

end Magnitude

end HeapChronicle
