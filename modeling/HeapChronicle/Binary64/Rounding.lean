/-!
Rounding a fraction to the nearest double precision magnitude. Magnitudes are
counted in units of `2 ^ -1074`, the least positive double, so every finite
double is a whole count and doubles compare as their counts do. A count is on
the grid when at most 53 binary digits of it are in use; the grid is where
rounding lands (`nearest_onGrid`).
-/

namespace HeapChronicle

/-- The whole number nearest to `num / den`; a half goes to the even
neighbour. -/
def roundDiv (num den : Nat) : Nat :=
  let quotient := num / den
  let twice := 2 * (num % den)
  if twice < den then quotient
  else if den < twice then quotient + 1
  else quotient + quotient % 2

theorem roundDiv_le_succ (num den : Nat) : roundDiv num den ≤ num / den + 1 := by
  simp only [roundDiv]
  split
  · omega
  · split <;> omega

theorem div_le_roundDiv (num den : Nat) : num / den ≤ roundDiv num den := by
  simp only [roundDiv]
  split
  · omega
  · split <;> omega

namespace Magnitude

/-- The number one, in units. -/
def one : Nat := Nat.pow 2 1074

/-- The count at which magnitudes become infinite: `2 ^ 1024` in units. -/
def limit : Nat := Nat.pow 2 2098

/-- The distance between neighbouring doubles near a count of units, which
leaves 53 binary digits. -/
def spacing (units : Nat) : Nat := Nat.pow 2 (units.log2 - 52)

/-- The count on the grid nearest to `num / den` units, ties to the even
multiple of the spacing. -/
def nearest (num den : Nat) : Nat :=
  let step := spacing (num / den)
  step * roundDiv num (den * step)

theorem spacing_pos (units : Nat) : 0 < spacing units :=
  Nat.two_pow_pos _

/-- A count below a power of two has no more digits than that. -/
theorem log2_le_of_lt {n k : Nat} (h : n < Nat.pow 2 (k + 1)) : n.log2 ≤ k := by
  by_cases hn : n = 0
  · simp [hn]
  · exact Nat.lt_succ_iff.mp ((Nat.log2_lt hn).mpr h)

/-- Up to 53 binary digits followed by zeros are on the grid. -/
theorem spacing_dvd {significand : Nat} (h : significand ≤ Nat.pow 2 53) (shift : Nat) :
    spacing (Nat.pow 2 shift * significand) ∣ Nat.pow 2 shift * significand := by
  rw [Nat.pow_eq] at *
  rcases Nat.lt_or_eq_of_le h with hlt | rfl
  · have hlog : (2 ^ shift * significand).log2 ≤ shift + 52 := by
      apply log2_le_of_lt
      calc 2 ^ shift * significand
          < 2 ^ shift * 2 ^ 53 := Nat.mul_lt_mul_of_pos_left hlt (Nat.two_pow_pos _)
        _ = 2 ^ (shift + 52 + 1) := by rw [← Nat.pow_add]
    exact Nat.dvd_trans (Nat.pow_dvd_pow 2 (by omega)) (Nat.dvd_mul_right _ _)
  · rw [← Nat.pow_add]
    unfold spacing
    rw [Nat.log2_two_pow]
    exact Nat.pow_dvd_pow 2 (by omega)

/-- Cut to its spacing, a count has at most 53 binary digits. -/
theorem div_spacing_lt (units : Nat) : units / spacing units < Nat.pow 2 53 := by
  rw [Nat.div_lt_iff_lt_mul (spacing_pos units), spacing, Nat.pow_eq, Nat.pow_eq, ← Nat.pow_add]
  exact Nat.lt_of_lt_of_le Nat.lt_log2_self (Nat.pow_le_pow_right (by omega) (by omega))

theorem nearest_onGrid (num den : Nat) :
    spacing (nearest num den) ∣ nearest num den := by
  apply spacing_dvd
  have hle := roundDiv_le_succ num (den * spacing (num / den))
  have hlt := div_spacing_lt (num / den)
  rw [Nat.div_div_eq_div_mul] at hlt
  omega

end Magnitude

/-- The magnitude of a finite double: a count of units on the grid. -/
structure Magnitude where
  units : Nat
  lt_limit : units < Magnitude.limit
  onGrid : Magnitude.spacing units ∣ units
  deriving DecidableEq

namespace Magnitude

theorem limit_pos : 0 < limit := by
  unfold limit
  exact Nat.two_pow_pos 2098

def zero : Magnitude := ⟨0, limit_pos, Nat.dvd_zero _⟩

/-- Rounds `num / den` units, or gives none when the result would be
infinite. -/
def ofFraction? (num den : Nat) : Option Magnitude :=
  if h : nearest num den < limit then some ⟨nearest num den, h, nearest_onGrid num den⟩
  else none

end Magnitude

end HeapChronicle
