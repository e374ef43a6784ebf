import Mathlib
import HeapChronicle.Proofs.Binary64.Order

/-!
Rounding to the doubles. What is on the grid stays (`nearest_exact`), the order is
never reversed (`nearest_mono`), and the result is within half the spacing of what
was rounded (`nearest_error`). For numbers of either sign this is read from their
ranks: a count of units is rounded to `roundRank`, which is monotone and takes the
counts past the largest double to the infinities.
-/

namespace HeapChronicle

theorem roundDiv_mul {num den k : Nat} (hk : 0 < k) :
    roundDiv (num * k) (den * k) = roundDiv num den := by
  have hlt (a b : Nat) : 2 * (a * k) < b * k ↔ 2 * a < b := by
    rw [← Nat.mul_assoc, Nat.mul_lt_mul_right hk]
  have hgt (a b : Nat) : b * k < 2 * (a * k) ↔ b < 2 * a := by
    rw [← Nat.mul_assoc, Nat.mul_lt_mul_right hk]
  simp only [roundDiv, Nat.mul_div_mul_right _ _ hk, Nat.mul_mod_mul_right, hlt, hgt]

theorem roundDiv_exact {count den : Nat} (hden : 0 < den) : roundDiv (count * den) den = count := by
  simp [roundDiv, Nat.mul_div_cancel count hden, hden]

theorem roundDiv_zero {den : Nat} (hden : 0 < den) : roundDiv 0 den = 0 := by
  simp [roundDiv, hden]

/-- Rounding goes past a count exactly from the midpoint behind it on, where an even
count keeps the midpoint to itself. -/
theorem lt_roundDiv_iff {num den k : Nat} (hden : 0 < den) :
    k < roundDiv num den ↔
      (2 * k + 1) * den < 2 * num ∨ (2 * k + 1) * den = 2 * num ∧ k % 2 = 1 := by
  have hsum : num = num / den * den + num % den := (Nat.div_add_mod' num den).symm
  have hrest : num % den < den := Nat.mod_lt num hden
  have hmidpoint : (2 * k + 1) * den = 2 * (k * den) + den := by ring
  rw [hmidpoint]
  simp only [roundDiv]
  rcases Nat.lt_trichotomy k (num / den) with hk | hk | hk
  · have hstep : k * den + den ≤ num / den * den := by
      rw [← Nat.succ_mul]
      exact Nat.mul_le_mul_right den hk
    split
    · omega
    · split <;> omega
  · rw [hk]
    split
    · omega
    · split <;> omega
  · have hstep : num / den * den + den ≤ k * den := by
      rw [← Nat.succ_mul]
      exact Nat.mul_le_mul_right den hk
    split
    · omega
    · split <;> omega

/-- A greater fraction is not rounded to less. -/
theorem roundDiv_mono {a b c d : Nat} (hb : 0 < b) (hd : 0 < d) (h : a * d ≤ c * b) :
    roundDiv a b ≤ roundDiv c d := by
  refine Nat.le_of_not_lt fun hlt => ?_
  generalize hk : roundDiv c d = k at hlt
  have hpast : ¬k < roundDiv c d := by omega
  rw [lt_roundDiv_iff hd, not_or, Nat.not_lt] at hpast
  rw [lt_roundDiv_iff hb] at hlt
  -- Brought to the denominator `b * d`, both midpoints are the same.
  have hleft : (2 * k + 1) * b * d ≤ 2 * a * d := by
    apply Nat.mul_le_mul_right
    omega
  have hright : 2 * c * b ≤ (2 * k + 1) * d * b := Nat.mul_le_mul_right b hpast.1
  have hmidpoint : (2 * k + 1) * b * d = (2 * k + 1) * d * b := Nat.mul_right_comm _ b d
  have ha : 2 * a * d = 2 * (a * d) := Nat.mul_assoc 2 a d
  have hc : 2 * c * b = 2 * (c * b) := Nat.mul_assoc 2 c b
  rcases hlt with hlt | ⟨-, hodd⟩
  · have hstrict : (2 * k + 1) * b * d < 2 * a * d := Nat.mul_lt_mul_of_pos_right hlt hd
    omega
  · have htie : (2 * k + 1) * d * b = 2 * c * b := by omega
    exact hpast.2 ⟨Nat.eq_of_mul_eq_mul_right hb htie, hodd⟩

/-- The whole number is at most a half away. -/
theorem roundDiv_error (num : Nat) {den : Nat} (hden : 0 < den) :
    2 * (roundDiv num den * den) ≤ 2 * num + den ∧
      2 * num ≤ 2 * (roundDiv num den * den) + den := by
  have hsum : num = num / den * den + num % den := (Nat.div_add_mod' num den).symm
  have hrest : num % den < den := Nat.mod_lt num hden
  have hsucc : (num / den + 1) * den = num / den * den + den := Nat.succ_mul _ _
  simp only [roundDiv]
  split
  · omega
  · split
    · omega
    · rcases Nat.mod_two_eq_zero_or_one (num / den) with heven | hodd
      · rw [heven, Nat.add_zero]
        omega
      · rw [hodd]
        omega

/-! ## To the grid -/

namespace Magnitude

theorem nearest_mul {num den k : Nat} (hk : 0 < k) : nearest (num * k) (den * k) = nearest num den := by
  simp only [nearest, Nat.mul_div_mul_right _ _ hk, Nat.mul_right_comm den k, roundDiv_mul hk]

/-- Equal fractions have the same nearest magnitude. -/
theorem nearest_congr {a b c d : Nat} (hb : 0 < b) (hd : 0 < d) (h : a * d = c * b) :
    nearest a b = nearest c d := by
  rw [← nearest_mul hd, h, Nat.mul_comm b d, nearest_mul hb]

/-- What is on the grid already is not rounded. -/
theorem nearest_exact {units den : Nat} (hden : 0 < den) (hgrid : spacing units ∣ units) :
    nearest (units * den) den = units := by
  obtain ⟨count, hcount⟩ := hgrid
  have hexact : units * den = count * (den * spacing units) := by
    rw [Nat.mul_left_comm, Nat.mul_comm count, ← hcount, Nat.mul_comm]
  rw [nearest, Nat.mul_div_cancel units hden, hexact,
    roundDiv_exact (Nat.mul_pos hden (spacing_pos units))]
  exact hcount.symm

theorem nearest_zero (den : Nat) : nearest 0 den = 0 := by
  simp [nearest, roundDiv]

/-- Rounding reaches at most the next power of two. -/
theorem nearest_le (num den : Nat) : nearest num den ≤ spacing (num / den) * 2 ^ 53 := by
  have hle := roundDiv_le_succ num (den * spacing (num / den))
  have hlt := div_spacing_lt (num / den)
  rw [Nat.div_div_eq_div_mul, Nat.pow_eq] at hlt
  exact Nat.mul_le_mul_left _ (by omega)

/-- Where some digits are lost, 53 of them are left. -/
theorem le_nearest {num den : Nat} (h : 1 < spacing (num / den)) :
    spacing (num / den) * 2 ^ 52 ≤ nearest num den := by
  have hlog : 52 < (num / den).log2 := by
    by_contra hshort
    have hone : (num / den).log2 - 52 = 0 := by omega
    rw [spacing, hone] at h
    exact Nat.lt_irrefl 1 h
  have hpos : num / den ≠ 0 := by
    intro hzero
    rw [hzero, Nat.log2_zero] at hlog
    omega
  have hpower : spacing (num / den) * 2 ^ 52 = 2 ^ (num / den).log2 := by
    rw [spacing, Nat.pow_eq, ← Nat.pow_add]
    congr 1
    omega
  apply Nat.mul_le_mul_left
  calc 2 ^ 52 ≤ num / den / spacing (num / den) := by
        rw [Nat.le_div_iff_mul_le (spacing_pos _), Nat.mul_comm, hpower]
        exact Nat.log2_self_le hpos
    _ = num / (den * spacing (num / den)) := Nat.div_div_eq_div_mul _ _ _
    _ ≤ roundDiv num (den * spacing (num / den)) := div_le_roundDiv _ _

theorem spacing_mono {a b : Nat} (h : a ≤ b) : spacing a ≤ spacing b := by
  have hlog : a.log2 ≤ b.log2 := by
    simp only [Nat.log2_eq_log_two]
    exact Nat.log_mono_right h
  exact Nat.pow_le_pow_right (by omega) (by omega)

/-- Spacings double at least where they differ. -/
theorem two_mul_spacing_le {a b : Nat} (h : spacing a < spacing b) :
    2 * spacing a ≤ spacing b := by
  have hexponent : a.log2 - 52 < b.log2 - 52 := (Nat.pow_lt_pow_iff_right (by decide)).mp h
  calc 2 * spacing a = 2 ^ (a.log2 - 52 + 1) := by
        rw [spacing, Nat.pow_eq, Nat.pow_succ, Nat.mul_comm]
    _ ≤ 2 ^ (b.log2 - 52) := Nat.pow_le_pow_right (by omega) hexponent
    _ = spacing b := rfl

/-- A greater fraction has no lesser nearest magnitude. -/
theorem nearest_mono {a b c d : Nat} (hb : 0 < b) (hd : 0 < d) (h : a * d ≤ c * b) :
    nearest a b ≤ nearest c d := by
  have hquotient : a / b ≤ c / d := by
    rw [Nat.le_div_iff_mul_le hd]
    refine Nat.le_of_mul_le_mul_right ?_ hb
    calc a / b * d * b = a / b * b * d := Nat.mul_right_comm _ d b
      _ ≤ a * d := Nat.mul_le_mul_right d (Nat.div_mul_le_self a b)
      _ ≤ c * b := h
  rcases Nat.lt_or_eq_of_le (spacing_mono hquotient) with hspacing | hspacing
  · have hpos := spacing_pos (a / b)
    calc nearest a b ≤ spacing (a / b) * 2 ^ 53 := nearest_le a b
      _ = 2 * spacing (a / b) * 2 ^ 52 := by ring
      _ ≤ spacing (c / d) * 2 ^ 52 := Nat.mul_le_mul_right _ (two_mul_spacing_le hspacing)
      _ ≤ nearest c d := le_nearest (by omega)
  · rw [nearest, nearest, hspacing]
    apply Nat.mul_le_mul_left
    apply roundDiv_mono (Nat.mul_pos hb (spacing_pos _)) (Nat.mul_pos hd (spacing_pos _))
    calc a * (d * spacing (c / d)) = a * d * spacing (c / d) := (Nat.mul_assoc _ _ _).symm
      _ ≤ c * b * spacing (c / d) := Nat.mul_le_mul_right _ h
      _ = c * (b * spacing (c / d)) := Nat.mul_assoc _ _ _

/-- The nearest magnitude is at most half the spacing away. -/
theorem nearest_error (num : Nat) {den : Nat} (hden : 0 < den) :
    2 * (nearest num den * den) ≤ 2 * num + spacing (num / den) * den ∧
      2 * num ≤ 2 * (nearest num den * den) + spacing (num / den) * den := by
  have herror := roundDiv_error num (Nat.mul_pos hden (spacing_pos (num / den)))
  have hscale : roundDiv num (den * spacing (num / den)) * (den * spacing (num / den)) =
      nearest num den * den := by
    rw [nearest]
    ring
  rwa [hscale, Nat.mul_comm den] at herror

theorem pow_lt_limit {k : Nat} (h : k < 2098) : 2 ^ k < limit := by
  unfold limit
  generalize 2098 = digits at *
  exact Nat.pow_lt_pow_right (by decide) h

theorem one_pos : 0 < one := by
  unfold one
  generalize 1074 = digits
  exact Nat.two_pow_pos digits

theorem pow_mul_one (k : Nat) : 2 ^ k * one = 2 ^ (k + 1074) := by
  unfold one
  generalize 1074 = digits
  exact (Nat.pow_add 2 k digits).symm

/-- Whole numbers of up to 53 binary digits are on the grid. -/
theorem mul_one_onGrid {n : Nat} (h : n ≤ 2 ^ 53) : spacing (n * one) ∣ n * one := by
  unfold one
  generalize 1074 = digits
  rw [Nat.mul_comm]
  exact spacing_dvd h digits

theorem mul_one_lt_limit {n : Nat} (h : n ≤ 2 ^ 53) : n * one < limit := by
  calc n * one ≤ 2 ^ 53 * one := Nat.mul_le_mul_right one h
    _ = 2 ^ (53 + 1074) := pow_mul_one 53
    _ < limit := pow_lt_limit (by decide)

/-- Below a power of two the spacing is a fraction of one. -/
theorem spacing_mul_le_one {units i j : Nat} (h : units < 2 ^ j * one) (hij : i + j = 53) :
    spacing units * 2 ^ i ≤ one := by
  have hlog : units.log2 ≤ j + 1073 := by
    rw [pow_mul_one] at h
    exact log2_le_of_lt h
  have hone : 2 ^ (j + 1021 + i) = one := by
    have hdigits : j + 1021 + i = 0 + 1074 := by omega
    rw [hdigits, ← pow_mul_one, Nat.pow_zero, Nat.one_mul]
  calc spacing units * 2 ^ i ≤ 2 ^ (j + 1021) * 2 ^ i := by
        apply Nat.mul_le_mul_right
        exact Nat.pow_le_pow_right (by omega) (by omega)
    _ = one := by rw [← Nat.pow_add, hone]

theorem spacing_le_pow {units k : Nat} (h : units < 2 ^ (k + 53)) : spacing units ≤ 2 ^ k := by
  have hlog : units.log2 ≤ k + 52 := log2_le_of_lt h
  exact Nat.pow_le_pow_right (by decide) (by omega)

theorem pow_le_spacing {units k : Nat} (h : 2 ^ (k + 52) ≤ units) : 2 ^ k ≤ spacing units := by
  have hlog : k + 52 ≤ units.log2 := by
    rw [← Nat.log2_two_pow (n := k + 52), Nat.log2_eq_log_two, Nat.log2_eq_log_two]
    exact Nat.log_mono_right h
  exact Nat.pow_le_pow_right (by decide) (by omega)

/-- Rounding reaches a power of two exactly from the midpoint before it on. -/
theorem pow_le_nearest_iff {num den k : Nat} (hden : 0 < den) :
    2 ^ (k + 54) ≤ nearest num den ↔ (2 ^ 54 - 1) * (2 ^ k * den) ≤ num := by
  have hscale (i : Nat) : 2 ^ (k + i) * den = 2 ^ i * (2 ^ k * den) := by
    rw [Nat.pow_add, Nat.mul_comm (2 ^ k), Nat.mul_assoc]
  have hunit : 0 < 2 ^ k * den := Nat.mul_pos (Nat.two_pow_pos k) hden
  rcases Nat.lt_or_ge (num / den) (2 ^ (k + 53)) with hsmall | hlarge
  · -- What is below the power before is not rounded past that one.
    have hnearest : nearest num den < 2 ^ (k + 54) := by
      calc nearest num den ≤ spacing (num / den) * 2 ^ 53 := nearest_le num den
        _ ≤ 2 ^ k * 2 ^ 53 := Nat.mul_le_mul_right _ (spacing_le_pow hsmall)
        _ = 2 ^ (k + 53) := (Nat.pow_add 2 k 53).symm
        _ < 2 ^ (k + 54) := Nat.pow_lt_pow_right (by decide) (by omega)
    rw [Nat.div_lt_iff_lt_mul hden, hscale] at hsmall
    omega
  · rcases Nat.lt_or_ge (num / den) (2 ^ (k + 54)) with hlast | hpast
    · have hspacing : spacing (num / den) = 2 ^ (k + 1) :=
        le_antisymm (spacing_le_pow hlast) (pow_le_spacing hlarge)
      have hcount : 2 ^ (k + 54) = 2 ^ (k + 1) * 2 ^ 53 := Nat.pow_add 2 (k + 1) 53
      have hmiddle : (2 * (2 ^ 53 - 1) + 1) * (den * 2 ^ (k + 1)) =
          2 * ((2 ^ 54 - 1) * (2 ^ k * den)) := by
        rw [Nat.mul_comm den, hscale]
        omega
      have hstep : 0 < den * 2 ^ (k + 1) := Nat.mul_pos hden (Nat.two_pow_pos (k + 1))
      have hreach := @lt_roundDiv_iff num _ (2 ^ 53 - 1) hstep
      rw [hmiddle] at hreach
      rw [nearest, hspacing, hcount, Nat.mul_le_mul_left_iff (Nat.two_pow_pos (k + 1))]
      omega
    · have hgrid : spacing (2 ^ (k + 54)) ∣ 2 ^ (k + 54) := by
        have honGrid := spacing_dvd Nat.one_le_two_pow (k + 54)
        rwa [Nat.mul_one] at honGrid
      have hnum : 2 ^ (k + 54) * den ≤ num := (Nat.le_div_iff_mul_le hden).mp hpast
      have hnearest : 2 ^ (k + 54) ≤ nearest num den := by
        calc 2 ^ (k + 54) = nearest (2 ^ (k + 54) * den) den := (nearest_exact hden hgrid).symm
          _ ≤ nearest num den := nearest_mono hden hden (Nat.mul_le_mul_right den hnum)
      rw [hscale] at hnum
      omega

theorem limit_eq_pow {digits : Nat} (h : digits = 2098) : limit = 2 ^ digits := by
  unfold limit
  rw [← h]
  rfl

/-- A fraction is rounded past the largest double exactly from the midpoint behind that
double on. -/
theorem limit_le_nearest_mul_iff {num den : Nat} (hden : 0 < den) :
    limit ≤ nearest (num * one) den ↔ (2 ^ 54 - 1) * 2 ^ 970 * den ≤ num := by
  have hdigits : 970 + 1074 + 54 = 2098 := rfl
  have hmiddle : (2 ^ 54 - 1) * (2 ^ (970 + 1074) * den) = (2 ^ 54 - 1) * 2 ^ 970 * den * one := by
    rw [← pow_mul_one, Nat.mul_right_comm, Nat.mul_assoc, Nat.mul_assoc, Nat.mul_assoc]
  rw [limit_eq_pow hdigits, pow_le_nearest_iff hden, hmiddle, Nat.mul_le_mul_right_iff one_pos]

theorem limit_le_nearest_iff {n : Nat} :
    limit ≤ nearest (n * one) 1 ↔ (2 ^ 54 - 1) * 2 ^ 970 ≤ n := by
  rw [limit_le_nearest_mul_iff Nat.one_pos, Nat.mul_one]

theorem ofFraction?_eq_some {num den : Nat} {m : Magnitude} (h : nearest num den = m.units) :
    ofFraction? num den = some m := by
  obtain ⟨units, hlt, hgrid⟩ := m
  subst h
  exact dif_pos hlt

end Magnitude

/-! ## To a double -/

theorem signed_false (count : Nat) : signed false count = count := rfl

theorem signed_true (count : Nat) : signed true count = -(count : Int) := rfl

theorem signed_zero (negative : Bool) : signed negative 0 = 0 := by
  cases negative with
  | false => rfl
  | true => rfl

theorem natAbs_signed (negative : Bool) (count : Nat) : (signed negative count).natAbs = count := by
  cases negative with
  | false => rfl
  | true => exact Int.natAbs_neg count

theorem signed_natAbs (n : Int) : signed (n < 0) n.natAbs = n := by
  rcases lt_or_ge n 0 with h | h
  · rw [decide_eq_true h, signed_true]
    omega
  · rw [decide_eq_false (Int.not_lt.mpr h), signed_false]
    omega

theorem signed_mul (negative : Bool) (a b : Nat) :
    signed negative (a * b) = signed negative a * b := by
  cases negative with
  | false => exact Nat.cast_mul a b
  | true => rw [signed_true, signed_true, Nat.cast_mul, Int.neg_mul]

theorem mul_count_neg_iff {n : Int} {count : Nat} (hcount : 0 < count) :
    n * (count : Int) < 0 ↔ n < 0 := by
  have hscale : n * (count : Int) < 0 * count ↔ n < 0 :=
    Int.mul_lt_mul_right (Int.natCast_pos.mpr hcount)
  rwa [Int.zero_mul] at hscale

/-- Signs put in front keep the order, provided that zero has one image. -/
theorem signed_le_signed {f : Nat → Nat} (hf : ∀ {a b}, a ≤ b → f a ≤ f b) (hzero : f 0 = 0)
    {s t : Bool} {a b : Nat} (h : signed s a ≤ signed t b) : signed s (f a) ≤ signed t (f b) := by
  cases s with
  | false =>
    cases t with
    | false => exact Int.ofNat_le.mpr (hf (Int.ofNat_le.mp h))
    | true =>
      rw [signed_false, signed_true] at h
      obtain rfl : a = 0 := by omega
      obtain rfl : b = 0 := by omega
      rw [hzero, signed_zero, signed_zero]
  | true =>
    cases t with
    | false =>
      rw [signed_true, signed_false]
      omega
    | true => exact Int.neg_le_neg (Int.ofNat_le.mpr (hf (Int.ofNat_le.mp (Int.neg_le_neg_iff.mp h))))

namespace Binary64

@[simp] theorem rank_finite (negative : Bool) (m : Magnitude) :
    (finite negative m).rank = signed negative m.units := rfl

@[simp] theorem rank_infinite (negative : Bool) :
    (infinite negative).rank = signed negative Magnitude.limit := rfl

theorem ofUnits_of_nearest {num den : Nat} {m : Magnitude}
    (h : Magnitude.nearest num den = m.units) (negative : Bool) :
    ofUnits negative num den = .finite negative m := by
  unfold ofUnits
  simp only [Magnitude.ofFraction?_eq_some h]

/-- Rounding below the limit gives a finite number. -/
theorem ofUnits_of_lt {num den : Nat} (h : Magnitude.nearest num den < Magnitude.limit)
    (negative : Bool) :
    ofUnits negative num den = .finite negative ⟨_, h, Magnitude.nearest_onGrid num den⟩ :=
  ofUnits_of_nearest rfl negative

/-- Rounding to the limit or past it gives an infinity. -/
theorem ofUnits_of_le {num den : Nat} (h : Magnitude.limit ≤ Magnitude.nearest num den)
    (negative : Bool) : ofUnits negative num den = .infinite negative := by
  unfold ofUnits
  rw [Magnitude.ofFraction?, dif_neg (Nat.not_lt.mpr h)]

theorem rank_ofUnits (negative : Bool) (num den : Nat) :
    (ofUnits negative num den).rank =
      signed negative (min (Magnitude.nearest num den) Magnitude.limit) := by
  rcases Nat.lt_or_ge (Magnitude.nearest num den) Magnitude.limit with h | h
  · rw [ofUnits_of_lt h, rank_finite, Nat.min_eq_left h.le]
  · rw [ofUnits_of_le h, rank_infinite, Nat.min_eq_right h]

/-- The rank to which a count of units is rounded. -/
def roundRank (units : Int) : Int :=
  (ofUnits (units < 0) units.natAbs 1).rank

/-- The count to which a magnitude is rounded, that of the infinities included. -/
def roundUnits (units : Nat) : Nat :=
  min (Magnitude.nearest units 1) Magnitude.limit

theorem roundUnits_mono {a b : Nat} (h : a ≤ b) : roundUnits a ≤ roundUnits b := by
  apply min_le_min_right
  exact Magnitude.nearest_mono Nat.one_pos Nat.one_pos (Nat.mul_le_mul_right 1 h)

theorem roundUnits_zero : roundUnits 0 = 0 := by
  rw [roundUnits, Magnitude.nearest_zero, Nat.zero_min]

theorem roundRank_eq_signed (units : Int) :
    roundRank units = signed (units < 0) (roundUnits units.natAbs) :=
  rank_ofUnits _ _ _

theorem roundRank_of_nonneg {units : Int} (h : 0 ≤ units) :
    roundRank units = roundUnits units.natAbs := by
  rw [roundRank_eq_signed, decide_eq_false (Int.not_lt.mpr h), signed_false]

theorem roundRank_of_neg {units : Int} (h : units < 0) :
    roundRank units = -(roundUnits units.natAbs : Int) := by
  rw [roundRank_eq_signed, decide_eq_true h, signed_true]

theorem roundRank_zero : roundRank 0 = 0 := by
  rw [roundRank_eq_signed, Int.natAbs_zero, roundUnits_zero, signed_zero]

/-- Rounding keeps the order of the numbers. -/
theorem roundRank_mono {a b : Int} (h : a ≤ b) : roundRank a ≤ roundRank b := by
  rw [roundRank_eq_signed, roundRank_eq_signed]
  apply signed_le_signed roundUnits_mono roundUnits_zero
  rwa [signed_natAbs, signed_natAbs]

/-- Below a power of two a count of units is off by at most so small a fraction of
one. -/
theorem roundUnits_error {units i j : Nat} (hunits : units < 2 ^ j * Magnitude.one)
    (hij : i + j = 53) :
    2 ^ (i + 1) * roundUnits units ≤ 2 ^ (i + 1) * units + Magnitude.one ∧
      2 ^ (i + 1) * units ≤ 2 ^ (i + 1) * roundUnits units + Magnitude.one := by
  have hspacing := Magnitude.spacing_mul_le_one hunits hij
  have hlimit : Magnitude.nearest units 1 < Magnitude.limit := by
    calc Magnitude.nearest units 1
        ≤ Magnitude.spacing (units / 1) * 2 ^ 53 := Magnitude.nearest_le _ _
      _ = 2 ^ 53 * Magnitude.spacing units := by rw [Nat.div_one, Nat.mul_comm]
      _ ≤ 2 ^ 53 * Magnitude.one := by
        apply Nat.mul_le_mul_left
        exact (Nat.le_mul_of_pos_right _ (Nat.two_pow_pos i)).trans hspacing
      _ < Magnitude.limit := Magnitude.mul_one_lt_limit le_rfl
  obtain ⟨habove, hbelow⟩ := Magnitude.nearest_error units Nat.one_pos
  rw [Nat.div_one, Nat.mul_one, Nat.mul_one] at habove hbelow
  have habove := Nat.mul_le_mul_left (2 ^ i) habove
  have hbelow := Nat.mul_le_mul_left (2 ^ i) hbelow
  rw [roundUnits, Nat.min_eq_left hlimit.le, Nat.pow_succ]
  constructor
  · linarith
  · linarith

theorem roundRank_error {units : Int} {i j : Nat} (hunits : units.natAbs < 2 ^ j * Magnitude.one)
    (hij : i + j = 53) : |2 ^ (i + 1) * (roundRank units - units)| ≤ (Magnitude.one : Int) := by
  obtain ⟨habove, hbelow⟩ := roundUnits_error hunits hij
  zify at habove hbelow
  rw [abs_le]
  rcases lt_or_ge units 0 with h | h
  · rw [abs_of_neg h] at habove hbelow
    rw [roundRank_of_neg h]
    constructor
    · linarith
    · linarith
  · rw [abs_of_nonneg h] at habove hbelow
    rw [roundRank_of_nonneg h]
    constructor
    · linarith
    · linarith

end Binary64
end HeapChronicle
