import HeapChronicle.Proofs.Binary64.Rounding

/-!
Sums of doubles. A sum is NaN only if a term is, or if the terms are infinities of
opposite signs (`isNaN_add_iff`). The rank of a finite sum is the rounded sum of
the ranks (`rank_add`), so a rounded sum is monotone in the exact one. Integers of
up to 53 binary digits are doubles, and fractions of one stay below it.
-/

namespace HeapChronicle

/-- A count of units with the sign of an integer is a multiple of it. -/
theorem signed_natAbs_mul (n : Int) (count : Nat) :
    signed (n < 0) (n.natAbs * count) = n * count := by
  rw [signed_mul, signed_natAbs]

namespace Magnitude

/-- A fraction of one is not rounded past it. -/
theorem nearest_le_one {num den : Nat} (hden : 0 < den) (h : num ≤ den) :
    nearest (num * one) den ≤ one := by
  have hgrid : spacing (1 * one) ∣ 1 * one := mul_one_onGrid Nat.one_le_two_pow
  rw [Nat.one_mul] at hgrid
  calc nearest (num * one) den ≤ nearest (one * den) den := by
        apply nearest_mono hden hden
        apply Nat.mul_le_mul_right
        rw [Nat.mul_comm]
        exact Nat.mul_le_mul_left one h
    _ = one := nearest_exact hden hgrid

end Magnitude

namespace Binary64

variable {x y : Binary64}

theorem isNaN_of_isFinite (h : x.isFinite = true) : x.isNaN = false := by
  cases x with
  | nan => cases h
  | infinite negative => cases h
  | finite negative m => rfl

theorem ofUnits_of_onGrid {units : Nat} (hlt : units < Magnitude.limit)
    (hgrid : Magnitude.spacing units ∣ units) (negative : Bool) :
    ofUnits negative units 1 = .finite negative ⟨units, hlt, hgrid⟩ := by
  apply ofUnits_of_nearest
  have hexact := Magnitude.nearest_exact Nat.one_pos hgrid
  rwa [Nat.mul_one] at hexact

theorem ofInt_eq_finite {n : Int} (h : n.natAbs ≤ 2 ^ 53) :
    ∃ m : Magnitude, ofInt n = .finite (n < 0) m ∧ m.units = n.natAbs * Magnitude.one := by
  have hlt := Magnitude.mul_one_lt_limit h
  have hgrid := Magnitude.mul_one_onGrid h
  refine ⟨⟨n.natAbs * Magnitude.one, hlt, hgrid⟩, ?_, rfl⟩
  rw [ofInt, ofQuotient]
  exact ofUnits_of_onGrid hlt hgrid _

theorem isFinite_ofInt {n : Int} (h : n.natAbs ≤ 2 ^ 53) : (ofInt n).isFinite = true := by
  obtain ⟨m, hm, -⟩ := ofInt_eq_finite h
  rw [hm]
  rfl

theorem rank_ofInt {n : Int} (h : n.natAbs ≤ 2 ^ 53) : (ofInt n).rank = n * Magnitude.one := by
  obtain ⟨m, hm, hunits⟩ := ofInt_eq_finite h
  rw [hm, rank_finite, hunits]
  exact signed_natAbs_mul n Magnitude.one

/-- So many ones are rounded as an integer. -/
theorem ofUnits_mul_one (n : Int) :
    ofUnits (n * Magnitude.one < 0) (n * Magnitude.one).natAbs 1 = ofInt n := by
  have hsign := mul_count_neg_iff (n := n) Magnitude.one_pos
  rw [ofInt, ofQuotient, Int.natAbs_mul, Int.natAbs_natCast]
  simp only [hsign]

theorem ofInt_zero : ofInt 0 = zero := by
  rw [ofInt, ofQuotient, Int.natAbs_zero, Nat.zero_mul]
  exact ofUnits_of_nearest (Magnitude.nearest_zero 1) false

theorem ofQuotient_eq_finite {num den : Nat} (hden : 0 < den) (h : num ≤ den) :
    ∃ m : Magnitude, ofQuotient false num den = .finite false m ∧
      m.units = Magnitude.nearest (num * Magnitude.one) den := by
  have hlt : Magnitude.nearest (num * Magnitude.one) den < Magnitude.limit := by
    calc Magnitude.nearest (num * Magnitude.one) den
        ≤ Magnitude.one := Magnitude.nearest_le_one hden h
      _ = 1 * Magnitude.one := (Nat.one_mul _).symm
      _ < Magnitude.limit := Magnitude.mul_one_lt_limit Nat.one_le_two_pow
  exact ⟨_, ofUnits_of_lt hlt false, rfl⟩

theorem isFinite_ofQuotient {num den : Nat} (hden : 0 < den) (h : num ≤ den) :
    (ofQuotient false num den).isFinite = true := by
  obtain ⟨m, hm, -⟩ := ofQuotient_eq_finite hden h
  rw [hm]
  rfl

theorem rank_ofQuotient {num den : Nat} (hden : 0 < den) (h : num ≤ den) :
    (ofQuotient false num den).rank = Magnitude.nearest (num * Magnitude.one) den := by
  obtain ⟨m, hm, hunits⟩ := ofQuotient_eq_finite hden h
  rw [hm, rank_finite, hunits, signed_false]

theorem isNaN_add_iff : (x.add y).isNaN = true ↔
    x.isNaN = true ∨ y.isNaN = true ∨
      ∃ negative, x = .infinite negative ∧ y = .infinite !negative := by
  cases x with
  | nan => simp [add, isNaN]
  | infinite s =>
    cases y with
    | nan => simp [add, isNaN]
    | infinite t =>
      cases s <;> cases t <;> simp [add, isNaN]
    | finite t b => simp [add, isNaN]
  | finite s a =>
    cases y with
    | nan => simp [add, isNaN]
    | infinite t => simp [add, isNaN]
    | finite t b =>
      simp only [add]
      split
      · simp [isNaN]
      · rw [isNaN_ofUnits]
        simp [isNaN]

theorem isNaN_add_of_isFinite (hx : x.isFinite = true) (hy : y.isNaN = false) :
    (x.add y).isNaN = false := by
  rw [Bool.eq_false_iff, Ne, isNaN_add_iff]
  rintro (hnan | hnan | ⟨negative, rfl, -⟩)
  · rw [isNaN_of_isFinite hx] at hnan
    cases hnan
  · rw [hy] at hnan
    cases hnan
  · cases hx

/-- A finite sum is the rounded sum of the ranks. -/
theorem rank_add (hx : x.isFinite = true) (hy : y.isFinite = true) :
    (x.add y).rank = roundRank (x.rank + y.rank) := by
  cases x with
  | nan => cases hx
  | infinite s => cases hx
  | finite s a =>
    cases y with
    | nan => cases hy
    | infinite t => cases hy
    | finite t b =>
      simp only [add, rank_finite]
      split
      next hzero =>
        rw [hzero, roundRank_zero, rank_finite]
        exact signed_zero _
      next => rfl

/-- A product of an integer is rounded once, as the integer that it is. -/
theorem scaleUp_ofInt {n : Int} {factor : Nat} (hn : n.natAbs ≤ 2 ^ 53) (hfactor : 0 < factor) :
    (ofInt n).scaleUp factor = ofInt (n * factor) := by
  obtain ⟨m, hm, hunits⟩ := ofInt_eq_finite hn
  have hsign := mul_count_neg_iff (n := n) hfactor
  rw [hm, scaleUp, hunits, ofInt, ofQuotient, Int.natAbs_mul, Int.natAbs_natCast,
    Nat.mul_right_comm]
  simp only [hsign]

/-- So is a sum of two integers. -/
theorem add_ofInt {m n : Int} (hm : m.natAbs ≤ 2 ^ 53) (hn : n.natAbs ≤ 2 ^ 53) :
    (ofInt m).add (ofInt n) = ofInt (m + n) := by
  obtain ⟨a, ha, haunits⟩ := ofInt_eq_finite hm
  obtain ⟨b, hb, hbunits⟩ := ofInt_eq_finite hn
  have hsum : signed (m < 0) a.units + signed (n < 0) b.units = (m + n) * Magnitude.one := by
    rw [haunits, hbunits, signed_natAbs_mul, signed_natAbs_mul, Int.add_mul]
  rw [ha, hb]
  simp only [add, hsum]
  split
  next hzero =>
    have hone : (Magnitude.one : Int) ≠ 0 := Int.natCast_ne_zero.mpr Magnitude.one_pos.ne'
    have hnone : m + n = 0 := (Int.mul_eq_zero.mp hzero).resolve_right hone
    -- Two integers that cancel out are not both negative.
    have hsign : (decide (m < 0) && decide (n < 0)) = false := by
      rw [← Bool.decide_and, decide_eq_false_iff_not]
      omega
    rw [hnone, ofInt_zero, hsign]
    rfl
  next => exact ofUnits_mul_one (m + n)

theorem infinite_add {x : Binary64} (hx : x.isFinite = true) (negative : Bool) :
    (infinite negative).add x = infinite negative := by
  cases x with
  | nan => cases hx
  | infinite s => cases hx
  | finite s m => rfl

/-- A greater finite term makes no lesser sum. -/
theorem rank_add_mono {z : Binary64} (hz : z.isNaN = false) (hx : x.isFinite = true)
    (hy : y.isFinite = true) (h : x.rank ≤ y.rank) : (z.add x).rank ≤ (z.add y).rank := by
  cases z with
  | nan => cases hz
  | infinite s => rw [infinite_add hx, infinite_add hy]
  | finite s a =>
    have hz : (finite s a).isFinite = true := rfl
    rw [rank_add hz hx, rank_add hz hy]
    apply roundRank_mono
    omega

theorem natAbs_rank_lt (hx : x.isFinite = true) : x.rank.natAbs < Magnitude.limit := by
  cases x with
  | nan => cases hx
  | infinite s => cases hx
  | finite s m =>
    rw [rank_finite, natAbs_signed]
    exact m.lt_limit

theorem isFinite_of_natAbs_rank_lt (hx : x.isNaN = false) (h : x.rank.natAbs < Magnitude.limit) :
    x.isFinite = true := by
  cases x with
  | nan => cases hx
  | infinite s =>
    rw [rank_infinite, natAbs_signed] at h
    exact absurd h (Nat.lt_irrefl _)
  | finite s m => rfl

/-- The infinities are at the ends of the order. -/
theorem natAbs_rank_le (x : Binary64) : x.rank.natAbs ≤ Magnitude.limit := by
  cases x with
  | nan => exact Nat.zero_le _
  | infinite s => rw [rank_infinite, natAbs_signed]
  | finite s m => exact (natAbs_rank_lt rfl).le

/-- A number that is finite or infinite makes no lesser sum than a lesser one, with the
same finite term. -/
theorem rank_add_finite_mono {z : Binary64} (hz : z.isFinite = true) (hx : x.isNaN = false)
    (hy : y.isNaN = false) (h : x.rank ≤ y.rank) : (x.add z).rank ≤ (y.add z).rank := by
  cases x with
  | nan => cases hx
  | infinite s =>
    cases y with
    | nan => cases hy
    | infinite t => rwa [infinite_add hz, infinite_add hz]
    | finite t b =>
      -- Below a finite number there is only the negative infinity.
      have hfinite := natAbs_rank_lt (x := finite t b) rfl
      have hsum := natAbs_rank_le ((finite t b).add z)
      rw [infinite_add hz]
      cases s with
      | false =>
        rw [rank_infinite, signed_false] at h
        omega
      | true =>
        rw [rank_infinite, signed_true]
        omega
  | finite s a =>
    have hx : (finite s a).isFinite = true := rfl
    cases y with
    | nan => cases hy
    | infinite t =>
      have hfinite := natAbs_rank_lt hx
      have hsum := natAbs_rank_le ((finite s a).add z)
      rw [infinite_add hz]
      cases t with
      | false =>
        rw [rank_infinite, signed_false]
        omega
      | true =>
        rw [rank_infinite, signed_true] at h
        omega
    | finite t b =>
      have hy : (finite t b).isFinite = true := rfl
      rw [rank_add hx hz, rank_add hy hz]
      apply roundRank_mono
      omega

end Binary64
end HeapChronicle
