import HeapChronicle.Proofs.Binary64.Order
import HeapChronicle.Proofs.Decimal.Shortest

/-!
The doubles nearest to fractions. Rounding looks at the value of a fraction and not at how
it is written (`ofQuotient_eq_ofRat`), and a greater value has no lesser double
(`rank_ofCount_mono`, `rank_ofRat_mono`). Past the largest double the infinity is the
nearest (`ofRat_eq_infinite_iff`).
-/

namespace HeapChronicle.Binary64

theorem ofUnits_congr {negative : Bool} {a b c d : Nat} (hb : 0 < b) (hd : 0 < d)
    (h : a * d = c * b) : ofUnits negative a b = ofUnits negative c d := by
  have hnearest := Magnitude.nearest_congr hb hd h
  rcases Nat.lt_or_ge (Magnitude.nearest c d) Magnitude.limit with hlt | hle
  · rw [ofUnits_of_lt hlt]
    exact ofUnits_of_nearest hnearest negative
  · rw [ofUnits_of_le hle, ofUnits_of_le (hnearest ▸ hle)]

/-- The double nearest to a count of steps, each of which is `scale / den` units. -/
def ofCount (scale den : Nat) (count : Int) : Binary64 :=
  ofUnits (count < 0) (count.natAbs * scale) den

theorem ofCount_of_nonneg {scale den : Nat} {count : Int} (h : 0 ≤ count) :
    ofCount scale den count = ofUnits false (count.toNat * scale) den := by
  obtain ⟨n, rfl⟩ := Int.eq_ofNat_of_zero_le h
  rw [ofCount, decide_eq_false (Int.not_lt.mpr h)]
  rfl

theorem ofCount_zero (scale den : Nat) : ofCount scale den 0 = zero := by
  rw [ofCount_of_nonneg le_rfl, Int.toNat_zero, Nat.zero_mul]
  exact ofUnits_of_nearest (Magnitude.nearest_zero den) false

theorem isNaN_ofCount {scale den : Nat} {count : Int} :
    (ofCount scale den count).isNaN = false :=
  isNaN_ofUnits

/-- Finer steps, and as many more of them. -/
theorem ofCount_mul {scale den k : Nat} (hden : 0 < den) (hk : 0 < k) (count : Int) :
    ofCount scale (den * k) (count * k) = ofCount scale den count := by
  have hsign : count * k < 0 ↔ count < 0 := mul_count_neg_iff hk
  rw [ofCount, ofCount, Int.natAbs_mul, Int.natAbs_natCast]
  simp only [hsign]
  apply ofUnits_congr (Nat.mul_pos hden hk) hden
  ring

/-- More steps make no lesser number. -/
theorem rank_ofCount_mono {scale den : Nat} (hden : 0 < den) {m n : Int} (h : m ≤ n) :
    (ofCount scale den m).rank ≤ (ofCount scale den n).rank := by
  have hmono {a b : Nat} (hab : a ≤ b) :
      min (Magnitude.nearest (a * scale) den) Magnitude.limit ≤
        min (Magnitude.nearest (b * scale) den) Magnitude.limit := by
    apply min_le_min_right
    apply Magnitude.nearest_mono hden hden
    exact Nat.mul_le_mul_right den (Nat.mul_le_mul_right scale hab)
  have hzero : min (Magnitude.nearest (0 * scale) den) Magnitude.limit = 0 := by
    rw [Nat.zero_mul, Magnitude.nearest_zero, Nat.zero_min]
  rw [ofCount, ofCount, rank_ofUnits, rank_ofUnits]
  apply signed_le_signed hmono hzero
  rwa [signed_natAbs, signed_natAbs]

/-- The double nearest to a fraction. -/
def ofRat (q : ℚ) : Binary64 :=
  ofCount Magnitude.one q.den q.num

variable {p q : ℚ}

theorem ofRat_of_nonneg (hq : 0 ≤ q) : ofRat q = ofQuotient false q.num.toNat q.den :=
  ofCount_of_nonneg (Rat.num_nonneg.mpr hq)

theorem isNaN_ofRat (q : ℚ) : (ofRat q).isNaN = false :=
  isNaN_ofCount

theorem rank_ofRat_nonneg (hq : 0 ≤ q) : 0 ≤ (ofRat q).rank := by
  rw [ofRat_of_nonneg hq]
  exact rank_ofUnits_nonneg

/-- Counts of one value round to the same double. -/
theorem ofCount_eq_ofRat {den : Nat} (hden : 0 < den) {count : Int} (h : (count : ℚ) / den = q) :
    ofCount Magnitude.one den count = ofRat q := by
  have hcross : count * q.den = q.num * den := by
    rw [← Rat.num_div_den q, div_eq_div_iff (by exact_mod_cast hden.ne')
      (by exact_mod_cast q.den_pos.ne')] at h
    exact_mod_cast h
  rw [ofRat, ← ofCount_mul hden q.den_pos count, ← ofCount_mul q.den_pos hden q.num, hcross,
    Nat.mul_comm]

theorem ofQuotient_eq_ofRat {num den : Nat} (hden : 0 < den) (h : (num : ℚ) / den = q) :
    ofQuotient false num den = ofRat q := by
  have hcount : ((num : Int) : ℚ) / den = q := by rwa [Int.cast_natCast]
  rw [← ofCount_eq_ofRat hden hcount, ofCount_of_nonneg (Int.natCast_nonneg num),
    Int.toNat_natCast, ofQuotient]

/-- A fraction that is whole is rounded as an integer. -/
theorem ofQuotient_mul {den : Nat} (hden : 0 < den) (n : Nat) :
    ofQuotient false (n * den) den = ofInt n := by
  have hsign : decide ((n : Int) < 0) = false :=
    decide_eq_false (Int.not_lt.mpr (Int.natCast_nonneg n))
  rw [ofInt, hsign, Int.natAbs_natCast, ofQuotient, ofQuotient]
  apply ofUnits_congr hden Nat.one_pos
  rw [Nat.mul_one, Nat.mul_right_comm]

theorem rank_ofQuotient_mono {m n den : Nat} (hden : 0 < den) (h : m ≤ n) :
    (ofQuotient false m den).rank ≤ (ofQuotient false n den).rank := by
  rw [ofQuotient, ofQuotient, rank_ofUnits, rank_ofUnits, signed_false, signed_false,
    Int.ofNat_le]
  apply min_le_min_right
  apply Magnitude.nearest_mono hden hden
  exact Nat.mul_le_mul_right den (Nat.mul_le_mul_right _ h)

theorem ofDecimal_eq_ofRat (d : Decimal) : ofDecimal false d = ofRat d.value :=
  ofQuotient_eq_ofRat d.denominator_pos d.numerator_div_denominator

theorem rank_ofRat_mono (h : p ≤ q) : (ofRat p).rank ≤ (ofRat q).rank := by
  have hp := @ofCount_mul Magnitude.one _ _ p.den_pos q.den_pos p.num
  have hq := @ofCount_mul Magnitude.one _ _ q.den_pos p.den_pos q.num
  rw [ofRat, ofRat, ← hp, ← hq, Nat.mul_comm q.den]
  apply rank_ofCount_mono (Nat.mul_pos p.den_pos q.den_pos)
  exact (Rat.le_iff p q).mp h

/-- A fraction becomes infinite from the midpoint behind the largest double on. -/
theorem ofRat_eq_infinite_iff (hq : 0 ≤ q) :
    ofRat q = infinite false ↔ (((2 ^ 54 - 1) * 2 ^ 970 : ℕ) : ℚ) ≤ q := by
  have hmiddle (middle : ℕ) : (middle : ℚ) ≤ q ↔ middle * q.den ≤ q.num.toNat := by
    rw [Rat.le_iff, Rat.num_natCast, Rat.den_natCast,
      ← Int.toNat_of_nonneg (Rat.num_nonneg.mpr hq)]
    norm_cast
    rw [Nat.mul_one]
  rw [hmiddle, ← Magnitude.limit_le_nearest_mul_iff q.den_pos, ofRat_of_nonneg hq, ofQuotient]
  constructor
  · intro h
    by_contra hlt
    rw [ofUnits_of_lt (not_le.mp hlt)] at h
    cases h
  · intro h
    exact ofUnits_of_le h false

end HeapChronicle.Binary64
