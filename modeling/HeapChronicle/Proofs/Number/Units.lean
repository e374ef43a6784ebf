import HeapChronicle.Proofs.Binary64.Negation
import HeapChronicle.Proofs.Binary64.Sum

/-!
Numbers of both kinds by their exact values, which are counted in units. As a
double a number has the rank to which its units are rounded
(`rank_of_toDouble?`), so that the order of the values is kept. Only integers can
have no double, and they have none exactly from the midpoint behind the largest
double on (`toDouble?_eq_none_iff`).
-/

namespace HeapChronicle

namespace Binary64

theorem isFinite_ofUnits_eq_false_iff {negative : Bool} {num den : Nat} :
    (ofUnits negative num den).isFinite = false ↔
      Magnitude.limit ≤ Magnitude.nearest num den := by
  rcases Nat.lt_or_ge (Magnitude.nearest num den) Magnitude.limit with h | h
  · rw [ofUnits_of_lt h]
    exact iff_of_false Bool.true_eq_false.mp (Nat.not_le.mpr h)
  · rw [ofUnits_of_le h]
    exact iff_of_true rfl h

theorem isFinite_ofInt_eq_false_iff {n : Int} :
    (ofInt n).isFinite = false ↔ (2 ^ 54 - 1) * 2 ^ 970 ≤ n.natAbs := by
  rw [ofInt, ofQuotient]
  exact isFinite_ofUnits_eq_false_iff.trans Magnitude.limit_le_nearest_iff

theorem rank_ofInt_eq_roundRank (n : Int) :
    (ofInt n).rank = roundRank (n * Magnitude.one) := by
  rw [roundRank, ofUnits_mul_one]

/-- The rank of a finite double is not rounded. -/
theorem roundRank_rank {x : Binary64} (hx : x.isFinite = true) : roundRank x.rank = x.rank := by
  cases x with
  | nan => cases hx
  | infinite s => cases hx
  | finite s m =>
    rw [rank_finite, roundRank, natAbs_signed, ofUnits_of_onGrid m.lt_limit m.onGrid, rank_finite]
    have hsigned := signed_natAbs (signed s m.units)
    rwa [natAbs_signed] at hsigned

end Binary64

namespace Number

/-- Not NaN and no infinity. -/
def IsFinite : Number → Prop
  | whole _ => True
  | double x => x.isFinite = true

/-- An integer from the midpoint between the largest double and the next power of two
on, of either sign. -/
def TooLarge (x : Number) : Prop :=
  ∃ n : Int, x = whole n ∧ (2 ^ 54 - 1) * 2 ^ 970 ≤ n.natAbs

/-- The exact value in units. -/
def units : Number → Int
  | whole n => n * Magnitude.one
  | double x => x.rank

/-- The exact value of a finite number. -/
def value (x : Number) : ℚ :=
  x.units / Magnitude.one

variable {x y : Number} {a b : Binary64} {n : Int}

theorem cast_one_pos : (0 : ℚ) < Magnitude.one :=
  Nat.cast_pos.mpr Magnitude.one_pos

theorem value_le_iff : x.value ≤ y.value ↔ x.units ≤ y.units := by
  rw [value, value, div_le_div_iff_of_pos_right cast_one_pos, Int.cast_le]

theorem value_eq_intCast_iff : x.value = n ↔ x.units = n * Magnitude.one := by
  rw [value, div_eq_iff cast_one_pos.ne']
  exact_mod_cast Iff.rfl

theorem isFinite_whole (n : Int) : (whole n).IsFinite := trivial

theorem value_whole (n : Int) : (whole n).value = n :=
  value_eq_intCast_iff.mpr rfl

theorem isFinite_of_toDouble? (hx : x.IsFinite) (ha : x.toDouble? = some a) :
    a.isFinite = true := by
  cases x with
  | double d =>
    cases ha
    exact hx
  | whole n =>
    rw [toDouble?] at ha
    split at ha
    next hfinite =>
      obtain rfl := Option.some.inj ha
      exact hfinite
    next => cases ha

theorem rank_of_toDouble? (hx : x.IsFinite) (ha : x.toDouble? = some a) :
    a.rank = Binary64.roundRank x.units := by
  cases x with
  | double d =>
    cases ha
    exact (Binary64.roundRank_rank hx).symm
  | whole n =>
    rw [toDouble?] at ha
    split at ha
    next =>
      obtain rfl := Option.some.inj ha
      exact Binary64.rank_ofInt_eq_roundRank n
    next => cases ha

/-- As doubles numbers stay in order. -/
theorem rank_le_of_units_le (hx : x.IsFinite) (hy : y.IsFinite) (ha : x.toDouble? = some a)
    (hb : y.toDouble? = some b) (h : x.units ≤ y.units) : a.rank ≤ b.rank := by
  rw [rank_of_toDouble? hx ha, rank_of_toDouble? hy hb]
  exact Binary64.roundRank_mono h

theorem not_tooLarge_double (d : Binary64) : ¬(double d).TooLarge := by
  rintro ⟨_, ⟨⟩, -⟩

theorem toDouble?_eq_none_iff : x.toDouble? = none ↔ x.TooLarge := by
  cases x with
  | double d => exact iff_of_false (Option.some_ne_none d) (not_tooLarge_double d)
  | whole n =>
    have hfits : (whole n).toDouble? = none ↔ (Binary64.ofInt n).isFinite = false := by
      rw [toDouble?, ite_eq_right_iff, Bool.eq_false_iff]
      exact forall_congr' fun _ => iff_of_false (Option.some_ne_none _) id
    refine (hfits.trans Binary64.isFinite_ofInt_eq_false_iff).trans ⟨?_, ?_⟩
    · intro h
      exact ⟨n, rfl, h⟩
    · rintro ⟨_, ⟨⟩, h⟩
      exact h

theorem natAbs_units_lt (hx : x.IsFinite) (hfits : ¬x.TooLarge) :
    x.units.natAbs < Magnitude.limit := by
  cases x with
  | double d => exact Binary64.natAbs_rank_lt hx
  | whole n =>
    have hdigits : 1024 + 1074 = 2098 := rfl
    have hexponent : 1024 = 54 + 970 := rfl
    have hn : n.natAbs < 2 ^ 1024 := by
      have hbound : n.natAbs < (2 ^ 54 - 1) * 2 ^ 970 := by
        by_contra hlarge
        exact hfits ⟨n, rfl, not_lt.mp hlarge⟩
      calc n.natAbs < (2 ^ 54 - 1) * 2 ^ 970 := hbound
        _ ≤ 2 ^ 54 * 2 ^ 970 := Nat.mul_le_mul_right _ (by decide)
        _ = 2 ^ 1024 := by rw [hexponent, Nat.pow_add]
    rw [units, Int.natAbs_mul, Int.natAbs_natCast, Magnitude.limit_eq_pow hdigits,
      ← Magnitude.pow_mul_one]
    exact Nat.mul_lt_mul_of_pos_right hn Magnitude.one_pos

/-- The exact value, or an infinity before or past all others. NaN counts as zero. -/
def extended : Number → WithBot (WithTop ℚ)
  | double (.infinite true) => ⊥
  | double (.infinite false) => ⊤
  | x => ((x.value : WithTop ℚ) : WithBot (WithTop ℚ))

/-- The infinities are one step past the units of all numbers that fit. -/
theorem extended_cases (hfits : ¬x.TooLarge) :
    x.extended = ((x.value : WithTop ℚ) : WithBot (WithTop ℚ)) ∧
        x.units.natAbs < Magnitude.limit ∨
      x.extended = ⊥ ∧ x.units = -Magnitude.limit ∨
      x.extended = ⊤ ∧ x.units = Magnitude.limit := by
  cases x with
  | whole n => exact .inl ⟨rfl, natAbs_units_lt (isFinite_whole n) hfits⟩
  | double d =>
    cases d with
    | nan => exact .inl ⟨rfl, Magnitude.limit_pos⟩
    | finite s m => exact .inl ⟨rfl, Binary64.natAbs_rank_lt rfl⟩
    | infinite s =>
      cases s with
      | true => exact .inr (.inl ⟨rfl, rfl⟩)
      | false => exact .inr (.inr ⟨rfl, rfl⟩)

theorem extended_lt_iff (hx : ¬x.TooLarge) (hy : ¬y.TooLarge) :
    x.extended < y.extended ↔ x.units < y.units := by
  have hlimit := Magnitude.limit_pos
  rcases extended_cases hx with ⟨hxe, hxu⟩ | ⟨hxe, hxu⟩ | ⟨hxe, hxu⟩ <;>
    rcases extended_cases hy with ⟨hye, hyu⟩ | ⟨hye, hyu⟩ | ⟨hye, hyu⟩
  all_goals rw [hxe, hye]
  · rw [WithBot.coe_lt_coe, WithTop.coe_lt_coe, ← not_le, value_le_iff, not_le]
  · exact iff_of_false not_lt_bot (by omega)
  · exact iff_of_true (WithBot.coe_lt_coe.mpr (WithTop.coe_lt_top _)) (by omega)
  · exact iff_of_true (WithBot.bot_lt_coe _) (by omega)
  · exact iff_of_false (lt_irrefl _) (by omega)
  · exact iff_of_true bot_lt_top (by omega)
  · exact iff_of_false not_top_lt (by omega)
  · exact iff_of_false not_top_lt (by omega)
  · exact iff_of_false (lt_irrefl _) (by omega)

theorem extended_eq_iff (hx : ¬x.TooLarge) (hy : ¬y.TooLarge) :
    x.extended = y.extended ↔ x.units = y.units := by
  rw [le_antisymm_iff, ← not_lt, ← not_lt, extended_lt_iff hx hy, extended_lt_iff hy hx]
  omega

end Number
end HeapChronicle
