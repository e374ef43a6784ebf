import HeapChronicle.Stamp.Shift

/-!
Turning the sign of a number around. Rounding looks at magnitudes only, so the
negative of an integer or of a double moves a date by as many microseconds the
other way (`Number.toMicros?_neg`). The negative of the integer zero is again
that zero, though the doubles have two of them.
-/

namespace HeapChronicle

theorem signed_not (negative : Bool) (count : Nat) :
    signed (!negative) count = -signed negative count := by
  cases negative with
  | false => rfl
  | true => exact (Int.neg_neg _).symm

namespace Binary64

theorem ofUnits_not (negative : Bool) (num den : Nat) :
    ofUnits (!negative) num den = (ofUnits negative num den).neg := by
  unfold ofUnits
  cases Magnitude.ofFraction? num den with
  | none => rfl
  | some m => rfl

theorem ofInt_neg {n : Int} (h : n ≠ 0) : ofInt (-n) = (ofInt n).neg := by
  have hsign : decide (-n < 0) = !decide (n < 0) := by
    rw [← decide_not, decide_eq_decide]
    omega
  rw [ofInt, ofInt, hsign, Int.natAbs_neg]
  exact ofUnits_not _ _ _

theorem isFinite_neg (x : Binary64) : x.neg.isFinite = x.isFinite := by
  cases x with
  | nan => rfl
  | infinite negative => rfl
  | finite negative m => rfl

theorem neg_neg (x : Binary64) : x.neg.neg = x := by
  cases x with
  | nan => rfl
  | infinite negative => rw [neg, neg, Bool.not_not]
  | finite negative m => rw [neg, neg, Bool.not_not]

theorem toMicros?_neg (x : Binary64) : x.neg.toMicros? = x.toMicros?.map (-·) := by
  cases x with
  | nan => rfl
  | infinite negative => rfl
  | finite negative m =>
    simp only [neg, toMicros?, Option.map_some]
    rw [signed_not]

end Binary64

namespace Number

/-- The microseconds by which a number of seconds moves a date. None if it is too
large for a double, or infinite. -/
def toMicros? (x : Number) : Option Int :=
  x.toDouble?.bind Binary64.toMicros?

theorem neg_neg (x : Number) : x.neg.neg = x := by
  cases x with
  | whole n => rw [neg, neg, Int.neg_neg]
  | double x => rw [neg, neg, Binary64.neg_neg]

theorem toDouble?_neg_of_ne_zero {n : Int} (h : n ≠ 0) :
    (whole n).neg.toDouble? = (whole n).toDouble?.map Binary64.neg := by
  rw [neg, toDouble?, toDouble?, Binary64.ofInt_neg h, Binary64.isFinite_neg]
  split
  · rfl
  · rfl

theorem toMicros?_neg (x : Number) : x.neg.toMicros? = x.toMicros?.map (-·) := by
  cases x with
  | double x => exact Binary64.toMicros?_neg x
  | whole n =>
    by_cases hn : n = 0
    · have hzero : (whole 0).toMicros? = some 0 := by decide +kernel
      rw [hn, neg, Int.neg_zero, hzero]
      rfl
    · rw [toMicros?, toDouble?_neg_of_ne_zero hn, toMicros?]
      cases (whole n).toDouble? with
      | none => rfl
      | some x => exact Binary64.toMicros?_neg x

theorem isSome_toDouble?_neg (x : Number) : x.neg.toDouble?.isSome = x.toDouble?.isSome := by
  cases x with
  | double x => rfl
  | whole n =>
    by_cases hn : n = 0
    · rw [hn, neg, Int.neg_zero]
    · rw [toDouble?_neg_of_ne_zero hn, Option.isSome_map]

end Number
end HeapChronicle
