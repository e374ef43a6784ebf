import HeapChronicle.Number.Basic
import HeapChronicle.Proofs.Binary64.Sum

/-!
Doubles that agree: numerically equal, or both NaN. Agreeing doubles have one rank
(`agrees_iff_rank?`), and besides equal ones only the two zeros have
(`Agrees.eq_or_zeros`). So everything that reads ranks respects agreement, and an
operation does if it treats the zeros alike.
-/

namespace HeapChronicle

/-- Only zero has two signs. -/
theorem eq_of_signed_eq {s t : Bool} {a b : Nat} (h : signed s a = signed t b) :
    a = b ∧ (s = t ∨ a = 0) := by
  cases s with
  | false =>
    cases t with
    | false => exact ⟨Int.ofNat.inj h, .inl rfl⟩
    | true =>
      rw [signed_false, signed_true] at h
      omega
  | true =>
    cases t with
    | false =>
      rw [signed_false, signed_true] at h
      omega
    | true => exact ⟨Int.ofNat.inj (Int.neg_inj.mp h), .inl rfl⟩

theorem Magnitude.eq_of_units {m n : Magnitude} (h : m.units = n.units) : m = n := by
  cases m
  cases n
  cases h
  rfl

namespace Binary64

variable {x y x' y' : Binary64}

theorem isNaN_of_numEq (h : x.numEq y = true) : x.isNaN = false := by
  cases x with
  | nan => cases h
  | infinite s => rfl
  | finite s m => rfl

/-- Numerically equal, or both NaN. -/
def Agrees (x y : Binary64) : Prop :=
  x.numEq y = true ∨ x.isNaN = true ∧ y.isNaN = true

theorem agrees_iff_rank? : x.Agrees y ↔ x.rank? = y.rank? := by
  cases x <;> cases y <;> simp [Agrees, numEq, rank?, isNaN]

namespace Agrees

theorem refl (x : Binary64) : x.Agrees x :=
  agrees_iff_rank?.mpr rfl

theorem symm (h : x.Agrees y) : y.Agrees x :=
  agrees_iff_rank?.mpr (agrees_iff_rank?.mp h).symm

theorem trans {z : Binary64} (h : x.Agrees y) (h' : y.Agrees z) : x.Agrees z :=
  agrees_iff_rank?.mpr ((agrees_iff_rank?.mp h).trans (agrees_iff_rank?.mp h'))

theorem zeros (s t : Bool) : (finite s .zero).Agrees (finite t .zero) := by
  rw [agrees_iff_rank?, rank?, rank?]
  exact congrArg some ((signed_zero s).trans (signed_zero t).symm)

/-- Numbers that agree and are not equal are zeros. -/
theorem eq_or_zeros (h : x.Agrees y) :
    x = y ∨ ∃ s t, x = finite s .zero ∧ y = finite t .zero := by
  rw [agrees_iff_rank?] at h
  cases x with
  | nan =>
    cases y with
    | nan => exact .inl rfl
    | infinite t => cases h
    | finite t b => cases h
  | infinite s =>
    cases y with
    | nan => cases h
    | infinite t =>
      obtain ⟨-, rfl | hzero⟩ := eq_of_signed_eq (Option.some.inj h)
      · exact .inl rfl
      · exact absurd hzero Magnitude.limit_pos.ne'
    | finite t b =>
      have hunits := (eq_of_signed_eq (Option.some.inj h)).1
      exact absurd hunits b.lt_limit.ne'
  | finite s a =>
    cases y with
    | nan => cases h
    | infinite t =>
      have hunits := (eq_of_signed_eq (Option.some.inj h)).1
      exact absurd hunits a.lt_limit.ne
    | finite t b =>
      obtain ⟨hunits, hsign⟩ := eq_of_signed_eq (Option.some.inj h)
      obtain rfl := Magnitude.eq_of_units hunits
      rcases hsign with rfl | hzero
      · exact .inl rfl
      · obtain rfl : a = .zero := Magnitude.eq_of_units hzero
        exact .inr ⟨s, t, rfl, rfl⟩

theorem lt (hx : x.Agrees x') (hy : y.Agrees y') : x.lt y = x'.lt y' := by
  rw [agrees_iff_rank?] at hx hy
  rw [Binary64.lt, hx, hy, Binary64.lt]

theorem numEq (hx : x.Agrees x') (hy : y.Agrees y') : x.numEq y = x'.numEq y' := by
  rw [agrees_iff_rank?] at hx hy
  rw [Binary64.numEq, hx, hy, Binary64.numEq]

theorem ltNumber (h : x.Agrees y) (n : Number) : x.ltNumber n = y.ltNumber n := by
  cases n with
  | double z => exact h.lt (refl z)
  | whole n =>
    rcases h.eq_or_zeros with rfl | ⟨s, t, rfl, rfl⟩
    · rfl
    · simp only [Binary64.ltNumber, ltInt, Magnitude.zero, signed_zero]

theorem gtNumber (h : x.Agrees y) (n : Number) : x.gtNumber n = y.gtNumber n := by
  cases n with
  | double z => exact (refl z).lt h
  | whole n =>
    rcases h.eq_or_zeros with rfl | ⟨s, t, rfl, rfl⟩
    · rfl
    · simp only [Binary64.gtNumber, gtInt, Magnitude.zero, signed_zero]

theorem numEq_of_isNaN (h : x.Agrees y) (hx : x.isNaN = false) : x.numEq y = true := by
  rcases h with heq | ⟨hnan, -⟩
  · exact heq
  · rw [hx] at hnan
    cases hnan

theorem orZero (h : x.Agrees y) : x.orZero.Agrees y.orZero := by
  rcases h.eq_or_zeros with rfl | ⟨s, t, rfl, rfl⟩
  · exact refl _
  · exact zeros s t

theorem neg (h : x.Agrees y) : x.neg.Agrees y.neg := by
  rcases h.eq_or_zeros with rfl | ⟨s, t, rfl, rfl⟩
  · exact refl _
  · exact zeros (!s) (!t)

theorem scaleDown (h : x.Agrees y) (divisor : Nat) :
    (x.scaleDown divisor).Agrees (y.scaleDown divisor) := by
  rcases h.eq_or_zeros with rfl | ⟨s, t, rfl, rfl⟩
  · exact refl _
  · have hexact : Magnitude.nearest 0 divisor = Magnitude.zero.units :=
      Magnitude.nearest_zero divisor
    have hzero (negative : Bool) :
        (finite negative .zero).scaleDown divisor = finite negative .zero :=
      ofUnits_of_nearest hexact negative
    rw [hzero, hzero]
    exact zeros s t

theorem add_left (h : x.Agrees x') (y : Binary64) : (x.add y).Agrees (x'.add y) := by
  rcases h.eq_or_zeros with rfl | ⟨s, t, rfl, rfl⟩
  · exact refl _
  · cases y with
    | nan => exact refl _
    | infinite negative => exact refl _
    | finite negative m =>
      simp only [Binary64.add, Magnitude.zero, signed_zero]
      split
      · exact zeros _ _
      · exact refl _

end Agrees

theorem add_comm (x y : Binary64) : x.add y = y.add x := by
  cases x with
  | nan => cases y <;> rfl
  | infinite s =>
    cases y with
    | nan => rfl
    | infinite t =>
      rcases eq_or_ne s t with rfl | hsign
      · rfl
      · rw [add, add, if_neg hsign, if_neg hsign.symm]
    | finite t b => rfl
  | finite s a =>
    cases y with
    | nan => rfl
    | infinite t => rfl
    | finite t b => simp only [add, Int.add_comm, Bool.and_comm]

theorem Agrees.add (hx : x.Agrees x') (hy : y.Agrees y') : (x.add y).Agrees (x'.add y') := by
  apply (hx.add_left y).trans
  rw [add_comm x' y, add_comm x' y']
  exact hy.add_left x'

theorem Agrees.sub (hx : x.Agrees x') (hy : y.Agrees y') : (x.sub y).Agrees (x'.sub y') :=
  hx.add hy.neg

end Binary64
end HeapChronicle
