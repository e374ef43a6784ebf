import HeapChronicle.Proofs.Binary64.Agreement
import HeapChronicle.Proofs.Stamp.Clock
import HeapChronicle.Proofs.Stamp.Timed

/-!
Stamps built again from their own date and seconds. What building replaces is NaN, and
the negative seconds of a date; the seconds that it puts there may be negative as well, but
are then replaced by themselves. So every stamp that is built, or read from a line, stays
as it is. Moves can leave that form in two ways, with NaN seconds or with negative ones
that are not those of the date (`rebuilt?_eq_self_iff`).
-/

namespace HeapChronicle

namespace Binary64

variable {x y : Binary64}

theorem numEq_refl (hx : x.isNaN = false) : x.numEq x = true :=
  (numEq_iff_rank_eq hx hx).mpr rfl

theorem orZero_eq_self_iff : x.orZero = x ↔ x.isNaN = false := by
  constructor
  · intro h
    rw [← h]
    exact isNaN_orZero x
  · exact orZero_of_isNaN

/-- Only zeros are equal without being the same, and they are not negative. -/
theorem eq_of_numEq_of_isNegative (h : x.numEq y = true) (hx : x.isNegative = true) : x = y := by
  have hagrees : x.Agrees y := .inl h
  rcases hagrees.eq_or_zeros with rfl | ⟨s, t, rfl, rfl⟩
  · rfl
  · have hzeros := (Agrees.zeros s false).lt (Agrees.refl zero)
    have hzero : zero.lt zero = false := lt_eq_false_of_rank_eq rfl rfl rfl
    rw [isNegative, hzeros] at hx
    exact absurd (hzero.symm.trans hx) Bool.false_ne_true

end Binary64

namespace Stamp

variable {s v : Stamp} {t : ZonedTime} {x : Binary64}

/-- A stamp of the same date and seconds, built anew. -/
def rebuilt? (s : Stamp) : Except StampError Stamp :=
  ofOffered (s.date.map .zoned) (.double s.seconds)

/-- A dated stamp with negative seconds that are not those of its date. -/
def IsStray (s : Stamp) : Prop :=
  ∃ t ∈ s.date, s.seconds.isNegative = true ∧ s.seconds.numEq (derivedSeconds t) = false

theorem rebuilt?_eq (s : Stamp) : rebuilt? s = .ok (ofParts s.date s.seconds) := by
  obtain ⟨date, seconds⟩ := s
  cases date with
  | none => rfl
  | some t => rfl

theorem ofParts_dated_eq_self_iff :
    ofParts (some t) x = ⟨some t, x⟩ ↔
      x.isNaN = false ∧ (x.isNegative = true → x.numEq (derivedSeconds t) = true) := by
  rw [ofParts, mk.injEq, and_iff_right rfl]
  cases hnan : x.isNaN with
  | true =>
    simp only [Bool.true_or, if_true, Bool.true_eq_false, false_and, iff_false]
    rintro rfl
    rw [isNaN_derivedSeconds] at hnan
    cases hnan
  | false =>
    cases hnegative : x.isNegative with
    | true =>
      simp only [Bool.or_true, if_true, true_and, forall_const]
      constructor
      · rintro rfl
        exact Binary64.numEq_refl hnan
      · intro heq
        exact (Binary64.eq_of_numEq_of_isNegative heq hnegative).symm
    | false => simp

theorem ofParts_eq_self_iff : ofParts s.date s.seconds = s ↔ s.IsTimed ∧ ¬s.IsStray := by
  obtain ⟨date, seconds⟩ := s
  cases date with
  | none => simp [ofParts, IsTimed, IsStray, Binary64.orZero_eq_self_iff]
  | some t =>
    rw [ofParts_dated_eq_self_iff, isTimed_dated]
    simp [IsStray]

theorem rebuilt?_eq_self_iff : rebuilt? s = .ok s ↔ s.IsTimed ∧ ¬s.IsStray := by
  rw [rebuilt?_eq, Except.ok.injEq]
  exact ofParts_eq_self_iff

/-- The seconds of a date that are built are derived or not negative. -/
theorem seconds_ofParts_dated (t : ZonedTime) (x : Binary64) :
    (ofParts (some t) x).seconds = derivedSeconds t ∨
      (ofParts (some t) x).seconds.isNegative = false := by
  cases hreplaced : x.isNaN || x.isNegative with
  | true =>
    left
    simp only [ofParts, hreplaced, if_true]
  | false =>
    right
    simp only [ofParts, hreplaced, Bool.false_eq_true, if_false]
    exact (Bool.or_eq_false_iff.mp hreplaced).2

theorem date_ofParts (date : Option ZonedTime) (x : Binary64) : (ofParts date x).date = date := by
  cases date with
  | none => rfl
  | some t => rfl

theorem not_isStray_ofParts (date : Option ZonedTime) (x : Binary64) :
    ¬(ofParts date x).IsStray := by
  rintro ⟨t, ht, hnegative, hdiffers⟩
  rw [date_ofParts, Option.mem_def] at ht
  subst ht
  rcases seconds_ofParts_dated t x with hderived | hnonneg
  · rw [hderived, Binary64.numEq_refl (isNaN_derivedSeconds t)] at hdiffers
    cases hdiffers
  · rw [hnegative] at hnonneg
    cases hnonneg

theorem IsBuilt.not_isStray (hs : s.IsBuilt) : ¬s.IsStray := by
  obtain ⟨t, x, rfl⟩ := hs.exists_parts
  exact not_isStray_ofParts t x

theorem IsBuilt.rebuilt?_eq_self (hs : s.IsBuilt) : rebuilt? s = .ok s :=
  rebuilt?_eq_self_iff.mpr ⟨hs.isTimed, hs.not_isStray⟩

theorem isBuilt_of_ofLine {line : List Char} (h : ofLine line = .ok s) : s.IsBuilt :=
  .texts h

/-- Building a stamp again from its own date and seconds gives the same stamp, unless its
seconds are NaN, or are the negative seconds of a date and not those that it derives. No
stamp that is built, or read from a line, is such an exception, so that building twice is
building once. After a chain of moves there are exceptions: where infinite seconds without
a date met an infinite shift of the opposite sign, and stray ones. -/
theorem rebuilding_keeps_normal (s : Stamp) :
    (rebuilt? s = .ok s ↔ s.IsTimed ∧ ¬s.IsStray) ∧
    (s.IsBuilt → s.IsTimed ∧ ¬s.IsStray) ∧
    (∀ line, ofLine line = .ok s → s.IsTimed ∧ ¬s.IsStray) ∧
    (∃ v, rebuilt? s = .ok v ∧ v.date = s.date ∧ rebuilt? v = .ok v) ∧
    ∀ ms, s.IsBuilt → (rebuilt? (s.moved ms) = .ok (s.moved ms) ↔
      ¬(s.date = none ∧ s.ClashesIn ms) ∧ ¬(s.moved ms).IsStray) := by
  have hbuilt {v : Stamp} (hv : v.IsBuilt) : v.IsTimed ∧ ¬v.IsStray :=
    ⟨hv.isTimed, hv.not_isStray⟩
  refine ⟨rebuilt?_eq_self_iff, hbuilt, fun _ h => hbuilt (isBuilt_of_ofLine h), ?twice, ?moved⟩
  case twice =>
    have hv : (ofParts s.date s.seconds).IsBuilt := .offered (rebuilt?_eq s)
    exact ⟨_, rebuilt?_eq s, date_ofParts s.date s.seconds, hv.rebuilt?_eq_self⟩
  case moved =>
    intro ms hs
    rw [rebuilt?_eq_self_iff, IsTimed, Bool.eq_false_iff, Ne, isNaN_moved, hs.isTimed]
    simp only [Bool.false_eq_true, false_or]

/-- An undated stamp of infinite seconds. -/
def endless : Stamp :=
  ⟨none, .infinite false⟩

/-- Infinite seconds that are moved by the opposite infinity, and a date of no seconds that
is moved back by a second, are not built again as they are. -/
theorem moves_escape_building :
    endless.IsBuilt ∧ (nearYearsEnd 0 0).IsBuilt ∧
      rebuilt? (endless.moved [.forward (.double (.infinite true))]) ≠
        .ok (endless.moved [.forward (.double (.infinite true))]) ∧
      rebuilt? ((nearYearsEnd 0 0).moved [.back (.whole 1)]) ≠
        .ok ((nearYearsEnd 0 0).moved [.back (.whole 1)]) := by
  have hendless : endless.IsBuilt := @IsBuilt.offered none (.double (.infinite false)) _ rfl
  have hdated : (nearYearsEnd 0 0).IsBuilt := by
    apply @IsBuilt.offered (some (.zoned (yearsEnd 0))) (.whole 0)
    decide +kernel
  have hclash : endless.ClashesIn [.forward (.double (.infinite true))] :=
    ⟨[], _, [], rfl, false, rfl, rfl⟩
  have hstray : ((nearYearsEnd 0 0).moved [.back (.whole 1)]).IsStray := by
    refine ⟨yearsEnd 1000000, Option.mem_def.mpr ?_, ?_, ?_⟩
    all_goals decide +kernel
  obtain ⟨-, -, -, -, hmoved⟩ := rebuilding_keeps_normal endless
  obtain ⟨hkept, -⟩ := rebuilding_keeps_normal ((nearYearsEnd 0 0).moved [.back (.whole 1)])
  refine ⟨hendless, hdated, ?_, ?_⟩
  · rw [Ne, hmoved _ hendless]
    exact fun h => h.1 ⟨rfl, hclash⟩
  · rw [Ne, hkept]
    exact fun h => h.2 hstray

end Stamp
end HeapChronicle
