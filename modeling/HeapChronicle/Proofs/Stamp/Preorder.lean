import HeapChronicle.Proofs.Stamp.Place

/-!
Sorting by `compare?` is sorting by a total preorder: swapping the sides turns
the answer around, steps that do not go up never add up to one that does, and
the ties are the equal stamps. NaN seconds are excluded, since they are neither
less than nor equal to any others.
-/

namespace HeapChronicle
namespace Stamp

variable {s t : Stamp} {a b c : Option Stamp}

theorem compare?_swap (ha : ∀ s ∈ a, s.IsTimed) (hb : ∀ s ∈ b, s.IsTimed) :
    compare? a b = (compare? b a).swap :=
  (compares_place? ha hb).inj (compares_place? hb ha).swap

theorem isLE_iff_place?_le (ha : ∀ s ∈ a, s.IsTimed) (hb : ∀ s ∈ b, s.IsTimed) :
    (compare? a b).isLE = true ↔ place? a ≤ place? b := by
  rw [← Ordering.ne_gt_iff_isLE]
  exact (compares_place? ha hb).ne_gt

theorem compare?_isLE_trans (ha : ∀ s ∈ a, s.IsTimed) (hb : ∀ s ∈ b, s.IsTimed)
    (hc : ∀ s ∈ c, s.IsTimed) (hab : (compare? a b).isLE = true)
    (hbc : (compare? b c).isLE = true) : (compare? a c).isLE = true := by
  rw [isLE_iff_place?_le ha hb] at hab
  rw [isLE_iff_place?_le hb hc] at hbc
  rw [isLE_iff_place?_le ha hc]
  exact hab.trans hbc

/-- One strict step makes a chain strict. -/
theorem compare?_lt_of_chain (ha : ∀ s ∈ a, s.IsTimed) (hb : ∀ s ∈ b, s.IsTimed)
    (hc : ∀ s ∈ c, s.IsTimed) (hab : (compare? a b).isLE = true)
    (hbc : (compare? b c).isLE = true)
    (hstrict : compare? a b = .lt ∨ compare? b c = .lt) : compare? a c = .lt := by
  rw [isLE_iff_place?_le ha hb] at hab
  rw [isLE_iff_place?_le hb hc] at hbc
  rw [(compares_place? ha hc).eq_lt]
  rcases hstrict with h | h
  · exact ((compares_place? ha hb).eq_lt.mp h).trans_le hbc
  · exact hab.trans_lt ((compares_place? hb hc).eq_lt.mp h)

theorem compareDates_eq_iff {d e : Option ZonedTime} :
    compareDates d e = .eq ↔ d.map ZonedTime.instant = e.map ZonedTime.instant := by
  cases d with
  | none =>
    cases e with
    | none => exact iff_of_true rfl rfl
    | some t => simp [compareDates]
  | some s =>
    cases e with
    | none => simp [compareDates]
    | some t => simp [compareDates, ZonedTime.compare]

theorem same_iff : s.same t = true ↔
    s.date.map ZonedTime.instant = t.date.map ZonedTime.instant ∧
      s.seconds.numEq t.seconds = true := by
  rw [same, Bool.and_eq_true, beq_iff_eq, compareDates_eq_iff]

theorem compare_eq_iff_same (hs : s.IsTimed) (ht : t.IsTimed) :
    s.compare t = .eq ↔ s.same t = true := by
  rw [(compares_place hs ht).eq_eq, same_iff, Binary64.numEq_iff_rank_eq hs ht]
  obtain ⟨d, x⟩ := s
  obtain ⟨e, y⟩ := t
  cases d with
  | none =>
    cases e with
    | none => simp [place, hasDate]
    | some t => simp [place, hasDate]
  | some s =>
    cases e with
    | none => simp [place, hasDate]
    | some t =>
      simp only [place, hasDate, Option.isSome_some, Option.map_some, Option.getD_some,
        EmbeddingLike.apply_eq_iff_eq, Prod.mk.injEq, true_and, Option.some.injEq]
      exact and_comm

theorem compare?_eq_iff_same? (ha : ∀ s ∈ a, s.IsTimed) (hb : ∀ s ∈ b, s.IsTimed) :
    compare? a b = .eq ↔ same? a b = true := by
  cases a with
  | none =>
    cases b with
    | none => exact iff_of_true rfl rfl
    | some t => simp [compare?, same?]
  | some s =>
    cases b with
    | none => simp [compare?, same?]
    | some t => exact compare_eq_iff_same (ha s rfl) (hb t rfl)

theorem compare_dated_undated (hs : s.hasDate = true) (ht : t.hasDate = false) :
    s.compare t = .lt := by
  simp [compare, hs, ht]

/-- The comparison operators read the sign of the comparison. -/
theorem operators_eq : s.lt t = (s.compare t).isLT ∧ s.le t = (s.compare t).isLE ∧
    s.gt t = (s.compare t).isGT ∧ s.ge t = (s.compare t).isGE := by
  unfold lt le gt ge
  cases s.compare t <;> exact ⟨rfl, rfl, rfl, rfl⟩

theorem trichotomy (hs : s.IsTimed) (ht : t.IsTimed) :
    [s.lt t, s.same t, s.gt t].count true = 1 := by
  have hsame : s.same t = (s.compare t == .eq) := by
    rw [Bool.eq_iff_iff, beq_iff_eq]
    exact (compare_eq_iff_same hs ht).symm
  rw [hsame]
  unfold lt gt
  cases s.compare t <;> rfl

/-- Stamps that may be missing stand in a total preorder. Its ties are the equal
stamps: equal seconds, and dates of one instant in any offsets or no dates. It
puts dated stamps before undated ones and a missing stamp last, and the operators
on stamps are its signs. -/
theorem compare?_totalPreorder (ha : ∀ s ∈ a, s.IsTimed) (hb : ∀ s ∈ b, s.IsTimed)
    (hc : ∀ s ∈ c, s.IsTimed) :
    compare? a b = (compare? b a).swap ∧
    ((compare? a b).isLE = true → (compare? b c).isLE = true →
      (compare? a c).isLE = true ∧
        (compare? a b = .lt ∨ compare? b c = .lt → compare? a c = .lt)) ∧
    (compare? a b = .eq ↔ same? a b = true) ∧
    (same? a b = true ↔ a = none ∧ b = none ∨ ∃ s t, a = some s ∧ b = some t ∧
      s.date.map ZonedTime.instant = t.date.map ZonedTime.instant ∧
        s.seconds.numEq t.seconds = true) ∧
    (∀ s t : Stamp, s.hasDate = true → t.hasDate = false →
      compare? (some s) (some t) = .lt ∧ compare? (some t) none = .lt ∧
        compare? (some s) none = .lt) ∧
    (∀ s ∈ a, ∀ t ∈ b,
      s.lt t = (compare? a b).isLT ∧ s.le t = (compare? a b).isLE ∧
        s.gt t = (compare? a b).isGT ∧ s.ge t = (compare? a b).isGE ∧
        [s.lt t, s.same t, s.gt t].count true = 1) := by
  refine ⟨compare?_swap ha hb, ?_, compare?_eq_iff_same? ha hb, ?_, ?_, ?_⟩
  · intro hab hbc
    exact ⟨compare?_isLE_trans ha hb hc hab hbc, compare?_lt_of_chain ha hb hc hab hbc⟩
  · cases a with
    | none => cases b <;> simp [same?]
    | some s =>
      cases b with
      | none => simp [same?]
      | some t => simpa [same?] using same_iff
  · intro s t hs ht
    exact ⟨compare_dated_undated hs ht, rfl, rfl⟩
  · rintro s rfl t rfl
    obtain ⟨hlt, hle, hgt, hge⟩ := operators_eq (s := s) (t := t)
    exact ⟨hlt, hle, hgt, hge, trichotomy (ha s rfl) (hb t rfl)⟩

/-- One instant in two offsets and both signs of zero: the two stamps tie, and
the chain to an undated stamp of the same seconds is strict. -/
theorem atEpoch_ties_before_undated :
    (∀ s ∈ some (atEpoch 1 true), s.IsTimed) ∧ (∀ s ∈ some (atEpoch 0 false), s.IsTimed) ∧
      (∀ s ∈ some (⟨none, .zero⟩ : Stamp), s.IsTimed) ∧
      compare? (some (atEpoch 1 true)) (some (atEpoch 0 false)) = .eq ∧
      compare? (some (atEpoch 1 true)) (some ⟨none, .zero⟩) = .lt := by
  have heast : ∀ s ∈ some (atEpoch 1 true), s.IsTimed := by decide
  have hwest : ∀ s ∈ some (atEpoch 0 false), s.IsTimed := by decide
  have hundated : ∀ s ∈ some (⟨none, .zero⟩ : Stamp), s.IsTimed := by decide
  have horder := compare?_totalPreorder heast hwest hundated
  have htie : compare? (some (atEpoch 1 true)) (some (atEpoch 0 false)) = .eq :=
    horder.2.2.1.mpr (by decide)
  refine ⟨heast, hwest, hundated, htie, ?_⟩
  exact (horder.2.1 (by rw [htie]; rfl) rfl).2 (Or.inr rfl)

end Stamp
end HeapChronicle
