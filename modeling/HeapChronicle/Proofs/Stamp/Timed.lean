import HeapChronicle.Proofs.Binary64.Sum
import HeapChronicle.Proofs.Log.Reading
import HeapChronicle.Proofs.Stamp.Chain
import HeapChronicle.Proofs.Stamp.Derived

/-!
Where NaN seconds come from. No stamp is built with them. A move makes them only
of an undated stamp, and only if its seconds and the shift are infinities of
opposite signs (`isNaN_move`): no date is moved by an infinite shift, so a dated
stamp is then left as it was. Once NaN, seconds stay NaN.
-/

namespace HeapChronicle

/-- The seconds that a move adds. -/
def Move.added : Move → Number
  | .forward x => x
  | .back x => x.neg

theorem Number.toDouble?_eq_infinite_iff {x : Number} {negative : Bool} :
    x.toDouble? = some (.infinite negative) ↔ x = .double (.infinite negative) := by
  cases x with
  | double x => simp [toDouble?]
  | whole n =>
    rw [toDouble?]
    constructor
    · intro h
      split at h
      next hfinite =>
        rw [Option.some.injEq] at h
        rw [h] at hfinite
        cases hfinite
      next => cases h
    · intro h
      cases h

theorem Binary64.orZero_eq_infinite_iff {x : Binary64} {negative : Bool} :
    x.orZero = .infinite negative ↔ x = .infinite negative := by
  cases x with
  | nan => simp [orZero, zero]
  | infinite s => rfl
  | finite s m => rfl

theorem Binary64.isSome_toMicros?_iff {x : Binary64} :
    x.toMicros?.isSome = true ↔ ∀ negative, x ≠ .infinite negative := by
  cases x with
  | nan => simp [toMicros?]
  | infinite s => simp [toMicros?]
  | finite s m => simp [toMicros?]

namespace Stamp

variable {s v : Stamp} {m : Move}

/-- The stamps that can be built: from a date and seconds, or from their texts. -/
inductive IsBuilt : Stamp → Prop where
  | offered {date : Option DateReading} {seconds : Number} {s : Stamp}
      (h : ofOffered date seconds = .ok s) : IsBuilt s
  | iso {date : Option (List Char)} {s : Stamp} (h : readIso date = .ok s) : IsBuilt s
  | texts {date seconds : Option (List Char)} {s : Stamp} (h : read date seconds = .ok s) :
      IsBuilt s

theorem isTimed_ofParts (date : Option ZonedTime) (x : Binary64) : (ofParts date x).IsTimed := by
  cases date with
  | none => exact Binary64.isNaN_orZero x
  | some t =>
    rw [ofParts, isTimed_dated]
    split
    next => exact isNaN_derivedSeconds t
    next hkept =>
      rw [Bool.or_eq_true, not_or, Bool.not_eq_true] at hkept
      exact hkept.1

theorem exists_parts_of_ofOffered {date : Option DateReading} {seconds : Number}
    (h : ofOffered date seconds = .ok s) : ∃ t x, s = ofParts t x := by
  unfold ofOffered at h
  split at h
  · cases h
  · cases h
  · exact ⟨_, _, (Except.ok.inj h).symm⟩
  · exact ⟨_, _, (Except.ok.inj h).symm⟩

theorem exists_parts_of_readIso {date : Option (List Char)} (h : readIso date = .ok s) :
    ∃ t x, s = ofParts t x := by
  rw [readIso] at h
  cases hdate : readDate? date with
  | error e => simp [hdate, bind, Except.bind] at h
  | ok t =>
    rw [hdate] at h
    exact ⟨t, .nan, (Except.ok.inj h).symm⟩

theorem IsBuilt.exists_parts (hs : s.IsBuilt) : ∃ t x, s = ofParts t x := by
  cases hs with
  | offered h => exact exists_parts_of_ofOffered h
  | iso h => exact exists_parts_of_readIso h
  | texts h =>
    obtain ⟨t, x, -, -, hs⟩ := read_eq_ok_iff.mp h
    exact ⟨t, x, hs⟩

theorem IsBuilt.isTimed (hs : s.IsBuilt) : s.IsTimed := by
  obtain ⟨t, x, rfl⟩ := hs.exists_parts
  exact isTimed_ofParts t x

/-- Infinite seconds meet an infinite shift of the opposite sign. -/
def Clashes (s : Stamp) (m : Move) : Prop :=
  ∃ negative, s.seconds = .infinite negative ∧ m.added = .double (.infinite !negative)

theorem move?_eq_add? (s : Stamp) (m : Move) : s.move? m = s.add? m.added := by
  cases m with
  | forward x => rfl
  | back x => rfl

/-- Without a date only the seconds move, also by infinite shifts. -/
theorem move?_of_undated (hs : s.date = none) :
    s.move? m = m.added.toDouble?.map fun x => ⟨none, s.seconds.add x.orZero⟩ := by
  rw [move?_eq_add?, add?]
  cases m.added.toDouble? with
  | none => rfl
  | some x => simp [shift?, hs]

theorem isNaN_move_of_undated (hs : s.date = none) :
    (s.move m).seconds.isNaN = true ↔ s.seconds.isNaN = true ∨ s.Clashes m := by
  have hmove := move?_of_undated (m := m) hs
  simp only [Clashes, ← Number.toDouble?_eq_infinite_iff]
  cases hx : m.added.toDouble? with
  | none =>
    rw [hx] at hmove
    rw [move_eq_self hmove]
    simp
  | some x =>
    rw [hx] at hmove
    rw [move_eq_of_some hmove, Binary64.isNaN_add_iff, Binary64.isNaN_orZero]
    simp [Binary64.orZero_eq_infinite_iff]

theorem move?_of_dated (hs : s.hasDate = true) (hv : s.move? m = some v) :
    ∃ x : Binary64, (∀ negative, x ≠ .infinite negative) ∧ v.seconds = s.seconds.add x.orZero := by
  obtain ⟨t, hs⟩ := Option.isSome_iff_exists.mp hs
  rw [move?_eq_add?, add?, Option.bind_eq_some_iff] at hv
  obtain ⟨x, -, hv⟩ := hv
  simp only [shift?, hs, Option.bind_eq_bind, Option.bind_eq_some_iff] at hv
  obtain ⟨micros, hmicros, u, -, hv⟩ := hv
  refine ⟨x, ?_, ?_⟩
  · rw [← Binary64.isSome_toMicros?_iff, hmicros]
    rfl
  · cases hv
    rfl

theorem isNaN_move_of_dated (hs : s.hasDate = true) :
    (s.move m).seconds.isNaN = true ↔ s.seconds.isNaN = true := by
  cases hv : s.move? m with
  | none => rw [move_eq_self hv]
  | some v =>
    obtain ⟨x, hx, hsum⟩ := move?_of_dated hs hv
    rw [move_eq_of_some hv, hsum, Binary64.isNaN_add_iff, Binary64.isNaN_orZero]
    simp [Binary64.orZero_eq_infinite_iff, hx]

theorem isNaN_move (s : Stamp) (m : Move) : (s.move m).seconds.isNaN = true ↔
    s.seconds.isNaN = true ∨ s.date = none ∧ s.Clashes m := by
  cases hs : s.date with
  | none => simpa using isNaN_move_of_undated hs
  | some t =>
    have hdated : s.hasDate = true := by rw [hasDate, hs, Option.isSome_some]
    simpa using isNaN_move_of_dated hdated

/-- Finite and NaN shifts make no NaN. -/
theorem isTimed_add? {x : Number} (hs : s.IsTimed)
    (hx : ∀ negative, x ≠ .double (.infinite negative)) (hv : s.add? x = some v) :
    v.IsTimed := by
  have hmove : s.move (.forward x) = v := move_eq_of_some hv
  rw [IsTimed, ← hmove, Bool.eq_false_iff, Ne, isNaN_move]
  rintro (hnan | ⟨-, negative, -, hshift⟩)
  · exact Bool.eq_false_iff.mp hs hnan
  · exact hx _ hshift

/-- A clash somewhere in a chain of moves. -/
def ClashesIn (s : Stamp) (ms : List Move) : Prop :=
  ∃ before m after, ms = before ++ m :: after ∧ (s.moved before).Clashes m

theorem not_clashesIn_nil (s : Stamp) : ¬s.ClashesIn [] := by
  rintro ⟨before, m, after, happend, -⟩
  cases before with
  | nil => cases happend
  | cons first before => cases happend

theorem clashesIn_cons {ms : List Move} :
    s.ClashesIn (m :: ms) ↔ s.Clashes m ∨ (s.move m).ClashesIn ms := by
  constructor
  · rintro ⟨before, n, after, happend, hclash⟩
    cases before with
    | nil =>
      cases happend
      exact .inl hclash
    | cons first before =>
      cases happend
      exact .inr ⟨before, n, after, rfl, hclash⟩
  · rintro (hclash | ⟨before, n, after, rfl, hclash⟩)
    · exact ⟨[], m, ms, rfl, hclash⟩
    · exact ⟨m :: before, n, after, rfl, hclash⟩

theorem offset_moved (s : Stamp) (ms : List Move) :
    (s.moved ms).date.map ZonedTime.offset = s.date.map ZonedTime.offset := by
  cases hs : s.date with
  | none => rw [date_moved_of_undated hs]
  | some t =>
    obtain ⟨u, hu, hshift⟩ := shift?_moved hs ms
    rw [hu, Option.map_some, Option.map_some, (ZonedTime.shift?_eq_some_iff.mp hshift).1]

theorem hasDate_moved (s : Stamp) (ms : List Move) : (s.moved ms).hasDate = s.hasDate := by
  have hoffset := congrArg Option.isSome (offset_moved s ms)
  rwa [Option.isSome_map, Option.isSome_map] at hoffset

theorem date_moved_eq_none_iff (s : Stamp) (ms : List Move) :
    (s.moved ms).date = none ↔ s.date = none := by
  rw [← Option.not_isSome_iff_eq_none, ← Option.not_isSome_iff_eq_none]
  exact not_congr (Bool.eq_iff_iff.mp (hasDate_moved s ms))

/-- NaN at the end was there from the beginning, or comes from a clash on the way
of a stamp without a date. -/
theorem isNaN_moved (s : Stamp) (ms : List Move) : (s.moved ms).seconds.isNaN = true ↔
    s.seconds.isNaN = true ∨ s.date = none ∧ s.ClashesIn ms := by
  induction ms generalizing s with
  | nil =>
    rw [or_iff_left (fun hclash => not_clashesIn_nil s hclash.2)]
    rfl
  | cons m ms ih =>
    have hdate : (s.move m).date = none ↔ s.date = none := date_moved_eq_none_iff s [m]
    rw [clashesIn_cons, and_or_left, ← or_assoc, ← isNaN_move, ← hdate]
    exact ih (s.move m)

/-- A clash takes an infinite shift. -/
theorem not_clashesIn_of_not_infinite {ms : List Move}
    (h : ∀ m ∈ ms, ∀ negative, m.added ≠ .double (.infinite negative)) : ¬s.ClashesIn ms := by
  rintro ⟨before, m, after, rfl, negative, -, hshift⟩
  exact h m (List.mem_append_right before List.mem_cons_self) _ hshift

/-- A stamp is built with seconds that are not NaN. After any chain of moves, where
one that cannot be made is skipped, they are NaN exactly if the stamp has no date
and infinite seconds met an infinite shift of the opposite sign on the way. So a
dated stamp never has NaN seconds, and no stamp gets them from shifts that are
finite or NaN. A chain neither adds nor removes a date, nor does it change its
offset. -/
theorem isNaN_moved_iff_clash (hs : s.IsBuilt) (ms : List Move) :
    s.IsTimed ∧
    ((s.moved ms).seconds.isNaN = true ↔ s.date = none ∧ s.ClashesIn ms) ∧
    (s.hasDate = true → (s.moved ms).IsTimed) ∧
    ((∀ m ∈ ms, ∀ negative, m.added ≠ .double (.infinite negative)) → (s.moved ms).IsTimed) ∧
    (s.moved ms).hasDate = s.hasDate ∧
    (s.moved ms).date.map ZonedTime.offset = s.date.map ZonedTime.offset := by
  have htimed := hs.isTimed
  have hnan : (s.moved ms).seconds.isNaN = true ↔ s.date = none ∧ s.ClashesIn ms := by
    rw [isNaN_moved, htimed]
    simp
  have hkept (h : ¬(s.date = none ∧ s.ClashesIn ms)) : (s.moved ms).IsTimed := by
    rwa [IsTimed, Bool.eq_false_iff, Ne, hnan]
  refine ⟨htimed, hnan, ?_, ?_, hasDate_moved s ms, offset_moved s ms⟩
  · intro hdated
    apply hkept
    rintro ⟨hundated, -⟩
    rw [hasDate, hundated] at hdated
    cases hdated
  · intro hshifts
    apply hkept
    rintro ⟨-, hclash⟩
    exact not_clashesIn_of_not_infinite hshifts hclash

/-- An undated stamp of so many seconds that they become infinite when doubled. -/
def farthest : Stamp :=
  ⟨none, .ofInt (10 ^ 308)⟩

/-- A finite shift makes the seconds infinite, and an infinite one then makes them
NaN. -/
theorem farthest_clashes :
    farthest.IsBuilt ∧
      (farthest.moved [.forward (.whole (10 ^ 308))]).IsTimed ∧
      (farthest.moved
        [.forward (.whole (10 ^ 308)), .back (.double (.infinite false))]).seconds.isNaN = true := by
  have hbuilt : farthest.IsBuilt := by
    apply @IsBuilt.offered none (.whole (10 ^ 308))
    decide +kernel
  have hover : (farthest.moved [.forward (.whole (10 ^ 308))]).seconds = .infinite false := by
    decide +kernel
  refine ⟨hbuilt, ?_, ?_⟩
  · rw [IsTimed, hover]
    rfl
  · apply (isNaN_moved_iff_clash hbuilt _).2.1.mpr
    exact ⟨rfl, [.forward (.whole (10 ^ 308))], _, [], rfl, false, hover, rfl⟩

end Stamp
end HeapChronicle
