import HeapChronicle.Proofs.Log.Span
import HeapChronicle.Proofs.Stamp.Preorder
import HeapChronicle.Proofs.Stamp.Timed

/-!
Equal stamps are interchangeable. They may have their dates in different offsets
and their zeros with different signs, and yet nothing that is computed from a stamp
tells them apart. `Alike` is equality without its exception for NaN, so that every
stamp is alike to itself and the stamps around equal ones may be any.
-/

namespace HeapChronicle

namespace Stamp

variable {s t s' t' v w : Stamp}

/-- Stamps of one instant, or without dates, whose seconds agree. -/
inductive Alike : Stamp → Stamp → Prop where
  | undated {x y : Binary64} (seconds : x.Agrees y) : Alike ⟨none, x⟩ ⟨none, y⟩
  | dated {d e : ZonedTime} {x y : Binary64} (instant : d.instant = e.instant)
      (seconds : x.Agrees y) : Alike ⟨some d, x⟩ ⟨some e, y⟩

namespace Alike

theorem refl (s : Stamp) : s.Alike s := by
  obtain ⟨date, x⟩ := s
  cases date with
  | none => exact .undated (.refl x)
  | some d => exact .dated rfl (.refl x)

theorem symm (h : s.Alike t) : t.Alike s := by
  cases h with
  | undated hx => exact .undated hx.symm
  | dated hd hx => exact .dated hd.symm hx.symm

theorem seconds_agree (h : s.Alike t) : s.seconds.Agrees t.seconds := by
  cases h with
  | undated hx => exact hx
  | dated hd hx => exact hx

/-- Equal stamps are alike, and of stamps that are alike only those with NaN seconds
are not equal. -/
theorem iff_same (hs : s.IsTimed) : s.Alike t ↔ s.same t = true := by
  rw [same_iff]
  constructor
  · intro h
    cases h with
    | undated hx => exact ⟨rfl, hx.numEq_of_isNaN hs⟩
    | dated hd hx => exact ⟨congrArg some hd, hx.numEq_of_isNaN hs⟩
  · rintro ⟨hdates, hseconds⟩
    obtain ⟨date, x⟩ := s
    obtain ⟨date', y⟩ := t
    cases date with
    | none =>
      cases date' with
      | none => exact .undated (.inl hseconds)
      | some e => cases hdates
    | some d =>
      cases date' with
      | none => cases hdates
      | some e => exact .dated (Option.some.inj hdates) (.inl hseconds)

theorem compare_eq (hs : s.Alike s') (ht : t.Alike t') : s.compare t = s'.compare t' := by
  cases hs with
  | undated hx =>
    cases ht with
    | undated hy =>
      simp only [Stamp.compare, hasDate, hx.numEq hy, hx.lt hy]
      rfl
    | dated he hy => rfl
  | dated hd hx =>
    cases ht with
    | undated hy => rfl
    | dated he hy =>
      simp only [Stamp.compare, hasDate, hx.numEq hy, hx.lt hy, compareDates, ZonedTime.compare,
        hd, he, Option.isSome_some]

theorem isAfter_eq (hs : s.Alike s') (ht : t.Alike t') : s.isAfter t = s'.isAfter t' := by
  have hseconds := ht.seconds_agree.orZero.lt hs.seconds_agree
  cases hs with
  | undated hx =>
    cases ht with
    | undated hy => exact hseconds
    | dated he hy => exact hseconds
  | dated hd hx =>
    cases ht with
    | undated hy => exact hseconds
    | dated he hy => simp only [isAfter, ZonedTime.compare, hd, he, hseconds]

theorem isBefore_eq (hs : s.Alike s') (ht : t.Alike t') : s.isBefore t = s'.isBefore t' :=
  congrArg (!·) (hs.isAfter_eq ht)

theorem isAfterSeconds?_eq (h : s.Alike t) (x : Number) :
    s.isAfterSeconds? x = t.isAfterSeconds? x := by
  rw [isAfterSeconds?, isAfterSeconds?, h.seconds_agree.gtNumber]

theorem isBeforeSeconds?_eq (h : s.Alike t) (x : Number) :
    s.isBeforeSeconds? x = t.isBeforeSeconds? x := by
  rw [isBeforeSeconds?, isBeforeSeconds?, h.seconds_agree.ltNumber]

theorem compareDate_eq (h : s.Alike t) (date : Option DateReading) :
    s.compareDate date = t.compareDate date := by
  cases h with
  | undated hx => rfl
  | dated hd hx =>
    rcases date with - | ⟨zoned | zoneless⟩
    · rfl
    · simp only [compareDate, compareDates, ZonedTime.compare, hd]
    · rfl

theorem secondsSince (hs : s.Alike s') (ht : t.Alike t') :
    (s.secondsSince t).Agrees (s'.secondsSince t') :=
  hs.seconds_agree.sub ht.seconds_agree

theorem minutesSince (hs : s.Alike s') (ht : t.Alike t') :
    (s.minutesSince t).Agrees (s'.minutesSince t') :=
  (hs.secondsSince ht).scaleDown 60

theorem epochMillis_eq (h : s.Alike t) : s.epochMillis = t.epochMillis := by
  cases h with
  | undated hx => rfl
  | dated hd hx => simp only [epochMillis, wholeSeconds, partMicros, hd]

theorem shift? {x : Binary64} (h : s.Alike t) (hv : s.shift? x = some v)
    (hw : t.shift? x = some w) : v.Alike w := by
  cases h with
  | undated hx =>
    cases hv
    cases hw
    exact .undated (hx.add_left _)
  | dated hd hx =>
    simp only [Stamp.shift?, Option.bind_eq_bind, Option.bind_eq_some_iff] at hv hw
    obtain ⟨micros, hmicros, d, hshift, hv⟩ := hv
    obtain ⟨micros', hmicros', e, hshift', hw⟩ := hw
    obtain rfl : micros = micros' := Option.some.inj (hmicros.symm.trans hmicros')
    cases hv
    cases hw
    apply Alike.dated
    · rw [ZonedTime.instant_of_shift? hshift, ZonedTime.instant_of_shift? hshift', hd]
    · exact hx.add_left _

theorem add? {x : Number} (h : s.Alike t) (hv : s.add? x = some v) (hw : t.add? x = some w) :
    v.Alike w := by
  rw [Stamp.add?, Option.bind_eq_some_iff] at hv hw
  obtain ⟨y, hy, hv⟩ := hv
  obtain ⟨z, hz, hw⟩ := hw
  obtain rfl : y = z := Option.some.inj (hy.symm.trans hz)
  exact h.shift? hv hw

end Alike

/-- The number of seconds takes the date of the stamp out of the calendar, by its
own local time. -/
def LeavesCalendar (s : Stamp) (x : Number) : Prop :=
  ∃ t, s.date = some t ∧
    ((t.wall.micros : Int) + x.micros < 0 ∨ (LocalTime.limit : Int) ≤ t.wall.micros + x.micros)

/-- Of two stamps that are alike only the calendar holds one back. -/
theorem Alike.leavesCalendar {x : Number} (h : s.Alike t) (hv : s.add? x = some v)
    (ht : t.add? x = none) : t.LeavesCalendar x := by
  cases h with
  | @undated y z hx =>
    have hs := (add?_eq_some_of_undated (s := ⟨none, y⟩) rfl hv).1
    have hdate := date_add?_of_undated (s := ⟨none, z⟩) (x := x) rfl
    rw [ht, Option.map_none, eq_comm, Option.map_eq_none_iff] at hdate
    rw [hdate] at hs
    cases hs
  | @dated d e y z hd hx =>
    obtain ⟨-, -, hmicros, -⟩ := add?_eq_some (s := ⟨some d, y⟩) rfl hv
    have hdate := date_add? (s := ⟨some e, z⟩) (x := x) rfl
    rw [ht, hmicros, Option.map_none, Option.bind_some, eq_comm, Option.map_eq_none_iff] at hdate
    exact ⟨e, rfl, ZonedTime.shift?_eq_none_iff.mp hdate⟩

variable {l l' : List Stamp}

theorem Alike.instants?_eq (h : List.Forall₂ Alike l l') :
    Log.instants? l = Log.instants? l' := by
  induction h with
  | nil => rfl
  | cons hfirst hrest ih =>
    rw [Log.instants?_cons, Log.instants?_cons, ih]
    cases hfirst with
    | undated hx => rfl
    | dated hd hx => rw [Option.map_some, Option.map_some, hd]

theorem Alike.span (h : List.Forall₂ Alike l l') : (Log.span l).Agrees (Log.span l') := by
  cases h with
  | nil => exact .refl _
  | @cons s s' l l' hfirst hrest =>
    have hseconds : List.Forall₂ Binary64.Agrees (l.map Stamp.seconds) (l'.map Stamp.seconds) := by
      apply List.rel_map _ hrest
      exact fun t t' h => h.seconds_agree
    have hinstants := instants?_eq hrest
    cases hrest with
    | nil => exact .refl _
    | @cons t t' l l' hsecond hrest =>
      have hspan := Log.secondsSpan_agrees hfirst.seconds_agree hseconds
      rw [Log.span_cons_cons, Log.span_cons_cons, hinstants]
      cases hfirst with
      | undated hx => exact hspan
      | dated hd hx =>
        simp only [Option.map_some, hd]
        split
        · exact .refl _
        · exact hspan

theorem isTimed_of_same (h : s.same t = true) : s.IsTimed :=
  Binary64.isNaN_of_numEq (same_iff.mp h).2

/-- Equal stamps are interchangeable. Sorting does not tell them apart, nor does any
other comparison with a stamp, a number or a date. Distances from them are
numerically equal or both NaN, and so are the spans of logs in which one stands for
the other anywhere. Moved by a number that is not infinite they stay equal, unless
the local time of one of them leaves the calendar. -/
theorem same_interchangeable {a b : Stamp} (h : a.same b = true) :
    (∀ c : Option Stamp,
      compare? (some a) c = compare? (some b) c ∧ compare? c (some a) = compare? c (some b)) ∧
    (∀ c : Stamp,
      a.isBefore c = b.isBefore c ∧ a.isAfter c = b.isAfter c ∧
      c.isBefore a = c.isBefore b ∧ c.isAfter a = c.isAfter b ∧
      (a.secondsSince c).Agrees (b.secondsSince c) ∧
      (a.minutesSince c).Agrees (b.minutesSince c)) ∧
    (∀ x : Number,
      a.isBeforeSeconds? x = b.isBeforeSeconds? x ∧ a.isAfterSeconds? x = b.isAfterSeconds? x) ∧
    (∀ date : Option DateReading, a.compareDate date = b.compareDate date) ∧
    a.epochMillis.Agrees b.epochMillis ∧
    (∀ l l' : List Stamp, List.Forall₂ (fun s t => s = t ∨ s = a ∧ t = b) l l' →
      (Log.span l).Agrees (Log.span l')) ∧
    ∀ x : Number, (∀ negative, x ≠ .double (.infinite negative)) →
      (∀ v w, a.add? x = some v → b.add? x = some w → v.same w = true) ∧
      (∀ v, a.add? x = some v → b.add? x = none → b.LeavesCalendar x) ∧
      (∀ w, a.add? x = none → b.add? x = some w → a.LeavesCalendar x) := by
  have htimed : a.IsTimed := isTimed_of_same h
  have halike : a.Alike b := (Alike.iff_same htimed).mpr h
  refine ⟨?_, ?_, ?_, halike.compareDate_eq, ?_, ?_, ?_⟩
  · rintro (- | c)
    · exact ⟨rfl, rfl⟩
    · exact ⟨halike.compare_eq (.refl c), (Alike.refl c).compare_eq halike⟩
  · intro c
    have hc := Alike.refl c
    exact ⟨halike.isBefore_eq hc, halike.isAfter_eq hc, hc.isBefore_eq halike,
      hc.isAfter_eq halike, halike.secondsSince hc, halike.minutesSince hc⟩
  · intro x
    exact ⟨halike.isBeforeSeconds?_eq x, halike.isAfterSeconds?_eq x⟩
  · rw [halike.epochMillis_eq]
    exact .refl _
  · intro l l' hl
    apply Alike.span
    apply hl.imp
    rintro s t (rfl | ⟨rfl, rfl⟩)
    · exact .refl s
    · exact halike
  · intro x hx
    refine ⟨?_, ?_, ?_⟩
    · intro v w hv hw
      exact (Alike.iff_same (isTimed_add? htimed hx hv)).mp (halike.add? hv hw)
    · intro v hv hb
      exact halike.leavesCalendar hv hb
    · intro w ha hw
      exact halike.symm.leavesCalendar hw ha

private theorem west_in_day (west : Fin 24) :
    -86400 < -((west.val : Int) * 3600) ∧ -((west.val : Int) * 3600) < 86400 := by
  omega

/-- The last microsecond of the year 9999 at UTC, on a clock some hours west of it,
with zero seconds of either sign. -/
def atYearsEnd (west : Fin 24) (negative : Bool) : Stamp where
  date := some
    { wall := (yearsEnd (west.val * 3600000000)).wall
      offset := -((west.val : Int) * 3600)
      offset_gt := (west_in_day west).1
      offset_lt := (west_in_day west).2 }
  seconds := .finite negative .zero

/-- A second takes one of two equal stamps out of the calendar, where the other one
still has an hour to go; a second back takes them to equal stamps. -/
theorem atYearsEnd_interchangeable :
    (atYearsEnd 0 true).same (atYearsEnd 1 false) = true ∧
      (atYearsEnd 0 true).add? (.whole 1) = none ∧
      ((atYearsEnd 1 false).add? (.whole 1)).isSome = true ∧
      (atYearsEnd 0 true).LeavesCalendar (.whole 1) ∧
      ∃ v w, (atYearsEnd 0 true).add? (.whole (-1)) = some v ∧
        (atYearsEnd 1 false).add? (.whole (-1)) = some w ∧ v.same w = true := by
  have hsame : (atYearsEnd 0 true).same (atYearsEnd 1 false) = true := by decide +kernel
  have hnone : (atYearsEnd 0 true).add? (.whole 1) = none := by decide +kernel
  have hsome : ((atYearsEnd 1 false).add? (.whole 1)).isSome = true := by decide +kernel
  have hback : ((atYearsEnd 0 true).add? (.whole (-1))).isSome = true := by decide +kernel
  have hback' : ((atYearsEnd 1 false).add? (.whole (-1))).isSome = true := by decide +kernel
  obtain ⟨next, hnext⟩ := Option.isSome_iff_exists.mp hsome
  obtain ⟨v, hv⟩ := Option.isSome_iff_exists.mp hback
  obtain ⟨w, hw⟩ := Option.isSome_iff_exists.mp hback'
  obtain ⟨-, -, -, -, -, -, hadd⟩ := same_interchangeable hsame
  have hwhole (n : Int) (negative : Bool) : Number.whole n ≠ .double (.infinite negative) := by
    intro h
    cases h
  refine ⟨hsame, hnone, hsome, ?_, v, w, hv, hw, ?_⟩
  · exact (hadd (.whole 1) (hwhole 1)).2.2 next hnone hnext
  · exact (hadd (.whole (-1)) (hwhole (-1))).1 v w hv hw

end Stamp
end HeapChronicle
