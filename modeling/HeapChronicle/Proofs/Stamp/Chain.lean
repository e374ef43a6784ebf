import Mathlib
import HeapChronicle.Proofs.Binary64.Negation

/-!
The date after a chain of moves. A move that can be made shifts the date by a
count of microseconds that depends on its seconds alone, so the date after any
chain is shifted by the sum over the moves that were made (`shift?_moved`): no
error builds up, the order does not matter, and a move can be taken back.
-/

namespace HeapChronicle

theorem LocalTime.shift?_eq_some_iff {t u : LocalTime} {micros : Int} :
    t.shift? micros = some u ↔ (u.micros : Int) = t.micros + micros := by
  obtain ⟨count, hlimit⟩ := u
  rw [shift?]
  split
  next hrange =>
    simp only [Option.some.injEq, LocalTime.mk.injEq]
    omega
  next hrange =>
    -- A local time is never past the limit, so there is none so far away.
    refine iff_of_false (Option.some_ne_none _).symm ?_
    simp only
    omega

namespace ZonedTime

variable {t u v : ZonedTime} {micros further : Int}

theorem shift?_eq_some_iff :
    t.shift? micros = some u ↔
      u.offset = t.offset ∧ (u.wall.micros : Int) = t.wall.micros + micros := by
  rw [shift?, Option.map_eq_some_iff]
  constructor
  · rintro ⟨wall, hwall, rfl⟩
    exact ⟨rfl, LocalTime.shift?_eq_some_iff.mp hwall⟩
  · rintro ⟨hoffset, hmicros⟩
    refine ⟨u.wall, LocalTime.shift?_eq_some_iff.mpr hmicros, ?_⟩
    simp only [← hoffset]

/-- A time is not moved past either end of the calendar. -/
theorem shift?_eq_none_iff : t.shift? micros = none ↔
    (t.wall.micros : Int) + micros < 0 ∨ (LocalTime.limit : Int) ≤ t.wall.micros + micros := by
  rw [shift?, Option.map_eq_none_iff, LocalTime.shift?]
  split
  next hrange =>
    refine iff_of_false (Option.some_ne_none _) ?_
    omega
  next hrange =>
    refine iff_of_true rfl ?_
    omega

theorem instant_of_shift? (h : t.shift? micros = some u) : u.instant = t.instant + micros := by
  obtain ⟨hoffset, hwall⟩ := shift?_eq_some_iff.mp h
  rw [instant, instant, hoffset, hwall]
  omega

theorem shift?_zero : t.shift? 0 = some t :=
  shift?_eq_some_iff.mpr ⟨rfl, (Int.add_zero _).symm⟩

theorem shift?_add (hu : t.shift? micros = some u) (hv : u.shift? further = some v) :
    t.shift? (micros + further) = some v := by
  rw [shift?_eq_some_iff] at *
  exact ⟨hv.1.trans hu.1, by omega⟩

theorem shift?_neg (hu : t.shift? micros = some u) : u.shift? (-micros) = some t := by
  rw [shift?_eq_some_iff] at *
  exact ⟨hu.1.symm, by omega⟩

end ZonedTime

/-- The microseconds of a number of seconds, none of them counting as zero. -/
def Number.micros (x : Number) : Int :=
  x.toMicros?.getD 0

theorem Number.micros_neg (x : Number) : x.neg.micros = -x.micros := by
  rw [micros, micros, toMicros?_neg]
  cases x.toMicros? with
  | none => rfl
  | some micros => rfl

/-- Halves of a microsecond go to the even count on both sides of zero. -/
example : [1, 3, 5].map (fun halves => (Number.double (.ofQuotient false halves 2000000)).micros) =
      [0, 2, 2] ∧
    [1, 3, 5].map (fun halves => (Number.double (.ofQuotient true halves 2000000)).micros) =
      [0, -2, -2] := by decide +kernel

def Move.micros : Move → Int
  | .forward x => x.micros
  | .back x => -x.micros

namespace Stamp

variable {s v : Stamp} {t : ZonedTime} {x : Number} {m : Move} {ms : List Move}

/-- A dated stamp moves exactly if its date does, whatever its seconds. -/
theorem date_add? (hs : s.date = some t) :
    (s.add? x).map Stamp.date = (x.toMicros?.bind t.shift?).map some := by
  rw [add?, Number.toMicros?]
  cases x.toDouble? with
  | none => rfl
  | some y =>
    simp only [Option.bind_some, shift?, hs]
    cases y.toMicros? with
    | none => rfl
    | some micros =>
      cases h : t.shift? micros with
      | none => simp [h]
      | some u => simp [h]

theorem add?_eq_some (hs : s.date = some t) (hv : s.add? x = some v) :
    ∃ u, v.date = some u ∧ x.toMicros? = some x.micros ∧ t.shift? x.micros = some u := by
  have hdate := date_add? (x := x) hs
  rw [hv, Option.map_some, eq_comm, Option.map_eq_some_iff] at hdate
  obtain ⟨u, hu, hdate⟩ := hdate
  obtain ⟨micros, hmicros, hu⟩ := Option.bind_eq_some_iff.mp hu
  have hsame : x.micros = micros := by rw [Number.micros, hmicros, Option.getD_some]
  rw [hsame]
  exact ⟨u, hdate.symm, hmicros, hu⟩

theorem move?_eq_some (hs : s.date = some t) (hv : s.move? m = some v) :
    ∃ u, v.date = some u ∧ t.shift? m.micros = some u := by
  cases m with
  | forward x =>
    obtain ⟨u, hu, -, hshift⟩ := add?_eq_some hs hv
    exact ⟨u, hu, hshift⟩
  | back x =>
    obtain ⟨u, hu, -, hshift⟩ := add?_eq_some hs hv
    rw [Number.micros_neg] at hshift
    exact ⟨u, hu, hshift⟩

theorem move_eq_self (hv : s.move? m = none) : s.move m = s := by
  rw [move, hv, Option.getD_none]

theorem move_eq_of_some (hv : s.move? m = some v) : s.move m = v := by
  rw [move, hv, Option.getD_some]

/-- An undated stamp moves as long as the seconds fit in a double. -/
theorem date_add?_of_undated (hs : s.date = none) :
    (s.add? x).map Stamp.date = x.toDouble?.map fun _ => none := by
  rw [add?]
  cases x.toDouble? with
  | none => rfl
  | some y => simp [shift?, hs]

theorem add?_eq_some_of_undated (hs : s.date = none) (hv : s.add? x = some v) :
    x.toDouble?.isSome = true ∧ v.date = none := by
  have hdate := date_add?_of_undated (x := x) hs
  rw [hv, Option.map_some, eq_comm, Option.map_eq_some_iff] at hdate
  obtain ⟨y, hy, hdate⟩ := hdate
  rw [hy]
  exact ⟨rfl, hdate.symm⟩

/-- Moving back what was moved forward succeeds and restores the date. -/
theorem add?_neg (hv : s.add? x = some v) : ∃ u, v.add? x.neg = some u ∧ u.date = s.date := by
  cases hs : s.date with
  | some t =>
    obtain ⟨moved, hmoved, hmicros, hshift⟩ := add?_eq_some hs hv
    have hdate := date_add? (x := x.neg) hmoved
    rw [Number.toMicros?_neg, hmicros, Option.map_some, Option.bind_some,
      ZonedTime.shift?_neg hshift] at hdate
    exact Option.map_eq_some_iff.mp hdate
  | none =>
    obtain ⟨hfits, hmoved⟩ := add?_eq_some_of_undated hs hv
    rw [← Number.isSome_toDouble?_neg] at hfits
    obtain ⟨y, hy⟩ := Option.isSome_iff_exists.mp hfits
    have hdate := date_add?_of_undated (x := x.neg) hmoved
    rw [hy, Option.map_some] at hdate
    exact Option.map_eq_some_iff.mp hdate

/-- The stamp after some moves in a row. -/
def moved (s : Stamp) (ms : List Move) : Stamp :=
  ms.foldl move s

/-- Those of some moves in a row that can be made, each where the ones before it
have led. -/
def made (s : Stamp) (ms : List Move) : List Move :=
  ((ms.zip (s.trail ms)).filter fun (_, result) => result.isSome).map Prod.fst

theorem made_cons_of_some (hv : s.move? m = some v) :
    s.made (m :: ms) = m :: v.made ms := by
  rw [made, trail, List.zip_cons_cons, List.filter_cons_of_pos (by rw [hv]; rfl),
    move_eq_of_some hv]
  rfl

theorem made_cons_of_none (hv : s.move? m = none) : s.made (m :: ms) = s.made ms := by
  rw [made, trail, List.zip_cons_cons, List.filter_cons_of_neg (by simp [hv]), move_eq_self hv]
  rfl

theorem made_eq_self (h : ∀ result ∈ s.trail ms, result.isSome = true) : s.made ms = ms := by
  induction ms generalizing s with
  | nil => rfl
  | cons m ms ih =>
    rw [trail, List.forall_mem_cons] at h
    obtain ⟨v, hv⟩ := Option.isSome_iff_exists.mp h.1
    rw [move_eq_of_some hv] at h
    rw [made_cons_of_some hv, ih h.2]

/-- The moves that were made add up. -/
theorem shift?_moved (hs : s.date = some t) (ms : List Move) :
    ∃ u, (s.moved ms).date = some u ∧ t.shift? ((s.made ms).map Move.micros).sum = some u := by
  induction ms generalizing s t with
  | nil => exact ⟨t, hs, ZonedTime.shift?_zero⟩
  | cons m ms ih =>
    rw [moved, List.foldl_cons, move]
    cases hv : s.move? m with
    | none =>
      rw [made_cons_of_none hv, Option.getD_none]
      exact ih hs
    | some v =>
      obtain ⟨next, hnext, hshift⟩ := move?_eq_some hs hv
      obtain ⟨u, hu, hrest⟩ := ih hnext
      rw [made_cons_of_some hv, Option.getD_some, List.map_cons, List.sum_cons]
      exact ⟨u, hu, ZonedTime.shift?_add hshift hrest⟩

theorem date_moved_of_undated (hs : s.date = none) (ms : List Move) :
    (s.moved ms).date = none := by
  induction ms generalizing s with
  | nil => exact hs
  | cons m ms ih =>
    have hmove (x : Number) : ((s.add? x).getD s).date = none := by
      cases hv : s.add? x with
      | none => exact hs
      | some v => exact (add?_eq_some_of_undated hs hv).2
    cases m with
    | forward x => exact ih (hmove x)
    | back x => exact ih (hmove x.neg)

/-- A number of seconds moves every date by the same microseconds, and its
negative by as many the other way. After any chain of moves the date is the first
one shifted by those of the moves that were made, in the same offset. So the
order of moves that can all be made does not matter to the date, and a move that
can be made can be taken back, which restores the date. -/
theorem moved_shifts_date :
    (∀ x : Number, x.neg.micros = -x.micros) ∧ (Number.double .nan).micros = 0 ∧
    (∀ (s : Stamp) (t : ZonedTime) (ms : List Move), s.date = some t →
      ∃ u, (s.moved ms).date = some u ∧ u.offset = t.offset ∧
        (u.wall.micros : Int) = t.wall.micros + ((s.made ms).map Move.micros).sum) ∧
    (∀ (s : Stamp) (ms ns : List Move), ms.Perm ns →
      (∀ result ∈ s.trail ms, result.isSome = true) →
      (∀ result ∈ s.trail ns, result.isSome = true) → (s.moved ms).date = (s.moved ns).date) ∧
    (∀ (s v : Stamp) (x : Number), s.add? x = some v → ∃ u, v.sub? x = some u ∧ u.date = s.date) ∧
    ∀ (s v : Stamp) (x : Number), s.sub? x = some v → ∃ u, v.add? x = some u ∧ u.date = s.date := by
  refine ⟨Number.micros_neg, rfl, ?_, ?_, ?_, ?_⟩
  · intro s t ms hs
    obtain ⟨u, hu, hshift⟩ := shift?_moved hs ms
    exact ⟨u, hu, ZonedTime.shift?_eq_some_iff.mp hshift⟩
  · intro s ms ns hperm hms hns
    cases hs : s.date with
    | none => rw [date_moved_of_undated hs, date_moved_of_undated hs]
    | some t =>
      obtain ⟨u, hu, hshift⟩ := shift?_moved hs ms
      obtain ⟨v, hv, hshift'⟩ := shift?_moved hs ns
      rw [made_eq_self hms, (hperm.map Move.micros).sum_eq] at hshift
      rw [made_eq_self hns, hshift] at hshift'
      rw [hu, hv, hshift']
  · intro s v x hv
    exact add?_neg hv
  · intro s v x hv
    have hback := add?_neg hv
    rwa [Number.neg_neg] at hback

end Stamp
end HeapChronicle
