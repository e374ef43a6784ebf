import HeapChronicle.Proofs.Log.Gap
import HeapChronicle.Proofs.Stamp.Together

/-!
A log that is moved as a whole. Every date is shifted by the same microseconds, whatever
its offset and its own microseconds, so that no gap between two of them changes and the
span stays as it is (`span_of_shifted`). A log without dates has no such law, since its
seconds are rounded after the move.
-/

namespace HeapChronicle.Log

variable {l l' : List Stamp} {s v : Stamp} {m : Move} {ms : List Move} {shift : Int}

/-- Gaps do not see where the integers are. -/
theorem gaps_map_add (ks : List Int) (shift : Int) : gaps (ks.map (· + shift)) = gaps ks := by
  ext n
  constructor
  · rintro ⟨i, hi, j, hj, rfl⟩
    obtain ⟨a, ha, rfl⟩ := List.mem_map.mp hi
    obtain ⟨b, hb, rfl⟩ := List.mem_map.mp hj
    exact ⟨a, ha, b, hb, by omega⟩
  · rintro ⟨a, ha, b, hb, rfl⟩
    exact ⟨_, List.mem_map_of_mem ha, _, List.mem_map_of_mem hb, by omega⟩

/-- A dated stamp with an instant so many microseconds after that of another one. -/
def IsShifted (shift : Int) (s v : Stamp) : Prop :=
  v.hasDate = true ∧ v.instant = s.instant + shift

theorem isShifted_of_shift? {t u : ZonedTime} (hs : s.date = some t) (hv : v.date = some u)
    (hshift : t.shift? shift = some u) : IsShifted shift s v := by
  refine ⟨Stamp.hasDate_eq_true_iff.mpr ⟨u, hv⟩, ?_⟩
  rw [Stamp.instant_of_date hv, Stamp.instant_of_date hs, ZonedTime.instant_of_shift? hshift]

theorem isShifted_of_move? (hs : s.hasDate = true) (hv : s.move? m = some v) :
    IsShifted m.micros s v := by
  obtain ⟨t, ht⟩ := Stamp.hasDate_eq_true_iff.mp hs
  obtain ⟨u, hu, hshift⟩ := Stamp.move?_eq_some ht hv
  exact isShifted_of_shift? ht hu hshift

/-- Moves that can all be made add up. -/
theorem isShifted_moved (hs : s.hasDate = true)
    (hms : ∀ result ∈ s.trail ms, result.isSome = true) :
    IsShifted (ms.map Move.micros).sum s (s.moved ms) := by
  obtain ⟨t, ht⟩ := Stamp.hasDate_eq_true_iff.mp hs
  obtain ⟨u, hu, hshift⟩ := Stamp.shift?_moved ht ms
  rw [Stamp.made_eq_self hms] at hshift
  exact isShifted_of_shift? ht hu hshift

theorem instants_of_shifted (h : List.Forall₂ (IsShifted shift) l l') :
    l'.map Stamp.instant = (l.map Stamp.instant).map (· + shift) := by
  induction h with
  | nil => rfl
  | cons hfirst hrest ih => simp only [List.map_cons, hfirst.2, ih]

theorem allDated_of_shifted (h : List.Forall₂ (IsShifted shift) l l') : AllDated l' := by
  induction h with
  | nil => exact List.forall_mem_nil _
  | cons hfirst hrest ih => exact List.forall_mem_cons.mpr ⟨hfirst.1, ih⟩

theorem span_of_shifted (hdated : AllDated l) (h : List.Forall₂ (IsShifted shift) l l') :
    AllDated l' ∧ span l' = span l := by
  have hdated' := allDated_of_shifted h
  have hlength := h.length_eq
  refine ⟨hdated', ?_⟩
  by_cases hl : l.length < 2
  · rw [span_of_length hl, span_of_length (hlength ▸ hl)]
  · have hclock := clock_spans (not_lt.mp hl) hdated
    have hclock' := clock_spans (hlength ▸ not_lt.mp hl) hdated'
    have hkeys : l'.map Measure.clock.key = (l.map Measure.clock.key).map (· + shift) :=
      instants_of_shifted h
    apply hclock'.eq_of_gaps hclock
    rw [hkeys, gaps_map_add]

theorem span_of_move? (hdated : AllDated l)
    (h : List.Forall₂ (fun s v => s.move? m = some v) l l') :
    AllDated l' ∧ span l' = span l := by
  have hshifted : List.Forall₂ (IsShifted m.micros) l l' := by
    apply (List.forall₂_and_left _ _).mpr ⟨hdated, h⟩ |>.imp
    rintro s v ⟨hs, hv⟩
    exact isShifted_of_move? hs hv
  exact span_of_shifted hdated hshifted

theorem span_map_moved (hdated : AllDated l)
    (hms : ∀ s ∈ l, ∀ result ∈ s.trail ms, result.isSome = true) :
    AllDated (l.map (Stamp.moved · ms)) ∧ span (l.map (Stamp.moved · ms)) = span l := by
  have hshifted : List.Forall₂ (IsShifted (ms.map Move.micros).sum) l
      (l.map (Stamp.moved · ms)) := by
    rw [List.forall₂_map_right_iff, List.forall₂_same]
    intro s hs
    exact isShifted_moved (hdated s hs) (hms s hs)
  exact span_of_shifted hdated hshifted

/-- A log of dates that is moved as a whole spans exactly as much as before, whatever the
seconds and the offsets of its stamps are: by a number of seconds that can be added to
each of them, or subtracted, and by any chain of moves that all of them can make. It stays
a log of dates. -/
theorem common_moves_keep_span (hdated : AllDated l) :
    (∀ (x : Number) (l' : List Stamp), List.Forall₂ (fun s v => s.add? x = some v) l l' →
      AllDated l' ∧ span l' = span l) ∧
    (∀ (x : Number) (l' : List Stamp), List.Forall₂ (fun s v => s.sub? x = some v) l l' →
      AllDated l' ∧ span l' = span l) ∧
    ∀ ms : List Move, (∀ s ∈ l, ∀ result ∈ s.trail ms, result.isSome = true) →
      AllDated (l.map (Stamp.moved · ms)) ∧ span (l.map (Stamp.moved · ms)) = span l := by
  refine ⟨?_, ?_, fun _ => span_map_moved hdated⟩
  · intro x l' h
    exact @span_of_move? l l' (.forward x) hdated h
  · intro x l' h
    exact @span_of_move? l l' (.back x) hdated h

/-- The beginning of 1970 on a clock some hours east of UTC, and the last microsecond of
the year 9999 at UTC. -/
def fromEpoch (east : Fin 24) : List Stamp :=
  [.atEpoch east true, .nearYearsEnd 0 0]

/-- One and a half microseconds back, and then NaN seconds. -/
def tieBack : List Move :=
  [.back Stamp.threeHalves, .forward (.double .nan)]

/-- The tie is rounded to two microseconds for both dates. Neither these nor a day change
the span. -/
theorem fromEpoch_moved_keeps_span :
    AllDated (fromEpoch 1) ∧
      (∀ s ∈ fromEpoch 1, ∀ result ∈ s.trail tieBack, result.isSome = true) ∧
      ((fromEpoch 1).map (Stamp.moved · tieBack)).map Stamp.instant =
        [-2, (Stamp.yearsEnd 2).instant] ∧
      span ((fromEpoch 1).map (Stamp.moved · tieBack)) =
        .ofQuotient false 253402300799999999 1000000 ∧
      ∃ v w, (Stamp.atEpoch 1 true).sub? (.whole 86400) = some v ∧
        (Stamp.nearYearsEnd 0 0).sub? (.whole 86400) = some w ∧
        span [v, w] = .ofQuotient false 253402300799999999 1000000 := by
  have hdated : AllDated (fromEpoch 1) := by decide
  have hmade : ∀ s ∈ fromEpoch 1, ∀ result ∈ s.trail tieBack, result.isSome = true := by
    decide +kernel
  have hinstants : ((fromEpoch 1).map (Stamp.moved · tieBack)).map Stamp.instant =
      [-2, (Stamp.yearsEnd 2).instant] := by decide +kernel
  have hspan : span (fromEpoch 1) = .ofQuotient false 253402300799999999 1000000 := by
    decide +kernel
  have hfirst : ((Stamp.atEpoch 1 true).sub? (.whole 86400)).isSome = true := by decide +kernel
  have hlast : ((Stamp.nearYearsEnd 0 0).sub? (.whole 86400)).isSome = true := by decide +kernel
  obtain ⟨v, hv⟩ := Option.isSome_iff_exists.mp hfirst
  obtain ⟨w, hw⟩ := Option.isSome_iff_exists.mp hlast
  obtain ⟨-, hsub, hchain⟩ := common_moves_keep_span hdated
  refine ⟨hdated, hmade, hinstants, (hchain tieBack hmade).2.trans hspan, v, w, hv, hw, ?_⟩
  exact (hsub _ _ (.cons hv (.cons hw .nil))).2.trans hspan

/-- Without dates the seconds of two stamps can be rounded to the same. -/
example : (Stamp.uptime 0).add? (.whole (2 ^ 53)) = some (.uptime (2 ^ 53)) ∧
    (Stamp.uptime 1).add? (.whole (2 ^ 53)) = some (.uptime (2 ^ 53)) ∧
    span [.uptime 0, .uptime 1] = .ofInt 1 ∧
    span [.uptime (2 ^ 53), .uptime (2 ^ 53)] = .zero := by decide +kernel

end HeapChronicle.Log
