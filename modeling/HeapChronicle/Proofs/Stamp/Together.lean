import HeapChronicle.Proofs.Stamp.Accuracy
import HeapChronicle.Proofs.Stamp.Edges

/-!
Two stamps moved by the same seconds. Their dates move by the same microseconds, so
dates that differ go on to decide as they did. Their seconds are rounded anew: two of
them may become equal, but a lesser one never becomes the greater
(`rank_seconds_le_of_common`). So a stamp that is before another one stays before it.
-/

namespace HeapChronicle

theorem Number.isFinite_orZero {x : Number} {a : Binary64} (hx : ¬x.IsInfinite)
    (ha : x.toDouble? = some a) : a.orZero.isFinite = true := by
  cases a with
  | nan => rfl
  | infinite negative => exact absurd ⟨negative, toDouble?_eq_infinite_iff.mp ha⟩ hx
  | finite negative m => rfl

theorem Number.isInfinite_neg {x : Number} (h : x.neg.IsInfinite) : x.IsInfinite := by
  obtain ⟨negative, hneg⟩ := h
  refine ⟨!negative, ?_⟩
  rw [← Number.neg_neg x, hneg]
  rfl

namespace Stamp

variable {a b v w : Stamp} {x : Number}

theorem instant_of_add? (hv : a.add? x = some v) :
    v.date.map ZonedTime.instant = (a.date.map ZonedTime.instant).map (· + x.micros) := by
  cases ha : a.date with
  | none => rw [(add?_eq_some_of_undated ha hv).2, Option.map_none, Option.map_none]
  | some t =>
    obtain ⟨u, hu, -, hshift⟩ := add?_eq_some ha hv
    simp only [hu, Option.map_some, ZonedTime.instant_of_shift? hshift]

theorem datesDiffer_iff : a.DatesDiffer b ↔
    ∃ i ∈ a.date.map ZonedTime.instant, ∃ j ∈ b.date.map ZonedTime.instant, i ≠ j := by
  simp [DatesDiffer]

theorem datesDiffer_of_add? (hv : a.add? x = some v) (hw : b.add? x = some w) :
    v.DatesDiffer w ↔ a.DatesDiffer b := by
  rw [datesDiffer_iff, datesDiffer_iff, instant_of_add? hv, instant_of_add? hw]
  simp

theorem rank_seconds_le_of_common (ha : a.IsTimed) (hb : b.IsTimed) (hx : ¬x.IsInfinite)
    (hv : a.add? x = some v) (hw : b.add? x = some w) (h : a.seconds.rank ≤ b.seconds.rank) :
    v.seconds.rank ≤ w.seconds.rank := by
  obtain ⟨y, hy, hvseconds⟩ := seconds_add? hv
  obtain ⟨z, hz, hwseconds⟩ := seconds_add? hw
  obtain rfl : y = z := Option.some.inj (hy.symm.trans hz)
  rw [hvseconds, hwseconds]
  exact Binary64.rank_add_finite_mono (Number.isFinite_orZero hx hy) ha hb h

theorem isAfter_of_common (hv : a.add? x = some v) (hw : b.add? x = some w)
    (h : a.DatesDiffer b) : a.isAfter b = v.isAfter w := by
  have hmoved : v.DatesDiffer w := (datesDiffer_of_add? hv hw).mpr h
  rw [Bool.eq_iff_iff, isAfter_of_datesDiffer h, isAfter_of_datesDiffer hmoved]
  obtain ⟨d, hd, e, he, -⟩ := h
  have hvinstant := instant_of_add? hv
  have hwinstant := instant_of_add? hw
  simp only [instant, hvinstant, hwinstant, Option.mem_def.mp hd, Option.mem_def.mp he,
    Option.map_some, Option.getD_some]
  omega

theorem isBefore_of_common (ha : a.IsTimed) (hb : b.IsTimed) (hx : ¬x.IsInfinite)
    (hv : a.add? x = some v) (hw : b.add? x = some w) (h : a.isBefore b = true) :
    v.isBefore w = true := by
  rw [isBefore, Bool.not_eq_true', Bool.eq_false_iff, Ne] at h ⊢
  by_cases hdates : a.DatesDiffer b
  · rwa [← isAfter_of_common hv hw hdates]
  · have hmoved : ¬v.DatesDiffer w := mt (datesDiffer_of_add? hv hw).mp hdates
    have hvtimed : v.IsTimed := isTimed_add? ha (not_exists.mp hx) hv
    have hwtimed : w.IsTimed := isTimed_add? hb (not_exists.mp hx) hw
    rw [isAfter_of_not_datesDiffer ha hb hdates, not_lt] at h
    rw [isAfter_of_not_datesDiffer hvtimed hwtimed hmoved, not_lt]
    exact rank_seconds_le_of_common ha hb hx hv hw h

/-- Two stamps that are both moved by the same number of seconds, forward or back, keep
their order as long as the number is not infinite: one that was before the other still
is. If their dates differ they also come after each other exactly as they did; if not,
their seconds may have been rounded to the same. -/
theorem common_move_keeps_order (ha : a.IsTimed) (hb : b.IsTimed) (hx : ¬x.IsInfinite) :
    (∀ v w, a.add? x = some v → b.add? x = some w →
      (a.isBefore b = true → v.isBefore w = true) ∧
      (a.DatesDiffer b → a.isAfter b = v.isAfter w)) ∧
    ∀ v w, a.sub? x = some v → b.sub? x = some w →
      (a.isBefore b = true → v.isBefore w = true) ∧
      (a.DatesDiffer b → a.isAfter b = v.isAfter w) := by
  refine ⟨?_, ?_⟩
  · intro v w hv hw
    exact ⟨isBefore_of_common ha hb hx hv hw, isAfter_of_common hv hw⟩
  · intro v w hv hw
    have hback : ¬x.neg.IsInfinite := mt Number.isInfinite_neg hx
    exact ⟨isBefore_of_common ha hb hback hv hw, isAfter_of_common hv hw⟩

/-- An undated stamp of so many whole seconds. -/
def uptime (seconds : Int) : Stamp :=
  ⟨none, .ofInt seconds⟩

theorem isTimed_uptime (seconds : Int) : (uptime seconds).IsTimed := by
  simp only [IsTimed, uptime, Binary64.isNaN_ofInt]

/-- The first two seconds of a log are rounded to the same when `2 ^ 53` seconds are
added, and the first one is still before the second. Dates go on to decide against
the seconds when a day is subtracted. -/
theorem uptime_keeps_order :
    (uptime 0).IsTimed ∧ (uptime 1).IsTimed ∧ ¬(Number.whole (2 ^ 53)).IsInfinite ∧
      (uptime 1).isAfter (uptime 0) = true ∧
      (∃ v w, (uptime 0).add? (.whole (2 ^ 53)) = some v ∧
        (uptime 1).add? (.whole (2 ^ 53)) = some w ∧
        v.isBefore w = true ∧ w.isAfter v = false) ∧
      (nearYearsEnd 0 0).DatesDiffer (nearYearsEnd 1 1) ∧
      ∃ v w, (nearYearsEnd 0 0).sub? (.whole 86400) = some v ∧
        (nearYearsEnd 1 1).sub? (.whole 86400) = some w ∧ v.isAfter w = true := by
  have hwhole (n : Int) : ¬(Number.whole n).IsInfinite := by
    rintro ⟨negative, hinfinite⟩
    cases hinfinite
  have hsecond : (uptime 1).isAfter (uptime 0) = true := by decide +kernel
  have hfirst : (uptime 0).isBefore (uptime 1) = true := by decide +kernel
  have hmoved : (uptime 0).add? (.whole (2 ^ 53)) = some (uptime (2 ^ 53)) := by decide +kernel
  have hmerged : (uptime 1).add? (.whole (2 ^ 53)) = some (uptime (2 ^ 53)) := by decide +kernel
  have hlevel : (uptime (2 ^ 53)).isAfter (uptime (2 ^ 53)) = false := by decide +kernel
  have hdates : (nearYearsEnd 0 0).DatesDiffer (nearYearsEnd 1 1) :=
    ⟨yearsEnd 0, rfl, yearsEnd 1, rfl, by decide +kernel⟩
  have hlast : (nearYearsEnd 0 0).isAfter (nearYearsEnd 1 1) = true := by decide +kernel
  have hback : ((nearYearsEnd 0 0).sub? (.whole 86400)).isSome = true := by decide +kernel
  have hback' : ((nearYearsEnd 1 1).sub? (.whole 86400)).isSome = true := by decide +kernel
  obtain ⟨v, hv⟩ := Option.isSome_iff_exists.mp hback
  obtain ⟨w, hw⟩ := Option.isSome_iff_exists.mp hback'
  obtain ⟨hadd, -⟩ := common_move_keeps_order (isTimed_uptime 0) (isTimed_uptime 1)
    (hwhole (2 ^ 53))
  obtain ⟨-, hsub⟩ := common_move_keeps_order (isTimed_nearYearsEnd 0 0)
    (isTimed_nearYearsEnd 1 1) (hwhole 86400)
  refine ⟨isTimed_uptime 0, isTimed_uptime 1, hwhole _, hsecond,
    ⟨_, _, hmoved, hmerged, ?_, hlevel⟩, hdates, v, w, hv, hw, ?_⟩
  · exact (hadd _ _ hmoved hmerged).1 hfirst
  · exact ((hsub v w hv hw).2 hdates).symm.trans hlast

end Stamp
end HeapChronicle
