import HeapChronicle.Proofs.Binary64.Sum
import HeapChronicle.Proofs.Calendar.Written
import HeapChronicle.Proofs.Stamp.Place

/-!
Seconds that are derived from a date. They are rounded twice, so dates far from
1970 share them, but they never turn the order of the instants around
(`rank_derivedSeconds_mono`); where they tie, the dates decide. Dates a millisecond
apart have different seconds all over the calendar
(`rank_derivedSeconds_strict`).
-/

namespace HeapChronicle
namespace Stamp

variable {s t : ZonedTime}

theorem natAbs_wholeSeconds_lt (t : ZonedTime) : (wholeSeconds t).natAbs < 2 ^ 38 := by
  have hwall := t.wall.lt_limit
  have hgt := t.offset_gt
  have hlt := t.offset_lt
  simp only [LocalTime.limit, microsPerDay, Calendar.daysOfYears] at hwall
  simp only [wholeSeconds, ZonedTime.instant, ZonedTime.epoch]
  omega

theorem partMicros_lt (t : ZonedTime) : partMicros t < 1000000 := by
  simp only [partMicros]
  omega

theorem instant_eq (t : ZonedTime) : t.instant = wholeSeconds t * 1000000 + partMicros t := by
  simp only [wholeSeconds, partMicros]
  omega

/-- The units of the part of a second, rounded for themselves. -/
def partUnits (t : ZonedTime) : Nat :=
  Magnitude.nearest (partMicros t * Magnitude.one) 1000000

/-- The units of the derived seconds before their sum is rounded. -/
def derivedUnits (t : ZonedTime) : Int :=
  wholeSeconds t * Magnitude.one + partUnits t

theorem partUnits_le_one (t : ZonedTime) : partUnits t ≤ Magnitude.one :=
  Magnitude.nearest_le_one (by decide) (partMicros_lt t).le

theorem isFinite_wholeSeconds (t : ZonedTime) :
    (Binary64.ofInt (wholeSeconds t)).isFinite = true := by
  have hlt := natAbs_wholeSeconds_lt t
  exact Binary64.isFinite_ofInt (by omega)

theorem isFinite_partMicros (t : ZonedTime) :
    (Binary64.ofQuotient false (partMicros t) 1000000).isFinite = true :=
  Binary64.isFinite_ofQuotient (by decide) (partMicros_lt t).le

theorem isNaN_derivedSeconds (t : ZonedTime) : (derivedSeconds t).isNaN = false := by
  apply Binary64.isNaN_add_of_isFinite (isFinite_wholeSeconds t)
  exact Binary64.isNaN_of_isFinite (isFinite_partMicros t)

theorem rank_derivedSeconds (t : ZonedTime) :
    (derivedSeconds t).rank = Binary64.roundRank (derivedUnits t) := by
  have hlt := natAbs_wholeSeconds_lt t
  have hwhole : (Binary64.ofInt (wholeSeconds t)).rank = wholeSeconds t * Magnitude.one :=
    Binary64.rank_ofInt (by omega)
  have hpart : (Binary64.ofQuotient false (partMicros t) 1000000).rank = partUnits t :=
    Binary64.rank_ofQuotient (by decide) (partMicros_lt t).le
  rw [derivedSeconds, Binary64.rank_add (isFinite_wholeSeconds t) (isFinite_partMicros t), hwhole,
    hpart, derivedUnits]

/-- A part of a second never outweighs the next second, whatever they are counted in. -/
theorem wholeSeconds_add_mono {second : Int} {part : Nat → Int} (hmono : Monotone part)
    (hpart : ∀ micros, micros < 1000000 → 0 ≤ part micros ∧ part micros ≤ second)
    (h : s.instant ≤ t.instant) :
    wholeSeconds s * second + part (partMicros s) ≤
      wholeSeconds t * second + part (partMicros t) := by
  obtain ⟨hnonneg, -⟩ := hpart _ (partMicros_lt t)
  obtain ⟨hbefore, hle⟩ := hpart _ (partMicros_lt s)
  have hwhole : wholeSeconds s ≤ wholeSeconds t := by
    simp only [wholeSeconds]
    omega
  rcases Int.lt_or_eq_of_le hwhole with hlt | heq
  · have hstep : (wholeSeconds s + 1) * second ≤ wholeSeconds t * second :=
      Int.mul_le_mul_of_nonneg_right hlt (hbefore.trans hle)
    rw [Int.add_mul, Int.one_mul] at hstep
    omega
  · have hmicros : partMicros s ≤ partMicros t := by
      rw [instant_eq s, instant_eq t, heq] at h
      omega
    rw [heq]
    exact Int.add_le_add_left (hmono hmicros) _

theorem derivedUnits_mono (h : s.instant ≤ t.instant) : derivedUnits s ≤ derivedUnits t := by
  let part (micros : Nat) : Int := Magnitude.nearest (micros * Magnitude.one) 1000000
  have hmono : Monotone part := by
    intro m n hle
    apply Int.ofNat_le.mpr
    apply Magnitude.nearest_mono (by decide) (by decide)
    exact Nat.mul_le_mul_right _ (Nat.mul_le_mul_right _ hle)
  have hpart (micros : Nat) (hlt : micros < 1000000) :
      0 ≤ part micros ∧ part micros ≤ Magnitude.one := by
    have hone : Magnitude.nearest (micros * Magnitude.one) 1000000 ≤ Magnitude.one :=
      Magnitude.nearest_le_one (by decide) hlt.le
    exact ⟨Int.natCast_nonneg _, Int.ofNat_le.mpr hone⟩
  exact wholeSeconds_add_mono hmono hpart h

theorem rank_derivedSeconds_mono (h : s.instant ≤ t.instant) :
    (derivedSeconds s).rank ≤ (derivedSeconds t).rank := by
  rw [rank_derivedSeconds, rank_derivedSeconds]
  exact Binary64.roundRank_mono (derivedUnits_mono h)

/-- The part of a second is off by at most `2 ^ -54` of a second. -/
theorem partUnits_error (t : ZonedTime) :
    |2 ^ 54 * (1000000 * (partUnits t : Int) - partMicros t * Magnitude.one)| ≤
      1000000 * (Magnitude.one : Int) := by
  have hsecond : partMicros t * Magnitude.one / 1000000 < 2 ^ 0 * Magnitude.one := by
    rw [Nat.div_lt_iff_lt_mul (by decide), Nat.pow_zero, Nat.one_mul, Nat.mul_comm]
    exact Nat.mul_lt_mul_of_pos_left (partMicros_lt t) Magnitude.one_pos
  have hspacing := Magnitude.spacing_mul_le_one hsecond (Nat.add_zero 53)
  have hmillion : 0 < 1000000 := by decide
  obtain ⟨habove, hbelow⟩ := Magnitude.nearest_error (partMicros t * Magnitude.one) hmillion
  rw [← partUnits] at habove hbelow
  zify at hspacing habove hbelow
  rw [abs_le]
  constructor
  · linarith
  · linarith

theorem natAbs_derivedUnits_lt (t : ZonedTime) :
    (derivedUnits t).natAbs < 2 ^ 39 * Magnitude.one := by
  have hpart := partUnits_le_one t
  have hone := Magnitude.one_pos
  have hwhole : (wholeSeconds t * Magnitude.one).natAbs ≤ 2 ^ 38 * Magnitude.one := by
    rw [Int.natAbs_mul, Int.natAbs_natCast]
    exact Nat.mul_le_mul_right _ (natAbs_wholeSeconds_lt t).le
  rw [derivedUnits]
  omega

/-- The derived seconds are at most `2 ^ -14` of a second away from the instant. -/
theorem derivedSeconds_error (t : ZonedTime) :
    |2 ^ 14 * (1000000 * (derivedSeconds t).rank - t.instant * Magnitude.one)| ≤
      1000000 * (Magnitude.one : Int) := by
  have hinstant : t.instant * Magnitude.one =
      1000000 * (wholeSeconds t * Magnitude.one) + partMicros t * Magnitude.one := by
    rw [instant_eq]
    ring
  have hunits : derivedUnits t = wholeSeconds t * Magnitude.one + partUnits t := rfl
  have hone : 0 < (Magnitude.one : Int) := Int.natCast_pos.mpr Magnitude.one_pos
  obtain ⟨hpartBelow, hpartAbove⟩ := abs_le.mp (partUnits_error t)
  have hsum : |2 ^ 15 * (Binary64.roundRank (derivedUnits t) - derivedUnits t)| ≤
      (Magnitude.one : Int) := Binary64.roundRank_error (natAbs_derivedUnits_lt t) rfl
  obtain ⟨hsumBelow, hsumAbove⟩ := abs_le.mp hsum
  rw [rank_derivedSeconds, hinstant, abs_le]
  constructor
  · linarith
  · linarith

/-- Different milliseconds are kept apart. -/
theorem rank_derivedSeconds_strict (hs : 1000 ∣ s.instant) (ht : 1000 ∣ t.instant)
    (h : s.instant < t.instant) : (derivedSeconds s).rank < (derivedSeconds t).rank := by
  have hmilli : s.instant + 1000 ≤ t.instant := by omega
  have hone : 0 < (Magnitude.one : Int) := Int.natCast_pos.mpr Magnitude.one_pos
  have hgap : (s.instant + 1000) * (Magnitude.one : Int) ≤ t.instant * Magnitude.one :=
    Int.mul_le_mul_of_nonneg_right hmilli hone.le
  have hearlier := (abs_le.mp (derivedSeconds_error s)).2
  have hlater := (abs_le.mp (derivedSeconds_error t)).1
  linarith

/-- The stamp of a date that comes without seconds. -/
def ofDate (t : ZonedTime) : Stamp :=
  ofParts (some t) .nan

theorem ofDate_eq (t : ZonedTime) : ofDate t = ⟨some t, derivedSeconds t⟩ := by
  simp only [ofDate, ofParts, Binary64.isNaN, Bool.true_or, if_true]

theorem rank_derivedSeconds_congr (h : s.instant = t.instant) :
    (derivedSeconds s).rank = (derivedSeconds t).rank :=
  le_antisymm (rank_derivedSeconds_mono h.le) (rank_derivedSeconds_mono h.ge)

section

variable {x y : Binary64}

theorem isTimed_dated : IsTimed ⟨some t, x⟩ ↔ x.isNaN = false :=
  Iff.rfl

theorem place_dated : place ⟨some t, x⟩ = toLex (false, toLex (x.rank, t.instant)) := rfl

/-- Seconds that do not decide leave it to the dates. -/
theorem place_dated_lt (hrank : x.rank ≤ y.rank) (h : s.instant < t.instant) :
    place ⟨some s, x⟩ < place ⟨some t, y⟩ := by
  have hpair : toLex (x.rank, s.instant) < toLex (y.rank, t.instant) := by
    rcases hrank.lt_or_eq with hless | htie
    · exact Prod.Lex.toLex_lt_toLex.mpr (.inl hless)
    · exact Prod.Lex.toLex_lt_toLex.mpr (.inr ⟨htie, h⟩)
  rw [place_dated, place_dated]
  exact Prod.Lex.toLex_lt_toLex.mpr (.inr ⟨rfl, hpair⟩)

end

theorem isTimed_ofDate (t : ZonedTime) : (ofDate t).IsTimed := by
  rw [ofDate_eq, isTimed_dated]
  exact isNaN_derivedSeconds t

theorem place_ofDate_lt (h : s.instant < t.instant) : (ofDate s).place < (ofDate t).place := by
  rw [ofDate_eq, ofDate_eq]
  exact place_dated_lt (rank_derivedSeconds_mono h.le) h

/-- Stamps of dates alone are sorted by their instants. -/
theorem compare_ofDate (s t : ZonedTime) :
    (ofDate s).compare (ofDate t) = Ord.compare s.instant t.instant := by
  have hs := isTimed_ofDate s
  have ht := isTimed_ofDate t
  rcases lt_trichotomy s.instant t.instant with h | h | h
  · rw [compare_lt_iff_lt.mpr h, compare_eq_lt_iff hs ht]
    exact place_ofDate_lt h
  · rw [compare_eq_iff_eq.mpr h, compare_eq_eq_iff hs ht]
    rw [ofDate_eq, ofDate_eq, place_dated, place_dated, rank_derivedSeconds_congr h, h]
  · rw [compare_gt_iff_gt.mpr h, compare_eq_gt_iff hs ht]
    exact place_ofDate_lt h

theorem isAfter_ofDate (s t : ZonedTime) :
    (ofDate s).isAfter (ofDate t) = true ↔ t.instant < s.instant := by
  rcases lt_trichotomy s.instant t.instant with h | h | h
  · have hdates : s.compare t = .lt := compare_lt_iff_lt.mpr h
    simp [isAfter, ofDate_eq, hdates, h.le]
  · have hdates : s.compare t = .eq := compare_eq_iff_eq.mpr h
    have hseconds : ((derivedSeconds t).orZero.lt (derivedSeconds s)) = false := by
      rw [Binary64.orZero_of_isNaN (isNaN_derivedSeconds t)]
      exact Binary64.lt_eq_false_of_rank_eq (isNaN_derivedSeconds t) (isNaN_derivedSeconds s)
        (rank_derivedSeconds_congr h).symm
    simp [isAfter, ofDate_eq, hdates, hseconds, h]
  · have hdates : s.compare t = .gt := compare_gt_iff_gt.mpr h
    simp [isAfter, ofDate_eq, hdates, h]

/-- Stamps of dates alone follow the clock, both sorted and asked which one comes
after the other. Between dates of whole milliseconds, which are all that is ever
read, the derived seconds alone decide. -/
theorem derived_follows_clock :
    (∀ s t : ZonedTime,
      compare? (some (ofDate s)) (some (ofDate t)) = Ord.compare s.instant t.instant ∧
      ((ofDate s).isAfter (ofDate t) = true ↔ t.instant < s.instant)) ∧
    (∀ s t : ZonedTime, 1000 ∣ s.instant → 1000 ∣ t.instant →
      ((ofDate s).seconds.lt (ofDate t).seconds = true ↔ s.instant < t.instant) ∧
      ((ofDate s).seconds.numEq (ofDate t).seconds = true ↔ s.instant = t.instant)) ∧
    ∀ (cs : List Char) (t : ZonedTime), Iso8601.read cs = .ok t → 1000 ∣ t.instant := by
  refine ⟨fun s t => ⟨compare_ofDate s t, isAfter_ofDate s t⟩, ?_, ?_⟩
  · intro s t hs ht
    rw [ofDate_eq, ofDate_eq,
      Binary64.lt_iff_rank_lt (isNaN_derivedSeconds s) (isNaN_derivedSeconds t),
      Binary64.numEq_iff_rank_eq (isNaN_derivedSeconds s) (isNaN_derivedSeconds t)]
    rcases lt_trichotomy s.instant t.instant with h | h | h
    · have hrank := rank_derivedSeconds_strict hs ht h
      omega
    · have hrank := rank_derivedSeconds_congr h
      omega
    · have hrank := rank_derivedSeconds_strict ht hs h
      omega
  · intro cs t h
    exact Iso8601.dvd_instant_of_read h

private theorem limit_sub_lt (earlier : Nat) :
    LocalTime.limit - (earlier + 1) < LocalTime.limit :=
  Nat.sub_lt (by decide) (Nat.succ_pos earlier)

/-- The last microsecond of the year 9999 at UTC, or as many microseconds earlier. -/
def yearsEnd (earlier : Nat) : ZonedTime where
  wall := ⟨LocalTime.limit - (earlier + 1), limit_sub_lt earlier⟩
  offset := 0
  offset_gt := by decide
  offset_lt := by decide

/-- The last two microseconds share their derived seconds and are still sorted; the
last two milliseconds do not share them. -/
theorem yearsEnd_follows_clock :
    (ofDate (yearsEnd 1)).seconds.numEq (ofDate (yearsEnd 0)).seconds = true ∧
      compare? (some (ofDate (yearsEnd 1))) (some (ofDate (yearsEnd 0))) = .lt ∧
      (ofDate (yearsEnd 0)).isAfter (ofDate (yearsEnd 1)) = true ∧
      (ofDate (yearsEnd 1999)).seconds.lt (ofDate (yearsEnd 999)).seconds = true := by
  obtain ⟨hclock, hmillis, -⟩ := derived_follows_clock
  have htie : (ofDate (yearsEnd 1)).seconds.numEq (ofDate (yearsEnd 0)).seconds = true := by
    decide +kernel
  have hlast : (yearsEnd 1).instant < (yearsEnd 0).instant := by decide +kernel
  have hbefore : 1000 ∣ (yearsEnd 1999).instant := by decide +kernel
  have hafter : 1000 ∣ (yearsEnd 999).instant := by decide +kernel
  have hless : (yearsEnd 1999).instant < (yearsEnd 999).instant := by decide +kernel
  refine ⟨htie, ?_, (hclock _ _).2.mpr hlast, (hmillis _ _ hbefore hafter).1.mpr hless⟩
  rw [(hclock _ _).1, compare_lt_iff_lt]
  exact hlast

end Stamp
end HeapChronicle
