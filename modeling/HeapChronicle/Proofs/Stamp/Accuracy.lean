import HeapChronicle.Proofs.Number.Micros
import HeapChronicle.Proofs.Stamp.Clock
import HeapChronicle.Proofs.Stamp.Timed

/-!
How far a number of seconds moves a stamp. The microseconds of a number follow its
exact value: they grow with it and are off by little more than a half. Integers
past 53 binary digits would be rounded first, but they leave the calendar
(`rank_eq_units`), so a date that is moved by whole seconds is moved exactly. Date
and seconds both grow with the shift, hence so does the stamp
(`place_le_of_add?`).
-/

namespace HeapChronicle

namespace Number

variable {x y : Number} {a b : Binary64} {n : Int} {t u : ZonedTime}

/-- As a double a finite number has a sign and a magnitude. -/
theorem exists_signed (hx : x.IsFinite) (ha : x.toDouble? = some a) :
    ∃ (s : Bool) (m : Magnitude), a.rank = signed s m.units ∧
      x.toMicros? = some (signed s (Magnitude.micros m.units)) := by
  have hfinite := isFinite_of_toDouble? hx ha
  cases a with
  | nan => cases hfinite
  | infinite s => cases hfinite
  | finite s m =>
    refine ⟨s, m, rfl, ?_⟩
    rw [toMicros?, ha]
    rfl

theorem micros_of_toMicros? (h : x.toMicros? = some n) : x.micros = n := by
  rw [micros, h, Option.getD_some]

theorem micros_le_micros (hx : x.IsFinite) (hy : y.IsFinite) (ha : x.toDouble? = some a)
    (hb : y.toDouble? = some b) (h : x.units ≤ y.units) : x.micros ≤ y.micros := by
  have hrank := rank_le_of_units_le hx hy ha hb h
  obtain ⟨s, m, hm, hxmicros⟩ := exists_signed hx ha
  obtain ⟨t, k, hk, hymicros⟩ := exists_signed hy hb
  have hzero : Magnitude.micros 0 = 0 := by
    have hmul := Magnitude.micros_mul_one 0
    rwa [Nat.zero_mul, Nat.zero_mul] at hmul
  rw [micros_of_toMicros? hxmicros, micros_of_toMicros? hymicros]
  apply signed_le_signed Magnitude.micros_mono hzero
  rwa [← hm, ← hk]

/-- Whole seconds are a million microseconds each. -/
theorem micros_of_rank (hx : x.IsFinite) (ha : x.toDouble? = some a)
    (h : a.rank = n * Magnitude.one) : x.micros = 1000000 * n := by
  obtain ⟨s, m, hm, hmicros⟩ := exists_signed hx ha
  rw [hm] at h
  have hunits : m.units = n.natAbs * Magnitude.one := by
    have habs := congrArg Int.natAbs h
    rwa [natAbs_signed, Int.natAbs_mul, Int.natAbs_natCast] at habs
  have hone : (Magnitude.one : Int) ≠ 0 := Int.natCast_ne_zero.mpr Magnitude.one_pos.ne'
  rw [hunits, signed_mul] at h
  have hn : signed s n.natAbs = n := Int.eq_of_mul_eq_mul_right hone h
  rw [micros_of_toMicros? hmicros, hunits, Magnitude.micros_mul_one, signed_mul, hn, Int.mul_comm]
  rfl

theorem micros_error (hx : x.IsFinite) (ha : x.toDouble? = some a) :
    |2 ^ 34 * (x.micros * (Magnitude.one : Int) - 1000000 * a.rank)| ≤
      (2 ^ 33 + 1) * (Magnitude.one : Int) := by
  obtain ⟨s, m, hm, hmicros⟩ := exists_signed hx ha
  have herror := Magnitude.micros_error m.units
  rw [micros_of_toMicros? hmicros, hm]
  cases s with
  | false => exact herror
  | true =>
    rw [signed_true, signed_true, ← abs_neg]
    refine le_of_eq_of_le (congrArg _ ?_) herror
    ring

theorem toDouble?_whole (h : n.natAbs ≤ 2 ^ 53) : (whole n).toDouble? = some (.ofInt n) := by
  rw [toDouble?, if_pos (Binary64.isFinite_ofInt h)]

theorem micros_whole (h : n.natAbs ≤ 2 ^ 53) : (whole n).micros = 1000000 * n :=
  micros_of_rank (isFinite_whole n) (toDouble?_whole h) (Binary64.rank_ofInt h)

theorem natAbs_micros_lt (h : t.shift? x.micros = some u) :
    x.micros.natAbs < LocalTime.limit := by
  have hmicros := (ZonedTime.shift?_eq_some_iff.mp h).2
  have ht := t.wall.lt_limit
  have hu := u.wall.lt_limit
  omega

/-- Integers that move a date within the calendar are doubles. -/
theorem natAbs_le_of_shift? (ha : (whole n).toDouble? = some a)
    (h : t.shift? (whole n).micros = some u) : n.natAbs ≤ 2 ^ 53 := by
  have hmicros := natAbs_micros_lt h
  have hone : (0 : Int) ≤ Magnitude.one := Int.natCast_nonneg _
  simp only [LocalTime.limit, microsPerDay, Calendar.daysOfYears] at hmicros
  by_contra hlarge
  rcases lt_or_ge n 0 with hneg | hpos
  · have hbound : (-2 ^ 53 : Int).natAbs ≤ 2 ^ 53 := by decide
    have hle : (whole n).micros ≤ (whole (-2 ^ 53)).micros := by
      apply micros_le_micros (isFinite_whole _) (isFinite_whole _) ha (toDouble?_whole hbound)
      exact Int.mul_le_mul_of_nonneg_right (by omega) hone
    rw [micros_whole hbound] at hle
    omega
  · have hbound : (2 ^ 53 : Int).natAbs ≤ 2 ^ 53 := by decide
    have hle : (whole (2 ^ 53)).micros ≤ (whole n).micros := by
      apply micros_le_micros (isFinite_whole _) (isFinite_whole _) (toDouble?_whole hbound) ha
      exact Int.mul_le_mul_of_nonneg_right (by omega) hone
    rw [micros_whole hbound] at hle
    omega

/-- A number that moves a date within the calendar is a double. -/
theorem rank_eq_units (hx : x.IsFinite) (ha : x.toDouble? = some a)
    (h : t.shift? x.micros = some u) : a.rank = x.units := by
  cases x with
  | double d =>
    cases ha
    rfl
  | whole n =>
    have hbound := natAbs_le_of_shift? ha h
    rw [toDouble?_whole hbound] at ha
    obtain rfl := Option.some.inj ha
    exact Binary64.rank_ofInt hbound

/-- An error in units, divided by those of a second. -/
theorem abs_sub_value_le {micros units : Int} {one : Nat} (hone : 0 < one)
    (h : |2 ^ 34 * (micros * (one : Int) - 1000000 * units)| ≤ (2 ^ 33 + 1) * (one : Int)) :
    |(micros : ℚ) - 10 ^ 6 * (units / one)| ≤ 1 / 2 + 1 / 2 ^ 34 := by
  have hone : (0 : ℚ) < one := Nat.cast_pos.mpr hone
  have hcast : |2 ^ 34 * ((micros : ℚ) * one - 1000000 * units)| ≤ (2 ^ 33 + 1) * (one : ℚ) := by
    exact_mod_cast h
  have hfactor : 2 ^ 34 * ((micros : ℚ) * one - 1000000 * units) =
      2 ^ 34 * one * ((micros : ℚ) - 10 ^ 6 * (units / one)) := by
    field_simp
    ring
  have hscale : (0 : ℚ) < 2 ^ 34 * one := by positivity
  rw [hfactor, abs_mul, abs_of_pos hscale] at hcast
  refine le_of_mul_le_mul_left (hcast.trans_eq ?_) hscale
  ring

/-- The microseconds are off by at most a half and `2 ^ -34`. -/
theorem micros_accurate (hx : x.IsFinite) (ha : x.toDouble? = some a)
    (h : t.shift? x.micros = some u) :
    |(x.micros : ℚ) - 10 ^ 6 * x.value| ≤ 1 / 2 + 1 / 2 ^ 34 := by
  have herror := micros_error hx ha
  rw [rank_eq_units hx ha h] at herror
  exact abs_sub_value_le Magnitude.one_pos herror

end Number

namespace Stamp

variable {s v w : Stamp} {x y : Number} {a b : Binary64}

theorem seconds_add? (hv : s.add? x = some v) :
    ∃ a, x.toDouble? = some a ∧ v.seconds = s.seconds.add a.orZero := by
  rw [add?, Option.bind_eq_some_iff] at hv
  obtain ⟨a, ha, hv⟩ := hv
  refine ⟨a, ha, ?_⟩
  cases hs : s.date with
  | none =>
    simp only [shift?, hs, Option.some.injEq] at hv
    rw [← hv]
  | some t =>
    simp only [shift?, hs, Option.bind_eq_bind, Option.bind_eq_some_iff] at hv
    obtain ⟨micros, -, u, -, hv⟩ := hv
    rw [← Option.some.inj hv]

theorem hasDate_add? (hv : s.add? x = some v) : v.hasDate = s.hasDate := by
  have hmoved := hasDate_moved s [.forward x]
  have hmove : s.move (.forward x) = v := move_eq_of_some hv
  rwa [moved, List.foldl_cons, List.foldl_nil, hmove] at hmoved

theorem not_infinite_of_isFinite (hx : x.IsFinite) (negative : Bool) :
    x ≠ .double (.infinite negative) := by
  rintro rfl
  cases hx

theorem rank_seconds_le_of_add? (hs : s.IsTimed) (hx : x.IsFinite) (hy : y.IsFinite)
    (h : x.value ≤ y.value) (hv : s.add? x = some v) (hw : s.add? y = some w) :
    v.seconds.rank ≤ w.seconds.rank := by
  obtain ⟨a, ha, hvseconds⟩ := seconds_add? hv
  obtain ⟨b, hb, hwseconds⟩ := seconds_add? hw
  have hafinite := Number.isFinite_of_toDouble? hx ha
  have hbfinite := Number.isFinite_of_toDouble? hy hb
  rw [hvseconds, hwseconds, Binary64.orZero_of_isNaN (Binary64.isNaN_of_isFinite hafinite),
    Binary64.orZero_of_isNaN (Binary64.isNaN_of_isFinite hbfinite)]
  apply Binary64.rank_add_mono hs hafinite hbfinite
  exact Number.rank_le_of_units_le hx hy ha hb (Number.value_le_iff.mp h)

theorem instant_le_of_add? (hx : x.IsFinite) (hy : y.IsFinite) (h : x.value ≤ y.value)
    (hv : s.add? x = some v) (hw : s.add? y = some w) : v.instant ≤ w.instant := by
  cases hs : s.date with
  | none =>
    have hdate : s.hasDate = false := hasDate_eq_false_iff.mpr hs
    rw [instant_of_undated ((hasDate_add? hv).trans hdate),
      instant_of_undated ((hasDate_add? hw).trans hdate)]
  | some t =>
    obtain ⟨a, ha, -⟩ := seconds_add? hv
    obtain ⟨b, hb, -⟩ := seconds_add? hw
    obtain ⟨d, hd, -, hdshift⟩ := add?_eq_some hs hv
    obtain ⟨e, he, -, heshift⟩ := add?_eq_some hs hw
    have hmicros := Number.micros_le_micros hx hy ha hb (Number.value_le_iff.mp h)
    rw [instant_of_date hd, instant_of_date he, ZonedTime.instant_of_shift? hdshift,
      ZonedTime.instant_of_shift? heshift]
    omega

/-- The same two keys in another order: a stamp that is not after another one by
either of them is not sorted behind it. -/
theorem place_le (hdate : v.hasDate = w.hasDate) (hseconds : v.seconds.rank ≤ w.seconds.rank)
    (hinstant : v.instant ≤ w.instant) : v.place ≤ w.place := by
  rw [← not_lt, place_lt_iff hdate.symm]
  omega

theorem compareDates_isLE (hdate : v.hasDate = w.hasDate) (hinstant : v.instant ≤ w.instant) :
    (compareDates v.date w.date).isLE = true := by
  cases hv : v.hasDate with
  | false =>
    rw [hasDate_eq_false_iff.mp hv, hasDate_eq_false_iff.mp (hdate.symm.trans hv)]
    rfl
  | true =>
    obtain ⟨d, hd⟩ := hasDate_eq_true_iff.mp hv
    obtain ⟨e, he⟩ := hasDate_eq_true_iff.mp (hdate.symm.trans hv)
    rw [instant_of_date hd, instant_of_date he] at hinstant
    rw [hd, he, ← Ordering.ne_gt_iff_isLE]
    exact compare_le_iff_le.mpr hinstant

/-- A finite number of seconds that can be added to a dated stamp moves its date, in
the same offset, by a whole number of microseconds that is at most a half and
`2 ^ -34` away from the exact number, and exact for whole seconds. Of two finite
numbers that can be added to a stamp, the lesser one gives no later date, no more
seconds and no greater stamp. -/
theorem add?_accurate_and_monotone :
    (∀ (s v : Stamp) (t : ZonedTime) (x : Number), x.IsFinite → s.date = some t →
      s.add? x = some v → ∃ (u : ZonedTime) (micros : Int), v.date = some u ∧
        u.offset = t.offset ∧ u.instant = t.instant + micros ∧
        |(micros : ℚ) - 10 ^ 6 * x.value| ≤ 1 / 2 + 1 / 2 ^ 34 ∧
        ∀ n : Int, x.value = n → micros = 10 ^ 6 * n) ∧
    ∀ (s v w : Stamp) (x y : Number), s.IsTimed → x.IsFinite → y.IsFinite → x.value ≤ y.value →
      s.add? x = some v → s.add? y = some w →
        (compareDates v.date w.date).isLE = true ∧
        (v.seconds.lt w.seconds = true ∨ v.seconds.numEq w.seconds = true) ∧
        v.le w = true := by
  constructor
  · intro s v t x hx hs hv
    obtain ⟨a, ha, -⟩ := seconds_add? hv
    obtain ⟨u, hu, -, hshift⟩ := add?_eq_some hs hv
    refine ⟨u, x.micros, hu, (ZonedTime.shift?_eq_some_iff.mp hshift).1,
      ZonedTime.instant_of_shift? hshift, Number.micros_accurate hx ha hshift, ?_⟩
    intro n hn
    apply Number.micros_of_rank hx ha
    exact (Number.rank_eq_units hx ha hshift).trans (Number.value_eq_intCast_iff.mp hn)
  · intro s v w x y hs hx hy h hv hw
    have hdate : v.hasDate = w.hasDate := (hasDate_add? hv).trans (hasDate_add? hw).symm
    have hvtimed : v.IsTimed := isTimed_add? hs (not_infinite_of_isFinite hx) hv
    have hwtimed : w.IsTimed := isTimed_add? hs (not_infinite_of_isFinite hy) hw
    have hseconds := rank_seconds_le_of_add? hs hx hy h hv hw
    have hinstant := instant_le_of_add? hx hy h hv hw
    refine ⟨compareDates_isLE hdate hinstant, ?_, ?_⟩
    · exact (Binary64.lt_or_numEq_iff_rank_le hvtimed hwtimed).mpr hseconds
    · exact (le_iff hvtimed hwtimed).mpr (place_le hdate hseconds hinstant)

/-- One and a half microseconds, as a double. -/
def threeHalves : Number :=
  .double (.ofQuotient false 3 2000000)

/-- A tie is rounded to two microseconds; two seconds are added exactly. -/
theorem atEpoch_moved_accurately :
    (atEpoch 1 false).IsTimed ∧ threeHalves.IsFinite ∧ (Number.whole 2).IsFinite ∧
      threeHalves.value ≤ (Number.whole 2).value ∧
      ∃ t v w, (atEpoch 1 false).date = some t ∧
        (atEpoch 1 false).add? threeHalves = some v ∧
        (atEpoch 1 false).add? (.whole 2) = some w ∧
        (∃ u, v.date = some u ∧ |(2 : ℚ) - 10 ^ 6 * threeHalves.value| ≤ 1 / 2 + 1 / 2 ^ 34 ∧
          u.instant = t.instant + 2) ∧
        (∃ u, w.date = some u ∧ u.instant = t.instant + 2000000) ∧
        v.le w = true := by
  have htimed : (atEpoch 1 false).IsTimed := by decide
  have hhalves : threeHalves.IsFinite :=
    Binary64.isFinite_ofQuotient (by decide) (by decide)
  have htwo : (Number.whole 2).IsFinite := Number.isFinite_whole 2
  have hvalue : threeHalves.value ≤ (Number.whole 2).value := by
    rw [Number.value_le_iff]
    decide +kernel
  have hmoved : ((atEpoch 1 false).add? threeHalves).isSome = true := by decide +kernel
  have hmoved' : ((atEpoch 1 false).add? (.whole 2)).isSome = true := by decide +kernel
  have hbefore : (atEpoch 1 false).instant = 0 := by decide +kernel
  have hcount : ((atEpoch 1 false).add? threeHalves).map instant = some 2 := by decide +kernel
  obtain ⟨t, ht⟩ : ∃ t, (atEpoch 1 false).date = some t := ⟨_, rfl⟩
  obtain ⟨v, hv⟩ := Option.isSome_iff_exists.mp hmoved
  obtain ⟨w, hw⟩ := Option.isSome_iff_exists.mp hmoved'
  obtain ⟨haccurate, hmonotone⟩ := add?_accurate_and_monotone
  obtain ⟨u, micros, hu, -, hinstant, herror, -⟩ := haccurate _ v t threeHalves hhalves ht hv
  obtain ⟨u', micros', hu', -, hinstant', -, hexact⟩ := haccurate _ w t (.whole 2) htwo ht hw
  have hmicros : micros = 2 := by
    have hafter : v.instant = 2 := by
      rw [hv, Option.map_some] at hcount
      exact Option.some.inj hcount
    rw [instant_of_date ht] at hbefore
    rw [instant_of_date hu] at hafter
    omega
  rw [hmicros] at hinstant herror
  rw [hexact 2 (Number.value_whole 2)] at hinstant'
  exact ⟨htimed, hhalves, htwo, hvalue, t, v, w, ht, hv, hw, ⟨u, hu, herror, hinstant⟩,
    ⟨u', hu', hinstant'⟩, (hmonotone _ v w _ _ htimed hhalves htwo hvalue hv hw).2.2⟩

end Stamp
end HeapChronicle
