import HeapChronicle.Proofs.Binary64.Fraction
import HeapChronicle.Proofs.Number.Units
import HeapChronicle.Proofs.Stamp.Derived

/-!
The milliseconds since 1970 of a date. Whole seconds times a thousand are an integer that
needs no rounding, and so is the part of a second if it has whole milliseconds. Then their
sum is exact as well (`epochMillis_eq_ofInt`), all over the calendar. Microseconds are
rounded away, but never turn the order of the instants around.
-/

namespace HeapChronicle
namespace Stamp

variable {a b : Stamp} {s t : ZonedTime} {n : Int}

theorem epochMillis_of_date (ha : a.date = some t) :
    a.epochMillis = (Binary64.ofInt (wholeSeconds t * 1000)).add
      (.ofQuotient false (partMicros t) 1000) := by
  have hlt := natAbs_wholeSeconds_lt t
  have hscale : (Binary64.ofInt (wholeSeconds t)).scaleUp 1000 = .ofInt (wholeSeconds t * 1000) :=
    Binary64.scaleUp_ofInt (by omega) (by decide)
  simp only [epochMillis, ha, hscale]

theorem natAbs_le_of_instant (ht : t.instant = 1000 * n) : n.natAbs ≤ 2 ^ 53 := by
  have hlt := natAbs_wholeSeconds_lt t
  have hpart := partMicros_lt t
  rw [instant_eq] at ht
  omega

/-- Neither the product nor the quotient nor the sum is rounded. -/
theorem epochMillis_eq_ofInt (ha : a.date = some t) (ht : t.instant = 1000 * n) :
    a.epochMillis = .ofInt n := by
  have hlt := natAbs_wholeSeconds_lt t
  have hpart := partMicros_lt t
  obtain ⟨millis, hmillis⟩ : ∃ millis, partMicros t = millis * 1000 :=
    ⟨partMicros t / 1000, by rw [instant_eq] at ht; omega⟩
  have hsum : wholeSeconds t * 1000 + millis = n := by
    rw [instant_eq] at ht
    omega
  rw [epochMillis_of_date ha, hmillis, Binary64.ofQuotient_mul (by decide),
    Binary64.add_ofInt (by omega) (by omega), hsum]

theorem value_epochMillis (ha : a.date = some t) (ht : t.instant = 1000 * n) :
    (Number.double a.epochMillis).IsFinite ∧ (Number.double a.epochMillis).value = n := by
  have hn := natAbs_le_of_instant ht
  rw [epochMillis_eq_ofInt ha ht]
  exact ⟨Binary64.isFinite_ofInt hn, Number.value_eq_intCast_iff.mpr (Binary64.rank_ofInt hn)⟩

/-- The part of a second is at most a thousand milliseconds. -/
theorem rank_partMillis {micros : Nat} (h : micros < 1000000) :
    0 ≤ (Binary64.ofQuotient false micros 1000).rank ∧
      (Binary64.ofQuotient false micros 1000).rank ≤ 1000 * Magnitude.one := by
  refine ⟨Binary64.rank_ofUnits_nonneg, ?_⟩
  have hle : micros ≤ 1000 * 1000 := h.le
  have hmono : (Binary64.ofQuotient false micros 1000).rank ≤
      (Binary64.ofQuotient false (1000 * 1000) 1000).rank :=
    Binary64.rank_ofQuotient_mono (by decide) hle
  rwa [Binary64.ofQuotient_mul (by decide), Binary64.rank_ofInt (by decide)] at hmono

theorem isFinite_partMillis (t : ZonedTime) :
    (Binary64.ofQuotient false (partMicros t) 1000).isFinite = true := by
  have hnumber : (Binary64.ofQuotient false (partMicros t) 1000).isNaN = false :=
    Binary64.isNaN_ofUnits
  have hlimit : 1000 * Magnitude.one < Magnitude.limit := Magnitude.mul_one_lt_limit (by decide)
  obtain ⟨hnonneg, hle⟩ := rank_partMillis (partMicros_lt t)
  apply Binary64.isFinite_of_natAbs_rank_lt hnumber
  omega

theorem rank_epochMillis (ha : a.date = some t) :
    a.epochMillis.rank = Binary64.roundRank (wholeSeconds t * (1000 * Magnitude.one) +
      (Binary64.ofQuotient false (partMicros t) 1000).rank) := by
  have hlt := natAbs_wholeSeconds_lt t
  have hbound : (wholeSeconds t * 1000).natAbs ≤ 2 ^ 53 := by omega
  rw [epochMillis_of_date ha,
    Binary64.rank_add (Binary64.isFinite_ofInt hbound) (isFinite_partMillis t),
    Binary64.rank_ofInt hbound, Int.mul_assoc]

theorem isNaN_epochMillis (ha : a.date = some t) : a.epochMillis.isNaN = false := by
  have hlt := natAbs_wholeSeconds_lt t
  rw [epochMillis_of_date ha]
  apply Binary64.isNaN_add_of_isFinite (Binary64.isFinite_ofInt (by omega))
  exact Binary64.isNaN_ofUnits

theorem epochMillis_atMost (ha : a.date = some s) (hb : b.date = some t)
    (h : s.instant ≤ t.instant) : a.epochMillis.AtMost b.epochMillis := by
  rw [Binary64.atMost_iff_rank_le (isNaN_epochMillis ha) (isNaN_epochMillis hb),
    rank_epochMillis ha, rank_epochMillis hb]
  apply Binary64.roundRank_mono
  apply wholeSeconds_add_mono _ (fun _ => rank_partMillis) h
  exact fun m n hle => Binary64.rank_ofQuotient_mono (by decide) hle

theorem epochMillis_congr (ha : a.date = some s) (hb : b.date = some t)
    (h : s.instant = t.instant) : a.epochMillis = b.epochMillis := by
  rw [epochMillis_of_date ha, epochMillis_of_date hb, wholeSeconds, partMicros, h]
  rfl

/-- The milliseconds of a date that has whole ones, as every date that is read does, are
exactly those between the beginning of 1970 and its instant. Among dates of microseconds an
earlier one never has more of them, and dates of one instant have the same. The seconds of
the stamp play no part. -/
theorem epochMillis_exact_and_monotone :
    (∀ (a : Stamp) (t : ZonedTime) (n : Int), a.date = some t → t.instant = 1000 * n →
      (Number.double a.epochMillis).IsFinite ∧ (Number.double a.epochMillis).value = n) ∧
    (∀ (cs : List Char) (t : ZonedTime), Iso8601.read cs = .ok t → ∃ n, t.instant = 1000 * n) ∧
    (∀ (a b : Stamp) (s t : ZonedTime), a.date = some s → b.date = some t →
      (s.instant ≤ t.instant → a.epochMillis.AtMost b.epochMillis) ∧
      (s.instant = t.instant → a.epochMillis = b.epochMillis)) ∧
    ∀ (date : Option ZonedTime) (x y : Binary64),
      epochMillis ⟨date, x⟩ = epochMillis ⟨date, y⟩ := by
  refine ⟨fun a t n => value_epochMillis, ?_, ?_, fun _ _ _ => rfl⟩
  · intro cs t h
    exact Iso8601.dvd_instant_of_read h
  · intro a b s t ha hb
    exact ⟨epochMillis_atMost ha hb, epochMillis_congr ha hb⟩

/-- The last millisecond of the year 9999 is exact. The last two microseconds are rounded up
to the next year, and stay in order. -/
theorem yearsEnd_epochMillis :
    (yearsEnd 999).instant = 1000 * 253402300799999 ∧
      (Number.double (ofDate (yearsEnd 999)).epochMillis).value = (253402300799999 : Int) ∧
      (yearsEnd 1).instant < (yearsEnd 0).instant ∧
      (ofDate (yearsEnd 1)).epochMillis.AtMost (ofDate (yearsEnd 0)).epochMillis ∧
      (ofDate (yearsEnd 0)).epochMillis = .ofInt 253402300800000 := by
  have hmillis : (yearsEnd 999).instant = 1000 * 253402300799999 := by decide +kernel
  have hless : (yearsEnd 1).instant < (yearsEnd 0).instant := by decide +kernel
  have hround : (ofDate (yearsEnd 0)).epochMillis = .ofInt 253402300800000 := by decide +kernel
  obtain ⟨hexact, -, horder, -⟩ := epochMillis_exact_and_monotone
  refine ⟨hmillis, (hexact _ _ _ rfl hmillis).2, hless, ?_, hround⟩
  exact (horder _ _ _ _ rfl rfl).1 hless.le

end Stamp
end HeapChronicle
