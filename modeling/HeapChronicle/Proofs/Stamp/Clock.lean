import HeapChronicle.Proofs.Stamp.Derived
import HeapChronicle.Proofs.Stamp.Preorder

/-!
Which of two stamps comes after the other. Among stamps that all have dates, or
all have none, `isAfter` compares clocks: the instant of the date, then the rank
of the seconds (`isAfter_iff_clock`). Places have the same two keys the other way
around, so the two orders part only on stamps whose dates and seconds contradict
each other.
-/

namespace HeapChronicle
namespace Stamp

open Prod.Lex

variable {s t a b c : Stamp} {d e : ZonedTime}

/-- The instant of the date, and zero without one. -/
def instant (s : Stamp) : Int :=
  (s.date.map ZonedTime.instant).getD 0

abbrev Clock := Int ×ₗ Int

def clock (s : Stamp) : Clock :=
  toLex (s.instant, s.seconds.rank)

/-- Both stamps have dates, and these stand for different instants. -/
def DatesDiffer (s t : Stamp) : Prop :=
  ∃ d ∈ s.date, ∃ e ∈ t.date, d.instant ≠ e.instant

/-- The dates of the two stamps are in one strict order and their seconds in the
other. -/
def Contradicts (s t : Stamp) : Prop :=
  ∃ d ∈ s.date, ∃ e ∈ t.date,
    d.instant < e.instant ∧ t.seconds.lt s.seconds = true ∨
      e.instant < d.instant ∧ s.seconds.lt t.seconds = true

/-- Neither stamp comes after the other. -/
def Level (s t : Stamp) : Prop :=
  s.isAfter t = false ∧ t.isAfter s = false

theorem instant_of_date (h : s.date = some d) : s.instant = d.instant := by
  rw [instant, h]
  rfl

theorem instant_of_undated (h : s.hasDate = false) : s.instant = 0 := by
  rw [instant, hasDate_eq_false_iff.mp h]
  rfl

theorem clock_lt_iff :
    s.clock < t.clock ↔
      s.instant < t.instant ∨ s.instant = t.instant ∧ s.seconds.rank < t.seconds.rank :=
  toLex_lt_toLex

theorem place_lt_iff (h : s.hasDate = t.hasDate) :
    s.place < t.place ↔
      s.seconds.rank < t.seconds.rank ∨
        s.seconds.rank = t.seconds.rank ∧ s.instant < t.instant := by
  have hgroup : (!s.hasDate) = (!t.hasDate) := congrArg (!·) h
  rw [place, place, hgroup, toLex_lt_toLex]
  simp only [lt_irrefl, true_and, false_or]
  exact toLex_lt_toLex

theorem DatesDiffer.symm (h : s.DatesDiffer t) : t.DatesDiffer s := by
  obtain ⟨d, hd, e, he, hne⟩ := h
  exact ⟨e, he, d, hd, hne.symm⟩

theorem DatesDiffer.instant_ne (h : s.DatesDiffer t) : s.instant ≠ t.instant := by
  obtain ⟨d, hd, e, he, hne⟩ := h
  rwa [instant_of_date hd, instant_of_date he]

/-- Different dates decide. -/
theorem isAfter_of_datesDiffer (h : s.DatesDiffer t) :
    s.isAfter t = true ↔ t.instant < s.instant := by
  obtain ⟨d, hd, e, he, hne⟩ := h
  rw [instant_of_date hd, instant_of_date he]
  simp only [isAfter, Option.mem_def.mp hd, Option.mem_def.mp he]
  cases hcompare : d.compare e with
  | lt =>
    have hless : d.instant < e.instant := compare_lt_iff_lt.mp hcompare
    simp only [Bool.false_eq_true, false_iff]
    omega
  | eq => exact absurd (compare_eq_iff_eq.mp hcompare) hne
  | gt =>
    have hgreater : e.instant < d.instant := compare_gt_iff_gt.mp hcompare
    simp only [true_iff]
    exact hgreater

/-- Otherwise the seconds do. -/
theorem isAfter_of_not_datesDiffer (hs : s.IsTimed) (ht : t.IsTimed) (h : ¬s.DatesDiffer t) :
    s.isAfter t = true ↔ t.seconds.rank < s.seconds.rank := by
  have hseconds : t.seconds.orZero.lt s.seconds = true ↔ t.seconds.rank < s.seconds.rank := by
    rw [Binary64.orZero_of_isNaN ht]
    exact Binary64.lt_iff_rank_lt ht hs
  unfold isAfter
  split
  next d e hd he =>
    have hsame : d.instant = e.instant := by
      by_contra hne
      exact h ⟨d, hd, e, he, hne⟩
    have htie : d.compare e = .eq := compare_eq_iff_eq.mpr hsame
    rw [htie]
    exact hseconds
  next => exact hseconds

theorem instant_eq_of_not_datesDiffer (hdate : s.hasDate = t.hasDate) (h : ¬s.DatesDiffer t) :
    s.instant = t.instant := by
  cases hs : s.hasDate with
  | false => rw [instant_of_undated hs, instant_of_undated (hdate.symm.trans hs)]
  | true =>
    obtain ⟨d, hd⟩ := hasDate_eq_true_iff.mp hs
    obtain ⟨e, he⟩ := hasDate_eq_true_iff.mp (hdate.symm.trans hs)
    rw [instant_of_date hd, instant_of_date he]
    by_contra hne
    exact h ⟨d, hd, e, he, hne⟩

theorem isAfter_iff_clock (hs : s.IsTimed) (ht : t.IsTimed) (hdate : s.hasDate = t.hasDate) :
    s.isAfter t = true ↔ t.clock < s.clock := by
  rw [clock_lt_iff]
  by_cases h : s.DatesDiffer t
  · have hne := h.instant_ne
    rw [isAfter_of_datesDiffer h]
    omega
  · have hsame := instant_eq_of_not_datesDiffer hdate h
    rw [isAfter_of_not_datesDiffer hs ht h]
    omega

theorem isAfter_asymm (hs : s.IsTimed) (ht : t.IsTimed) (h : s.isAfter t = true) :
    t.isAfter s = false := by
  rw [Bool.eq_false_iff, Ne]
  intro hback
  by_cases hdates : s.DatesDiffer t
  · rw [isAfter_of_datesDiffer hdates] at h
    rw [isAfter_of_datesDiffer hdates.symm] at hback
    omega
  · rw [isAfter_of_not_datesDiffer hs ht hdates] at h
    rw [isAfter_of_not_datesDiffer ht hs (mt DatesDiffer.symm hdates)] at hback
    omega

theorem level_iff (hs : s.IsTimed) (ht : t.IsTimed) :
    s.Level t ↔ s.seconds.numEq t.seconds = true ∧ ¬s.DatesDiffer t := by
  rw [Level, Bool.eq_false_iff, Bool.eq_false_iff, Ne, Ne]
  by_cases h : s.DatesDiffer t
  · have hne := h.instant_ne
    rw [isAfter_of_datesDiffer h, isAfter_of_datesDiffer h.symm]
    simp only [h, not_true_eq_false, and_false, iff_false]
    omega
  · rw [isAfter_of_not_datesDiffer hs ht h,
      isAfter_of_not_datesDiffer ht hs (mt DatesDiffer.symm h), Binary64.numEq_iff_rank_eq hs ht]
    simp only [h, not_false_eq_true, and_true]
    omega

theorem isBefore_both_iff : s.isBefore t = true ∧ t.isBefore s = true ↔ s.Level t := by
  simp only [isBefore, Level, Bool.not_eq_true']

theorem level_iff_clock (hs : s.IsTimed) (ht : t.IsTimed) (hdate : s.hasDate = t.hasDate) :
    s.Level t ↔ s.clock = t.clock := by
  rw [Level, Bool.eq_false_iff, Bool.eq_false_iff, Ne, Ne, isAfter_iff_clock hs ht hdate,
    isAfter_iff_clock ht hs hdate.symm, not_lt, not_lt]
  exact le_antisymm_iff.symm

theorem contradicts_iff (hs : s.IsTimed) (ht : t.IsTimed) (hsd : s.hasDate = true)
    (htd : t.hasDate = true) :
    s.Contradicts t ↔
      s.instant < t.instant ∧ t.seconds.rank < s.seconds.rank ∨
        t.instant < s.instant ∧ s.seconds.rank < t.seconds.rank := by
  obtain ⟨d, hd⟩ := hasDate_eq_true_iff.mp hsd
  obtain ⟨e, he⟩ := hasDate_eq_true_iff.mp htd
  rw [instant_of_date hd, instant_of_date he]
  simp [Contradicts, hd, he, Binary64.lt_iff_rank_lt hs ht, Binary64.lt_iff_rank_lt ht hs]

theorem gt_iff (hs : s.IsTimed) (ht : t.IsTimed) : s.gt t = true ↔ t.place < s.place := by
  rw [gt, beq_iff_eq]
  exact compare_eq_gt_iff hs ht

theorem le_iff (hs : s.IsTimed) (ht : t.IsTimed) : s.le t = true ↔ s.place ≤ t.place := by
  rw [le, bne_iff_ne, Ne, compare_eq_gt_iff hs ht, not_lt]

theorem lt_iff (hs : s.IsTimed) (ht : t.IsTimed) : s.lt t = true ↔ s.place < t.place := by
  rw [lt, beq_iff_eq]
  exact compare_eq_lt_iff hs ht

/-- Stamps that do not contradict each other come after each other as they are
sorted. -/
theorem isAfter_eq_gt (hs : s.IsTimed) (ht : t.IsTimed) (hdate : s.hasDate = t.hasDate)
    (h : ¬s.Contradicts t) : s.isAfter t = s.gt t := by
  rw [Bool.eq_iff_iff, isAfter_iff_clock hs ht hdate, gt_iff hs ht, clock_lt_iff,
    place_lt_iff hdate.symm]
  cases hsd : s.hasDate with
  | false =>
    have hs0 := instant_of_undated hsd
    have ht0 := instant_of_undated (hdate.symm.trans hsd)
    omega
  | true =>
    rw [contradicts_iff hs ht hsd (hdate.symm.trans hsd)] at h
    omega

/-- Stamps that contradict each other come after each other the other way around. -/
theorem isAfter_eq_lt (hs : s.IsTimed) (ht : t.IsTimed) (h : s.Contradicts t) :
    s.isAfter t = s.lt t := by
  have hdated : s.hasDate = true ∧ t.hasDate = true := by
    obtain ⟨d, hd, e, he, -⟩ := h
    exact ⟨Option.isSome_of_mem hd, Option.isSome_of_mem he⟩
  obtain ⟨hsd, htd⟩ := hdated
  have hdate := hsd.trans htd.symm
  rw [contradicts_iff hs ht hsd htd] at h
  rw [Bool.eq_iff_iff, isAfter_iff_clock hs ht hdate, lt_iff hs ht, clock_lt_iff,
    place_lt_iff hdate]
  omega

/-- No stamp comes after one that comes after it, and two stamps are both before
each other exactly if their seconds are equal and their dates do not differ. Among
stamps that all have dates, or all have none, coming after is a strict weak order.
There it is the sorting order, except that it goes the other way between stamps
whose dates and seconds contradict each other. -/
theorem isAfter_strictWeakOrder (ha : a.IsTimed) (hb : b.IsTimed) (hc : c.IsTimed) :
    (a.isAfter b = true → b.isAfter a = false) ∧
    (a.isBefore b = true ∧ b.isBefore a = true ↔
      a.seconds.numEq b.seconds = true ∧ ¬a.DatesDiffer b) ∧
    (a.hasDate = b.hasDate → b.hasDate = c.hasDate →
      (a.isAfter b = true → b.isAfter c = true → a.isAfter c = true) ∧
      (a.Level b → b.Level c → a.Level c)) ∧
    (a.hasDate = b.hasDate → ¬a.Contradicts b → a.isAfter b = a.gt b) ∧
    (a.Contradicts b → a.isAfter b = a.lt b) := by
  refine ⟨isAfter_asymm ha hb, ?_, ?_, isAfter_eq_gt ha hb, isAfter_eq_lt ha hb⟩
  · exact isBefore_both_iff.trans (level_iff ha hb)
  · intro hab hbc
    have hac := hab.trans hbc
    rw [isAfter_iff_clock ha hb hab, isAfter_iff_clock hb hc hbc, isAfter_iff_clock ha hc hac,
      level_iff_clock ha hb hab, level_iff_clock hb hc hbc, level_iff_clock ha hc hac]
    exact ⟨fun hfirst hsecond => hsecond.trans hfirst, Eq.trans⟩

/-- A stamp of one of the last microseconds of the year 9999, with some seconds. -/
def nearYearsEnd (earlier : Nat) (seconds : Int) : Stamp :=
  ⟨some (yearsEnd earlier), .ofInt seconds⟩

theorem isTimed_nearYearsEnd (earlier : Nat) (seconds : Int) :
    (nearYearsEnd earlier seconds).IsTimed := by
  rw [nearYearsEnd, isTimed_dated]
  exact Binary64.isNaN_ofInt

/-- The seconds start again before the last of three dates, as they do when a virtual
machine is restarted. The last stamp still comes after the other two, though it is
sorted before them. -/
theorem nearYearsEnd_isAfter :
    (nearYearsEnd 0 0).IsTimed ∧ (nearYearsEnd 1 1).IsTimed ∧ (nearYearsEnd 2 1).IsTimed ∧
      (nearYearsEnd 0 0).Contradicts (nearYearsEnd 1 1) ∧
      ¬(nearYearsEnd 1 1).Contradicts (nearYearsEnd 2 1) ∧
      (nearYearsEnd 0 0).isAfter (nearYearsEnd 2 1) = true ∧
      (nearYearsEnd 1 1).isAfter (nearYearsEnd 0 0) = false ∧
      (nearYearsEnd 0 0).lt (nearYearsEnd 1 1) = true ∧
      (nearYearsEnd 1 1).gt (nearYearsEnd 2 1) = true := by
  have htimed := isTimed_nearYearsEnd
  have hdated (earlier : Nat) (seconds : Int) : (nearYearsEnd earlier seconds).hasDate = true := rfl
  have hlast : (nearYearsEnd 0 0).isAfter (nearYearsEnd 1 1) = true := by decide +kernel
  have hfirst : (nearYearsEnd 1 1).isAfter (nearYearsEnd 2 1) = true := by decide +kernel
  have hopposite : (nearYearsEnd 0 0).Contradicts (nearYearsEnd 1 1) :=
    ⟨yearsEnd 0, rfl, yearsEnd 1, rfl, .inr (by decide +kernel)⟩
  have hagree : ¬(nearYearsEnd 1 1).Contradicts (nearYearsEnd 2 1) := by
    rintro ⟨d, ⟨⟩, e, ⟨⟩, h⟩
    revert h
    decide +kernel
  obtain ⟨hasymm, -, htrans, -, hless⟩ :=
    isAfter_strictWeakOrder (htimed 0 0) (htimed 1 1) (htimed 2 1)
  obtain ⟨-, -, -, hgreater, -⟩ :=
    isAfter_strictWeakOrder (htimed 1 1) (htimed 2 1) (htimed 2 1)
  refine ⟨htimed 0 0, htimed 1 1, htimed 2 1, hopposite, hagree, ?_, hasymm hlast, ?_, ?_⟩
  · have hfirstTwo := (hdated 0 0).trans (hdated 1 1).symm
    have hlastTwo := (hdated 1 1).trans (hdated 2 1).symm
    exact (htrans hfirstTwo hlastTwo).1 hlast hfirst
  · exact (hless hopposite).symm.trans hlast
  · have hlastTwo := (hdated 1 1).trans (hdated 2 1).symm
    exact (hgreater hlastTwo hagree).symm.trans hfirst

end Stamp
end HeapChronicle
