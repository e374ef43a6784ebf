import HeapChronicle.Proofs.Binary64.Difference
import HeapChronicle.Proofs.Log.Span
import HeapChronicle.Proofs.Stamp.Clock

/-!
The span of a log is the widest gap between two of its stamps. It is measured by one
key of the stamps, the instants if all of them have dates (`clock_spans`) and else the
ranks of their seconds (`seconds_spans`), and it is rounded once from the greatest
difference of two keys. So it depends on which keys there are, not on their order, and it
grows with them.
-/

namespace HeapChronicle

/-- The seconds from the instant of another dated stamp to that of this one, rounded
once. -/
def Stamp.clockSince (s t : Stamp) : Binary64 :=
  .ofRat ((s.instant - t.instant : Int) / 1000000)

namespace Log

open Binary64

def AllDated (l : List Stamp) : Prop :=
  ∀ s ∈ l, s.hasDate = true

def AllFinite (l : List Stamp) : Prop :=
  ∀ s ∈ l, s.seconds.isFinite = true

instance (l : List Stamp) : Decidable (AllDated l) :=
  inferInstanceAs (Decidable (∀ s ∈ l, s.hasDate = true))

variable {first : Binary64} {rest : List Binary64} {ks ks' : List Int} {l l' : List Stamp}

/-- The differences of any two of some integers. -/
def gaps (ks : List Int) : Set Int :=
  {n | ∃ i ∈ ks, ∃ j ∈ ks, n = i - j}

theorem gaps_congr (h : ∀ k, k ∈ ks ↔ k ∈ ks') : gaps ks = gaps ks' := by
  simp only [gaps, h]

theorem zero_mem_gaps {k : Int} (h : k ∈ ks) : 0 ∈ gaps ks :=
  ⟨k, h, k, h, (sub_self k).symm⟩

theorem isGreatest_gaps (k : Int) (ks : List Int) :
    IsGreatest (gaps (k :: ks)) (ks.foldl max k - ks.foldl min k) := by
  have hgreatest : (k :: ks).max? = some (ks.foldl max k) := List.max?_cons'
  have hleast : (k :: ks).min? = some (ks.foldl min k) := List.min?_cons'
  obtain ⟨hmaxMem, hmax⟩ := List.max?_eq_some_iff.mp hgreatest
  obtain ⟨hminMem, hmin⟩ := List.min?_eq_some_iff.mp hleast
  refine ⟨⟨_, hmaxMem, _, hminMem, rfl⟩, ?_⟩
  rintro n ⟨i, hi, j, hj, rfl⟩
  have hupper := hmax i hi
  have hlower := hmin j hj
  omega

theorem instantSpan_eq_ofCount (first : Int) (rest : List Int) :
    ∃ n, IsGreatest (gaps (first :: rest)) n ∧
      instantSpan first rest = ofCount Magnitude.one 1000000 n := by
  have hgreatest := isGreatest_gaps first rest
  have hnonneg := hgreatest.2 (zero_mem_gaps List.mem_cons_self)
  refine ⟨_, hgreatest, ?_⟩
  rw [ofCount_of_nonneg hnonneg, instantSpan, ofQuotient]

theorem isFinite_chosen {takes : Binary64 → Binary64 → Bool}
    (hfirst : first.isFinite = true) (hrest : ∀ x ∈ rest, x.isFinite = true) :
    (rest.foldl (fun best x => if takes best x then x else best) first).isFinite = true := by
  induction rest generalizing first with
  | nil => exact hfirst
  | cons x rest ih =>
    obtain ⟨hx, hrest⟩ := List.forall_mem_cons.mp hrest
    rw [List.foldl_cons]
    apply ih _ hrest
    split
    · exact hx
    · exact hfirst

/-- If each step chooses by rank, the choice has the rank that is chosen. -/
theorem rank_chosen {takes : Binary64 → Binary64 → Bool} {choose : Int → Int → Int}
    (hstep : ∀ {best x : Binary64}, best.isFinite = true → x.isFinite = true →
      (if takes best x then x else best).rank = choose best.rank x.rank)
    (hfirst : first.isFinite = true) (hrest : ∀ x ∈ rest, x.isFinite = true) :
    (rest.foldl (fun best x => if takes best x then x else best) first).rank =
      (rest.map rank).foldl choose first.rank := by
  induction rest generalizing first with
  | nil => rfl
  | cons x rest ih =>
    obtain ⟨hx, hrest⟩ := List.forall_mem_cons.mp hrest
    have hchosen : (if takes first x then x else first).isFinite = true := by
      split
      · exact hx
      · exact hfirst
    rw [List.foldl_cons, ih hchosen hrest, hstep hfirst hx, List.map_cons, List.foldl_cons]

/-- A choice stays with the first number if nothing takes its place. -/
theorem chosen_eq_first {takes : Binary64 → Binary64 → Bool}
    (h : ∀ x ∈ rest, takes first x = false) :
    rest.foldl (fun best x => if takes best x then x else best) first = first := by
  induction rest with
  | nil => rfl
  | cons x rest ih =>
    obtain ⟨hx, hrest⟩ := List.forall_mem_cons.mp h
    rw [List.foldl_cons, hx, if_neg Bool.false_ne_true]
    exact ih hrest

theorem rank_greatest (hfirst : first.isFinite = true) (hrest : ∀ x ∈ rest, x.isFinite = true) :
    (greatest first rest).rank = (rest.map rank).foldl max first.rank := by
  apply rank_chosen _ hfirst hrest
  intro best x hbest hx
  have hlt := lt_iff_rank_lt (isNaN_of_isFinite hbest) (isNaN_of_isFinite hx)
  split
  next htakes => exact (max_eq_right (hlt.mp htakes).le).symm
  next hkeeps => exact (max_eq_left (not_lt.mp (mt hlt.mpr hkeeps))).symm

theorem rank_least (hfirst : first.isFinite = true) (hrest : ∀ x ∈ rest, x.isFinite = true) :
    (least first rest).rank = (rest.map rank).foldl min first.rank := by
  apply rank_chosen _ hfirst hrest
  intro best x hbest hx
  have hlt := lt_iff_rank_lt (isNaN_of_isFinite hx) (isNaN_of_isFinite hbest)
  split
  next htakes => exact (min_eq_right (hlt.mp htakes).le).symm
  next hkeeps => exact (min_eq_left (not_lt.mp (mt hlt.mpr hkeeps))).symm

/-- Numbers of one rank leave both choices at the first of them. -/
theorem greatest_eq_least (hfirst : first.isFinite = true)
    (hrest : ∀ x ∈ rest, x.isFinite = true)
    (h : (greatest first rest).rank = (least first rest).rank) :
    greatest first rest = least first rest := by
  obtain ⟨-, hgaps⟩ := isGreatest_gaps first.rank (rest.map rank)
  rw [← rank_greatest hfirst hrest, ← rank_least hfirst hrest, h, sub_self] at hgaps
  have htie : ∀ x ∈ rest, x.rank = first.rank := by
    intro x hx
    have hfirstMem : first.rank ∈ first.rank :: rest.map rank := List.mem_cons_self
    have hmem : x.rank ∈ first.rank :: rest.map rank :=
      List.mem_cons_of_mem _ (List.mem_map_of_mem hx)
    have habove : x.rank - first.rank ≤ 0 := hgaps ⟨_, hmem, _, hfirstMem, rfl⟩
    have hbelow : first.rank - x.rank ≤ 0 := hgaps ⟨_, hfirstMem, _, hmem, rfl⟩
    omega
  have hnumber := isNaN_of_isFinite hfirst
  have hgreatest : greatest first rest = first := by
    apply chosen_eq_first
    intro x hx
    exact lt_eq_false_of_rank_eq hnumber (isNaN_of_isFinite (hrest x hx)) (htie x hx).symm
  have hleast : least first rest = first := by
    apply chosen_eq_first
    intro x hx
    exact lt_eq_false_of_rank_eq (isNaN_of_isFinite (hrest x hx)) hnumber (htie x hx)
  exact hgreatest.trans hleast.symm

theorem secondsSpan_eq_ofCount (hfirst : first.isFinite = true)
    (hrest : ∀ x ∈ rest, x.isFinite = true) :
    ∃ n, IsGreatest (gaps ((first :: rest).map rank)) n ∧
      secondsSpan first rest = ofCount 1 1 n := by
  refine ⟨_, isGreatest_gaps first.rank (rest.map rank), ?_⟩
  rw [secondsSpan, ← rank_greatest hfirst hrest, ← rank_least hfirst hrest]
  exact sub_eq_ofCount (isFinite_chosen hfirst hrest) (isFinite_chosen hfirst hrest)
    (greatest_eq_least hfirst hrest)

theorem instants?_eq_some_iff {is : List Int} :
    instants? l = some is ↔ AllDated l ∧ is = l.map Stamp.instant := by
  induction l generalizing is with
  | nil =>
    constructor
    · rintro ⟨⟩
      exact ⟨List.forall_mem_nil _, rfl⟩
    · rintro ⟨-, rfl⟩
      rfl
  | cons s l ih =>
    rw [instants?_cons]
    cases hs : s.date with
    | none => simp [AllDated, Stamp.hasDate, hs]
    | some d =>
      have hdated : s.hasDate = true := Stamp.hasDate_eq_true_iff.mpr ⟨d, hs⟩
      rw [Option.map_some, Option.bind_some, Option.map_eq_some_iff, List.map_cons,
        Stamp.instant_of_date hs]
      simp only [ih, AllDated, List.forall_mem_cons, hdated, true_and]
      constructor
      · rintro ⟨_, ⟨hrest, rfl⟩, rfl⟩
        exact ⟨hrest, rfl⟩
      · rintro ⟨hrest, rfl⟩
        exact ⟨_, ⟨hrest, rfl⟩, rfl⟩

theorem instants?_eq_none_iff : instants? l = none ↔ ¬AllDated l := by
  rw [Option.eq_none_iff_forall_ne_some]
  constructor
  · intro h hdated
    exact h _ (instants?_eq_some_iff.mpr ⟨hdated, rfl⟩)
  · intro h is his
    exact h (instants?_eq_some_iff.mp his).1

/-! ## Measures -/

/-- How stamps are told apart: by an integer of each, a step of which is so many units. -/
structure Measure where
  key : Stamp → Int
  scale : Nat
  den : Nat
  den_pos : 0 < den

namespace Measure

variable {m : Measure} {s t : Stamp}

def clock : Measure :=
  ⟨Stamp.instant, Magnitude.one, 1000000, by decide⟩

def seconds : Measure :=
  ⟨fun s => s.seconds.rank, 1, 1, by decide⟩

/-- The rounded distance from one stamp to another. -/
def since (m : Measure) (s t : Stamp) : Binary64 :=
  .ofCount m.scale m.den (m.key s - m.key t)

/-- The span of a log is its widest gap, in this measure. -/
def Spans (m : Measure) (l : List Stamp) : Prop :=
  ∃ n, IsGreatest (gaps (l.map m.key)) n ∧ span l = .ofCount m.scale m.den n

theorem clock_since (s t : Stamp) : clock.since s t = s.clockSince t := by
  have hvalue : ((s.instant - t.instant : Int) : ℚ) / (1000000 : Nat) =
      (s.instant - t.instant : Int) / 1000000 := by norm_num
  rw [since, clock, ofCount_eq_ofRat (by decide) hvalue, Stamp.clockSince]

theorem seconds_since (s t : Stamp) :
    seconds.since s t = .ofCount 1 1 (s.seconds.rank - t.seconds.rank) := by
  rw [since, seconds]

theorem since_self (m : Measure) (s : Stamp) : m.since s s = .zero := by
  rw [since, sub_self]
  exact ofCount_zero m.scale m.den

theorem since_mono {c d : Stamp} (h : m.key s - m.key t ≤ m.key c - m.key d) :
    (m.since s t).AtMost (m.since c d) := by
  rw [since, since, atMost_iff_rank_le isNaN_ofCount isNaN_ofCount]
  exact rank_ofCount_mono m.den_pos h

namespace Spans

/-- The gap is one between two of the stamps. -/
theorem attained (h : m.Spans l) : ∃ s ∈ l, ∃ t ∈ l, span l = m.since s t ∧
    ∀ c ∈ l, ∀ d ∈ l, m.key c - m.key d ≤ m.key s - m.key t := by
  obtain ⟨n, ⟨hmem, hupper⟩, hspan⟩ := h
  obtain ⟨i, hi, j, hj, rfl⟩ := hmem
  obtain ⟨s, hs, rfl⟩ := List.mem_map.mp hi
  obtain ⟨t, ht, rfl⟩ := List.mem_map.mp hj
  refine ⟨s, hs, t, ht, hspan, ?_⟩
  intro c hc d hd
  exact hupper ⟨_, List.mem_map_of_mem hc, _, List.mem_map_of_mem hd, rfl⟩

theorem isNaN_span (h : m.Spans l) : (span l).isNaN = false := by
  obtain ⟨n, -, hspan⟩ := h
  rw [hspan]
  exact isNaN_ofCount

theorem since_atMost (h : m.Spans l) (hs : s ∈ l) (ht : t ∈ l) :
    (m.since s t).AtMost (span l) := by
  obtain ⟨c, hc, d, hd, hspan, hwidest⟩ := h.attained
  rw [hspan]
  exact since_mono (hwidest s hs t ht)

theorem zero_atMost (h : m.Spans l) : zero.AtMost (span l) := by
  obtain ⟨s, hs, -⟩ := h.attained
  rw [← m.since_self s]
  exact h.since_atMost hs hs

/-- More stamps have no narrower gap. -/
theorem mono (h : m.Spans l) (h' : m.Spans l') (hsub : l ⊆ l') :
    (span l).AtMost (span l') := by
  obtain ⟨s, hs, t, ht, hspan, -⟩ := h.attained
  rw [hspan]
  exact h'.since_atMost (hsub hs) (hsub ht)

/-- The gaps between the keys are all that counts. -/
theorem eq_of_gaps (h : m.Spans l) (h' : m.Spans l')
    (hgaps : gaps (l.map m.key) = gaps (l'.map m.key)) : span l = span l' := by
  obtain ⟨n, hn, hspan⟩ := h
  obtain ⟨n', hn', hspan'⟩ := h'
  rw [hgaps] at hn
  rw [hspan, hspan', hn.unique hn']

theorem eq_of_keys (h : m.Spans l) (h' : m.Spans l')
    (hkeys : ∀ k, k ∈ l.map m.key ↔ k ∈ l'.map m.key) : span l = span l' :=
  h.eq_of_gaps h' (gaps_congr hkeys)

end Spans
end Measure

theorem exists_cons_cons (hl : 2 ≤ l.length) : ∃ s t rest, l = s :: t :: rest := by
  match l, hl with
  | s :: t :: rest, _ => exact ⟨s, t, rest, rfl⟩

theorem span_of_length (hl : l.length < 2) : span l = .zero := by
  cases l with
  | nil => rw [span]
  | cons s rest =>
    have hnone : rest.length = 0 := Nat.lt_one_iff.mp (Nat.lt_of_succ_lt_succ hl)
    obtain rfl := List.eq_nil_of_length_eq_zero hnone
    rw [span]

theorem clock_spans (hl : 2 ≤ l.length) (hdated : AllDated l) : Measure.clock.Spans l := by
  obtain ⟨s, t, rest, rfl⟩ := exists_cons_cons hl
  obtain ⟨hs, hrest⟩ := List.forall_mem_cons.mp hdated
  obtain ⟨d, hd⟩ := Stamp.hasDate_eq_true_iff.mp hs
  have hinstants : span (s :: t :: rest) =
      instantSpan s.instant ((t :: rest).map Stamp.instant) := by
    rw [span_cons_cons, hd, instants?_eq_some_iff.mpr ⟨hrest, rfl⟩, Option.map_some,
      Stamp.instant_of_date hd]
  obtain ⟨n, hn, hspan⟩ := instantSpan_eq_ofCount s.instant ((t :: rest).map Stamp.instant)
  refine ⟨n, hn, ?_⟩
  rw [hinstants, hspan, Measure.clock]

theorem seconds_spans (hl : 2 ≤ l.length) (hundated : ¬AllDated l) (hfinite : AllFinite l) :
    Measure.seconds.Spans l := by
  obtain ⟨s, t, rest, rfl⟩ := exists_cons_cons hl
  obtain ⟨hs, hrest⟩ := List.forall_mem_cons.mp hfinite
  have hseconds : span (s :: t :: rest) =
      secondsSpan s.seconds ((t :: rest).map Stamp.seconds) := by
    have hnone := instants?_eq_none_iff.mpr hundated
    rw [span_cons_cons]
    rw [instants?_cons] at hnone
    cases hs : s.date with
    | none => rfl
    | some d =>
      rw [hs, Option.map_some, Option.bind_some, Option.map_eq_none_iff] at hnone
      rw [hnone]
      rfl
  obtain ⟨n, hn, hspan⟩ := secondsSpan_eq_ofCount hs (List.forall_mem_map.mpr hrest)
  refine ⟨n, ?_, hseconds.trans hspan⟩
  rwa [← List.map_cons, List.map_map] at hn

/-- A log and one that has more stamps, all of them dated if its own are, are measured
alike. -/
theorem exists_common_measure (hl : 2 ≤ l.length) (hsub : l.Subperm l')
    (h : AllDated l ∨ AllFinite l) (h' : AllDated l' ∨ AllFinite l')
    (hdated : AllDated l → AllDated l') : ∃ m : Measure, m.Spans l ∧ m.Spans l' := by
  have hl' : 2 ≤ l'.length := hl.trans hsub.length_le
  by_cases hall : AllDated l
  · exact ⟨.clock, clock_spans hl hall, clock_spans hl' (hdated hall)⟩
  · have hall' : ¬AllDated l' := fun hmore => hall fun s hs => hmore s (hsub.subset hs)
    have hseconds := seconds_spans hl hall (h.resolve_left hall)
    exact ⟨.seconds, hseconds, seconds_spans hl' hall' (h'.resolve_left hall')⟩

theorem zero_atMost_span (h : AllDated l ∨ AllFinite l) : zero.AtMost (span l) := by
  by_cases hl : l.length < 2
  · rw [span_of_length hl]
    exact (atMost_iff_rank_le rfl rfl).mpr le_rfl
  · obtain ⟨m, hm, -⟩ := exists_common_measure (not_lt.mp hl) (List.Subperm.refl l) h h id
    exact hm.zero_atMost

theorem span_perm (h : AllDated l ∨ AllFinite l) (hperm : l.Perm l') : span l' = span l := by
  by_cases hl : l.length < 2
  · rw [span_of_length hl, span_of_length (hperm.length_eq ▸ hl)]
  · have hkeep {p : Stamp → Prop} (hall : ∀ s ∈ l, p s) : ∀ s ∈ l', p s :=
      fun s hs => hall s (hperm.mem_iff.mpr hs)
    have h' : AllDated l' ∨ AllFinite l' := h.imp hkeep hkeep
    obtain ⟨m, hm, hm'⟩ := exists_common_measure (not_lt.mp hl) hperm.subperm h h' hkeep
    exact hm'.eq_of_keys hm fun _ => (hperm.map m.key).symm.mem_iff

theorem span_subperm (h : AllDated l ∨ AllFinite l) (h' : AllDated l' ∨ AllFinite l')
    (hsub : l.Subperm l') (hdated : AllDated l → AllDated l') : (span l).AtMost (span l') := by
  by_cases hl : l.length < 2
  · rw [span_of_length hl]
    exact zero_atMost_span h'
  · obtain ⟨m, hm, hm'⟩ := exists_common_measure (not_lt.mp hl) hsub h h' hdated
    exact hm.mono hm' hsub.subset

/-- Dates are looked at as instants. -/
theorem span_of_instants (hl : 2 ≤ l.length) (hdated : AllDated l)
    (hsame : l'.map (Option.map ZonedTime.instant ∘ Stamp.date) =
      l.map (Option.map ZonedTime.instant ∘ Stamp.date)) : span l' = span l := by
  have hl' : 2 ≤ l'.length := by
    have hlength := congrArg List.length hsame
    rw [List.length_map, List.length_map] at hlength
    omega
  have hdated' : AllDated l' := by
    intro s hs
    have hmem := List.mem_map_of_mem (f := Option.map ZonedTime.instant ∘ Stamp.date) hs
    rw [hsame] at hmem
    obtain ⟨t, ht, hst⟩ := List.mem_map.mp hmem
    have hisSome := congrArg Option.isSome hst
    rw [Function.comp_apply, Function.comp_apply, Option.isSome_map, Option.isSome_map] at hisSome
    exact hisSome.symm.trans (hdated t ht)
  have hkeys : l'.map Stamp.instant = l.map Stamp.instant := by
    have hdefault := congrArg (List.map (Option.getD · 0)) hsame
    rwa [List.map_map, List.map_map] at hdefault
  apply (clock_spans hl' hdated').eq_of_keys (clock_spans hl hdated)
  intro k
  rw [Measure.clock, hkeys]

theorem secondsSince_atMost_span (hl : 2 ≤ l.length) (hundated : ¬AllDated l)
    (hfinite : AllFinite l) {s t : Stamp} (hs : s ∈ l) (ht : t ∈ l) :
    (s.secondsSince t).AtMost (span l) := by
  have hspans := seconds_spans hl hundated hfinite
  have hwidest := hspans.since_atMost hs ht
  rw [Measure.seconds_since, atMost_iff_rank_le isNaN_ofCount hspans.isNaN_span] at hwidest
  rw [Stamp.secondsSince, atMost_iff_rank_le (isNaN_sub (hfinite s hs) (hfinite t ht))
    hspans.isNaN_span, rank_sub (hfinite s hs) (hfinite t ht)]
  exact hwidest

theorem exists_span_eq_secondsSince (hl : 2 ≤ l.length) (hundated : ¬AllDated l)
    (hfinite : AllFinite l) : ∃ s ∈ l, ∃ t ∈ l, span l = s.secondsSince t := by
  obtain ⟨s, hs, t, ht, hspan, -⟩ := (seconds_spans hl hundated hfinite).attained
  by_cases htie : s.seconds.rank = t.seconds.rank
  · -- The difference of two zeros can be the negative zero.
    refine ⟨s, hs, s, hs, ?_⟩
    rw [hspan, Stamp.secondsSince, sub_eq_ofCount (hfinite s hs) (hfinite s hs) fun _ => rfl,
      Measure.seconds_since, htie]
  · refine ⟨s, hs, t, ht, ?_⟩
    have hdiffer (h : s.seconds.rank = t.seconds.rank) : s.seconds = t.seconds := absurd h htie
    rw [hspan, Stamp.secondsSince, sub_eq_ofCount (hfinite s hs) (hfinite t ht) hdiffer,
      Measure.seconds_since]

/-- Fewer than two stamps span nothing. Otherwise the span of a log whose stamps all have
dates is the widest gap between two instants, in seconds and rounded once, whatever the
offsets and the seconds are, and that of a log with an undated stamp and finite seconds is
the greatest difference of two stamps. Either is not negative, the same in any order, and
grows with the log, as long as no undated stamp is the first to come. -/
theorem span_is_widest_gap (l : List Stamp) :
    (l.length < 2 → span l = .zero) ∧
    (AllDated l ∨ AllFinite l →
      (2 ≤ l.length → AllDated l →
        (∃ s ∈ l, ∃ t ∈ l, span l = s.clockSince t ∧
          ∀ c ∈ l, ∀ d ∈ l, c.instant - d.instant ≤ s.instant - t.instant) ∧
        (∀ s ∈ l, ∀ t ∈ l, (s.clockSince t).AtMost (span l)) ∧
        ∀ l', l'.map (Option.map ZonedTime.instant ∘ Stamp.date) =
          l.map (Option.map ZonedTime.instant ∘ Stamp.date) → span l' = span l) ∧
      (2 ≤ l.length → ¬AllDated l →
        (∃ s ∈ l, ∃ t ∈ l, span l = s.secondsSince t) ∧
        ∀ s ∈ l, ∀ t ∈ l, (s.secondsSince t).AtMost (span l)) ∧
      zero.AtMost (span l) ∧
      (∀ l', l.Perm l' → span l' = span l) ∧
      ∀ l', l.Subperm l' → (AllDated l' ∨ AllFinite l') → (AllDated l → AllDated l') →
        (span l).AtMost (span l')) := by
  refine ⟨span_of_length, fun h => ⟨?dated, ?undated, zero_atMost_span h,
    fun _ => span_perm h, fun _ hsub h' => span_subperm h h' hsub⟩⟩
  case dated =>
    intro hl hdated
    have hclock := clock_spans hl hdated
    simp only [← Measure.clock_since]
    exact ⟨hclock.attained, fun _ hs _ ht => hclock.since_atMost hs ht,
      fun _ => span_of_instants hl hdated⟩
  case undated =>
    intro hl hundated
    have hfinite := h.resolve_left hundated
    exact ⟨exists_span_eq_secondsSince hl hundated hfinite,
      fun _ hs _ ht => secondsSince_atMost_span hl hundated hfinite hs ht⟩

/-- The last two microseconds of the year 9999, with the seconds of a clock that stands
still. -/
def yearsTurn : List Stamp :=
  [.nearYearsEnd 1 0, .nearYearsEnd 0 0]

/-- The dates are a microsecond apart in either order. Once an undated stamp comes to
them the seconds decide, and the log spans nothing. -/
theorem yearsTurn_span :
    (AllDated yearsTurn ∨ AllFinite yearsTurn) ∧
      span yearsTurn.reverse = .ofQuotient false 1 1000000 ∧
      span (⟨none, .zero⟩ :: yearsTurn) = .zero := by
  have hdated : AllDated yearsTurn := by decide
  obtain ⟨-, hmeasured⟩ := span_is_widest_gap yearsTurn
  obtain ⟨-, -, -, hperm, -⟩ := hmeasured (.inl hdated)
  have hspan : span yearsTurn = .ofQuotient false 1 1000000 := by decide +kernel
  have hundated : span (⟨none, .zero⟩ :: yearsTurn) = .zero := by decide +kernel
  refine ⟨.inl hdated, ?_, hundated⟩
  exact (hperm _ (List.reverse_perm yearsTurn).symm).trans hspan

end Log
end HeapChronicle
