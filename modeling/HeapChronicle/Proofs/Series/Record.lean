import HeapChronicle.Proofs.Series.Views
import HeapChronicle.Session

/-!
What a session keeps of the points that are added by hand. A step without an
event either adds its point or leaves the points alone, so after any run of such
steps the aggregation is that of the added points in order
(`aggregation_run`), however the steps were interleaved with queries.
-/

namespace HeapChronicle

namespace Step

/-- The point that a step adds by hand. -/
def added? : Step → Option DataPoint
  | add p => some p
  | _ => none

/-- Events reach handlers, which may add points of their own. -/
def isReceive : Step → Bool
  | receive _ => true
  | _ => false

def added (steps : List Step) : List DataPoint :=
  steps.filterMap added?

end Step

namespace Session

variable {s : Session} {steps : List Step}

/-- A step that neither adds a point nor receives an event keeps all points. -/
theorem aggregation_step_of_none {step : Step} (hreceive : step.isReceive = false)
    (hadded : step.added? = none) : (s.step step).1.aggregation = s.aggregation := by
  cases step with
  | add p => cases hadded
  | lines kind => cases kind <;> rfl
  | register type offered =>
    simp only [step, register]
    split <;> rfl
  | receive e => cases hreceive
  | series | dataPoints | kinds | isEmpty | lookup => rfl

theorem aggregation_run (hsteps : ∀ step ∈ steps, step.isReceive = false) :
    (s.run steps).1.aggregation = (Step.added steps).foldl Aggregation.add s.aggregation := by
  induction steps generalizing s with
  | nil => rfl
  | cons step rest ih =>
    have hstep := hsteps step List.mem_cons_self
    have hrest := ih (s := (s.step step).1) fun next hnext =>
      hsteps next (List.mem_cons_of_mem _ hnext)
    cases hadded : step.added? with
    | none =>
      rw [aggregation_step_of_none hstep hadded] at hrest
      rw [Step.added, List.filterMap_cons_none hadded]
      exact hrest
    | some p =>
      cases step with
      | add q =>
        cases hadded
        exact hrest
      | _ => cases hadded

theorem aggregation_run_plain (hsteps : ∀ step ∈ steps, step.isReceive = false) :
    (plain.run steps).1.aggregation = Aggregation.ofPoints (Step.added steps) :=
  aggregation_run hsteps

/-- After any run of additions and queries the aggregation holds the added points
and no others: each kind its own, the kinds in order of first addition, and
nothing only when nothing was added. A query changes none of it. Without NaN
seconds both views are in order, and ties of one kind stay as they were added. -/
theorem run_keeps_points (hsteps : ∀ step ∈ steps, step.isReceive = false) :
    let kept := (plain.run steps).1.aggregation
    let added := Step.added steps
    (∀ kind, (kept.series kind).Perm (added.filter (·.collection = kind))) ∧
    kept.dataPoints.Perm added ∧
    kept.kinds.Nodup ∧ kept.kinds = (added.map DataPoint.collection).eraseDups ∧
    (kept.isEmpty = true ↔ added = []) ∧
    (∀ step : Step, step.isReceive = false → step.added? = none →
      ((plain.run steps).1.step step).1.aggregation = kept) ∧
    ((∀ p ∈ added, p.stamp.IsTimed) →
      (∀ kind, (kept.series kind).Pairwise fun p q => (p.stamp.compare q.stamp).isLE = true) ∧
      (kept.dataPoints.Pairwise fun p q => (p.stamp.compare q.stamp).isLE = true) ∧
      ∀ kind, ∀ q ∈ added,
        (kept.series kind).filter (·.stamp.compare q.stamp = .eq) =
          added.filter (fun p => p.stamp.compare q.stamp = .eq ∧ p.collection = kind) ∧
        kept.dataPoints.filter (fun p => p.stamp.compare q.stamp = .eq ∧ p.collection = kind) =
          added.filter (fun p => p.stamp.compare q.stamp = .eq ∧ p.collection = kind)) := by
  intro kept added
  have hkept : kept = .ofPoints added := aggregation_run_plain hsteps
  have hquery (step : Step) (hreceive : step.isReceive = false) (hnone : step.added? = none) :
      ((plain.run steps).1.step step).1.aggregation = kept :=
    aggregation_step_of_none hreceive hnone
  clear_value kept
  subst hkept
  refine ⟨fun kind => Aggregation.series_perm, Aggregation.dataPoints_perm,
    (Aggregation.ofPoints added).nodup, Aggregation.kinds_ofPoints,
    Aggregation.isEmpty_ofPoints, hquery, ?_⟩
  intro htimed
  refine ⟨?_, DataPoint.sort_pairwise (Aggregation.filed_isTimed htimed), ?_⟩
  · intro kind
    rw [Aggregation.series_ofPoints]
    exact DataPoint.sort_pairwise (Aggregation.series_isTimed htimed kind)
  · intro kind q hq
    exact ⟨Aggregation.filter_series_ties htimed (htimed q hq),
      Aggregation.filter_dataPoints_ties htimed (htimed q hq)⟩

/-- Two points of one instant in two offsets, with another kind and some queries
in between. -/
def tiedSteps : List Step :=
  [.add ⟨.young, .atEpoch 1 true, .whole 1⟩, .series .zgcCycle,
    .add ⟨.full, .atEpoch 2 false, .whole 2⟩, .lines none,
    .add ⟨.young, .atEpoch 0 false, .whole 3⟩, .kinds]

theorem tiedSteps_keep_points :
    (∀ step ∈ tiedSteps, step.isReceive = false) ∧
      (∀ p ∈ Step.added tiedSteps, p.stamp.IsTimed) ∧
      (plain.run tiedSteps).1.aggregation.kinds = [.young, .full] ∧
      (plain.run tiedSteps).1.aggregation.dataPoints.Perm
        [⟨.young, .atEpoch 1 true, .whole 1⟩, ⟨.full, .atEpoch 2 false, .whole 2⟩,
          ⟨.young, .atEpoch 0 false, .whole 3⟩] ∧
      ((plain.run tiedSteps).1.aggregation.series .young).filter
          (·.stamp.compare (.atEpoch 1 true) = .eq) =
        [⟨.young, .atEpoch 1 true, .whole 1⟩, ⟨.young, .atEpoch 0 false, .whole 3⟩] := by
  have hsteps : ∀ step ∈ tiedSteps, step.isReceive = false := by decide
  have htimed : ∀ p ∈ Step.added tiedSteps, p.stamp.IsTimed := by decide
  obtain ⟨-, hall, -, hkinds, -, -, horder⟩ := run_keeps_points hsteps
  have hties := ((horder htimed).2.2 .young _ List.mem_cons_self).1
  exact ⟨hsteps, htimed, hkinds, hall, hties.trans rfl⟩

/-- Picking one kind out of the merged list gives the series of that kind, ties
included; and where stamps of different kinds tie, the kind that was added first
comes first. -/
theorem merged_agrees_with_series (hsteps : ∀ step ∈ steps, step.isReceive = false)
    (htimed : ∀ p ∈ Step.added steps, p.stamp.IsTimed) :
    let kept := (plain.run steps).1.aggregation
    let kinds := (Step.added steps).map DataPoint.collection
    (∀ kind, kept.dataPoints.filter (·.collection = kind) = kept.series kind) ∧
    kept.dataPoints.Pairwise fun p q =>
      p.stamp.compare q.stamp = .eq → p.collection ≠ q.collection →
        kinds.idxOf p.collection < kinds.idxOf q.collection := by
  intro kept kinds
  have hkept : kept = .ofPoints (Step.added steps) := aggregation_run_plain hsteps
  rw [hkept]
  constructor
  · intro kind
    exact Aggregation.filter_dataPoints htimed
  · exact DataPoint.sort_pairwise_ties (Aggregation.filed_isTimed htimed)
      Aggregation.filed_pairwise_firstIndex

theorem tiedSteps_merged_agrees :
    (∀ step ∈ tiedSteps, step.isReceive = false) ∧
      (∀ p ∈ Step.added tiedSteps, p.stamp.IsTimed) ∧
      (plain.run tiedSteps).1.aggregation.dataPoints.filter (·.collection = .young) =
        (plain.run tiedSteps).1.aggregation.series .young := by
  have hsteps : ∀ step ∈ tiedSteps, step.isReceive = false := by decide
  have htimed : ∀ p ∈ Step.added tiedSteps, p.stamp.IsTimed := by decide
  exact ⟨hsteps, htimed, (merged_agrees_with_series hsteps htimed).1 .young⟩

/-- Two runs that add the same points in different orders answer every query of
points or of their text alike, as long as no seconds are NaN and no stamps tie. -/
theorem run_ignores_order {others : List Step} (hsteps : ∀ step ∈ steps, step.isReceive = false)
    (hothers : ∀ step ∈ others, step.isReceive = false)
    (hperm : (Step.added steps).Perm (Step.added others))
    (htimed : ∀ p ∈ Step.added steps, p.stamp.IsTimed)
    (hdistinct : (Step.added steps).Pairwise fun p q => p.stamp.compare q.stamp ≠ .eq) :
    let kept := (plain.run steps).1
    let kept' := (plain.run others).1
    kept.aggregation.dataPoints = kept'.aggregation.dataPoints ∧
    (∀ kind, kept.aggregation.series kind = kept'.aggregation.series kind) ∧
    ∀ kind, (kept.step (.lines kind)).2 = (kept'.step (.lines kind)).2 := by
  intro kept kept'
  have hkept : kept.aggregation = .ofPoints (Step.added steps) := aggregation_run_plain hsteps
  have hkept' : kept'.aggregation = .ofPoints (Step.added others) := aggregation_run_plain hothers
  have hplaces := DataPoint.nodup_places htimed hdistinct
  have hmerged : kept.aggregation.dataPoints = kept'.aggregation.dataPoints := by
    rw [hkept, hkept']
    exact Aggregation.dataPoints_congr htimed hperm hplaces
  have hseries (kind : CollectionKind) :
      kept.aggregation.series kind = kept'.aggregation.series kind := by
    rw [hkept, hkept']
    exact Aggregation.series_congr htimed hperm hplaces kind
  refine ⟨hmerged, hseries, ?_⟩
  intro kind
  cases kind with
  | none => simp only [step, hmerged]
  | some kind => simp only [step, hseries]

/-- Three points at different times, two of them of one kind. -/
def untiedPoints : List DataPoint :=
  [⟨.full, ⟨none, .zero⟩, .whole 1⟩, ⟨.young, ⟨none, .infinite false⟩, .whole 2⟩,
    ⟨.young, .atEpoch 1 true, .whole 3⟩]

/-- Added from the last one on, they enter the kinds the other way around. -/
theorem untiedPoints_in_any_order :
    (∀ step ∈ untiedPoints.map Step.add, step.isReceive = false) ∧
      (∀ step ∈ untiedPoints.reverse.map Step.add, step.isReceive = false) ∧
      (∀ p ∈ untiedPoints, p.stamp.IsTimed) ∧
      (untiedPoints.Pairwise fun p q => p.stamp.compare q.stamp ≠ .eq) ∧
      (plain.run (untiedPoints.map .add)).1.aggregation.kinds = [.full, .young] ∧
      (plain.run (untiedPoints.reverse.map .add)).1.aggregation.kinds = [.young, .full] ∧
      (plain.run (untiedPoints.map .add)).1.aggregation.dataPoints =
        (plain.run (untiedPoints.reverse.map .add)).1.aggregation.dataPoints := by
  have hforth : ∀ step ∈ untiedPoints.map Step.add, step.isReceive = false := by decide
  have hback : ∀ step ∈ untiedPoints.reverse.map Step.add, step.isReceive = false := by decide
  have htimed : ∀ p ∈ untiedPoints, p.stamp.IsTimed := by decide
  have hdistinct : untiedPoints.Pairwise fun p q => p.stamp.compare q.stamp ≠ .eq := by
    decide +kernel
  have hperm : untiedPoints.Perm untiedPoints.reverse := (List.reverse_perm _).symm
  have horder := run_ignores_order hforth hback hperm htimed hdistinct
  exact ⟨hforth, hback, htimed, hdistinct, rfl, rfl, horder.1⟩

end Session
end HeapChronicle
