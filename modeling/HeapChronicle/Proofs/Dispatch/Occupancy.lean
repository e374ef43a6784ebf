import HeapChronicle.Proofs.Dispatch.Routing
import HeapChronicle.Proofs.Series.Record

/-!
What a session that records heap occupancy makes of its events. The built-in
handlers keep their classes whatever is registered beside them
(`HasBuiltins.step`), so each event adds the point that its nearest registered
class asks for (`pointOf?`). A run in which no other handler records anything
adds exactly these points, in order (`aggregation_run_quiet`), and of all
Shenandoah cycles only the first leaves a warning (`skipWarnings_run`).
-/

namespace HeapChronicle

/-- The first class of a type's lineage that is among some classes. -/
def EventType.nearest (classes : List EventClass) (type : EventType) : Option EventClass :=
  type.lineage.find? (· ∈ classes)

theorem EventType.mem_lineage_of_nearest {classes : List EventClass} {type : EventType}
    {cls : EventClass} (h : type.nearest classes = some cls) : cls ∈ type.lineage :=
  List.mem_of_find?_eq_some h

namespace Step

/-- The classes that are registered after a step, if `classes` are so before. -/
def entered (classes : List EventClass) (step : Step) : List EventClass :=
  match step.offer? with
  | some (cls, _) => if cls ∈ classes then classes else classes ++ [cls]
  | none => classes

def received? : Step → Option Event
  | receive e => some e
  | _ => none

/-- The events that some steps pass on, each with the nearest class that is
registered when it comes. -/
def received (classes : List EventClass) : List Step → List (Event × Option EventClass)
  | [] => []
  | step :: rest =>
    (step.received?.map fun e => (e, e.type.nearest classes)).toList ++
      received (step.entered classes) rest

end Step

namespace HeapOccupancy

/-- The classes that have a handler from the start. -/
def builtin : List EventClass :=
  [.generationalPause, .g1Pause, .zgcCycle, .shenandoahCycle]

/-- The point that an event stands for, going by its nearest class. -/
def pointOf? : Event × Option EventClass → Option DataPoint
  | (e, some .generationalPause) | (e, some .g1Pause) =>
    e.heap.map fun heap => ⟨e.collection, e.stamp, heap.occupancyAfter⟩
  | (e, some .zgcCycle) => e.live.map fun live => ⟨e.collection, e.stamp, live.finish⟩
  | _ => none

def isSkipped (r : Event × Option EventClass) : Bool :=
  r.2 = some .shenandoahCycle

/-- The warning that a Shenandoah cycle was skipped, whenever that was. -/
def isSkipWarning (n : Notice) : Bool :=
  n.level = .warning ∧
    "Heap occupancy after Shenandoah cycles is not supported; skipping cycle at ".toList <+: n.text

theorem isSkipWarning_skipWarning (s : Stamp) : isSkipWarning (skipWarning s) = true :=
  decide_eq_true ⟨rfl, List.prefix_append _ _⟩

end HeapOccupancy

namespace Handler

/-- The handler leaves the data points as they are. -/
def RecordsNothing (h : Handler Ledger) : Prop :=
  ∀ (e : Event) (l : Ledger), (h.react e l).state.aggregation = l.aggregation

/-- The handler has no part in the warning about Shenandoah cycles. -/
def LeavesWarning (h : Handler Ledger) : Prop :=
  ∀ (e : Event) (l : Ledger), (h.react e l).state.warned = l.warned ∧
    (h.react e l).notices.filter HeapOccupancy.isSkipWarning = []

theorem recordsNothing_outside (name : List Char) (fails : Bool) :
    (outside name fails false).RecordsNothing := by
  intro e l
  cases fails <;> rfl

theorem leavesWarning_outside (name : List Char) (fails records : Bool) :
    (outside name fails records).LeavesWarning := by
  intro e l
  cases fails <;> cases records <;> exact ⟨rfl, rfl⟩

end Handler

namespace Session

open HeapOccupancy

variable {s : Session} {e : Event} {cls : EventClass}

theorem classes_step_entered (s : Session) (step : Step) :
    (s.step step).1.aggregator.handlers.classes = step.entered s.aggregator.handlers.classes := by
  obtain ⟨hkept, -, hthere⟩ | ⟨cls, h, hoffer, hnew, -, -, hentries⟩ := s.step_cases step
  · rw [hkept, Step.entered]
    split
    next cls h hoffer => rw [if_pos (hthere _ hoffer)]
    next => rfl
  · rw [Registry.classes_of_entries hentries, Step.entered, hoffer]
    exact (if_neg hnew).symm

theorem classes_run_entered (s : Session) (steps : List Step) :
    (s.run steps).1.aggregator.handlers.classes =
      steps.foldl Step.entered s.aggregator.handlers.classes := by
  induction steps generalizing s with
  | nil => rfl
  | cons step rest ih =>
    rw [List.foldl_cons, ← classes_step_entered]
    exact ih _

/-- The built-in handlers are at their classes. -/
def HasBuiltins (s : Session) : Prop :=
  ∀ cls ∈ builtin, s.aggregator.handlers.get? cls = HeapOccupancy.aggregator.handlers.get? cls

theorem HasBuiltins.step (hs : s.HasBuiltins) (step : Step) : (s.step step).1.HasBuiltins := by
  intro cls hcls
  have hsome : (s.aggregator.handlers.get? cls).isSome = true := by
    rw [hs cls hcls]
    exact Registry.isSome_get?_iff.mpr hcls
  rw [get?_step, Option.or_of_isSome hsome, hs cls hcls]

theorem HasBuiltins.run (hs : s.HasBuiltins) (steps : List Step) : (s.run steps).1.HasBuiltins := by
  induction steps generalizing s with
  | nil => exact hs
  | cons step rest ih => exact ih (hs.step step)

theorem HasBuiltins.mem_classes (hs : s.HasBuiltins) (hcls : cls ∈ builtin) :
    cls ∈ s.aggregator.handlers.classes := by
  rw [← Registry.isSome_get?_iff, hs cls hcls]
  exact Registry.isSome_get?_iff.mpr hcls

/-- Each handler beside the built-in ones has some property. -/
def OthersAre (P : Handler Ledger → Prop) (s : Session) : Prop :=
  ∀ cls h, cls ∉ builtin → s.aggregator.handlers.get? cls = some h → P h

theorem OthersAre.step {P : Handler Ledger → Prop} (hs : s.OthersAre P) {step : Step}
    (hoffer : ∀ offer ∈ step.offer?, P offer.2) : (s.step step).1.OthersAre P := by
  intro cls h hcls hget
  rw [get?_step, Option.or_eq_some_iff] at hget
  obtain hold | ⟨-, hnew⟩ := hget
  · exact hs cls h hcls hold
  · cases hstep : step.offer? with
    | none => rw [hstep] at hnew; cases hnew
    | some offer =>
      rw [hstep, Option.toList_some, List.lookup_cons] at hnew
      split at hnew
      · cases hnew
        exact hoffer offer hstep
      · cases hnew

theorem lookup_of_nearest (h : e.type.nearest s.aggregator.handlers.classes = some cls) :
    s.aggregator.lookup e.type = s.aggregator.handlers.get? cls := by
  rw [EventType.nearest] at h
  rw [Aggregator.lookup, Registry.lookup_eq, h, Option.bind_some]

theorem lookup_of_nearest_none (h : e.type.nearest s.aggregator.handlers.classes = none) :
    s.aggregator.lookup e.type = none := by
  rw [EventType.nearest] at h
  rw [Aggregator.lookup, Registry.lookup_eq, h, Option.bind_none]

theorem exists_heap {classes : List EventClass}
    (h : e.type.nearest classes = some .generationalPause ∨
      e.type.nearest classes = some .g1Pause) : ∃ heap, e.heap = some heap := by
  rw [← Option.isSome_iff_exists, e.heap_isSome, EventType.hasHeap, List.any_eq_true]
  obtain h | h := h
  · exact ⟨_, EventType.mem_lineage_of_nearest h, rfl⟩
  · exact ⟨_, EventType.mem_lineage_of_nearest h, rfl⟩

theorem exists_live {classes : List EventClass} (h : e.type.nearest classes = some .zgcCycle) :
    ∃ live, e.live = some live := by
  rw [← Option.isSome_iff_exists, e.live_isSome, EventType.hasLive, List.any_eq_true]
  exact ⟨_, EventType.mem_lineage_of_nearest h, rfl⟩

theorem receive_recorded {h : Handler Ledger} {value : Number}
    (hlookup : s.aggregator.lookup e.type = some h)
    (hreact : h.react e s.ledger = .quiet (s.ledger.record e value)) :
    s.step (.receive e) = s.step (.add ⟨e.collection, e.stamp, value⟩) := by
  have hreceive : s.step (.receive e) = s.receive e := rfl
  rw [hreceive, receive_of_some hlookup, hreact]
  simp only [Reaction.quiet, Ledger.record, List.drop_length, Option.elim_none, Session.step,
    aggregation, StepReport.ofAnswer]

/-- A pause does what its point, added by hand, would do. -/
theorem receive_pause (hs : s.HasBuiltins)
    (h : e.type.nearest s.aggregator.handlers.classes = some .generationalPause ∨
      e.type.nearest s.aggregator.handlers.classes = some .g1Pause) :
    ∃ heap, e.heap = some heap ∧
      s.step (.receive e) = s.step (.add ⟨e.collection, e.stamp, heap.occupancyAfter⟩) := by
  obtain ⟨heap, hheap⟩ := exists_heap h
  have hlookup : s.aggregator.lookup e.type = some recordPause := by
    obtain h | h := h
    · exact (lookup_of_nearest h).trans (hs _ (by decide))
    · exact (lookup_of_nearest h).trans (hs _ (by decide))
  refine ⟨heap, hheap, receive_recorded hlookup ?_⟩
  unfold recordPause
  simp only [hheap]

theorem receive_zgc (hs : s.HasBuiltins)
    (h : e.type.nearest s.aggregator.handlers.classes = some .zgcCycle) :
    ∃ live, e.live = some live ∧
      s.step (.receive e) = s.step (.add ⟨e.collection, e.stamp, live.finish⟩) := by
  obtain ⟨live, hlive⟩ := exists_live h
  have hlookup : s.aggregator.lookup e.type = some recordLive :=
    (lookup_of_nearest h).trans (hs _ (by decide))
  refine ⟨live, hlive, receive_recorded hlookup ?_⟩
  unfold recordLive
  simp only [hlive]

theorem receive_shenandoah (hs : s.HasBuiltins)
    (h : e.type.nearest s.aggregator.handlers.classes = some .shenandoahCycle) :
    s.step (.receive e) = ({ s with ledger.warned := true },
      ⟨.done, if s.ledger.warned then [] else [skipWarning e.stamp], []⟩) := by
  have hlookup : s.aggregator.lookup e.type = some skipShenandoah :=
    (lookup_of_nearest h).trans (hs _ (by decide))
  have hreceive : s.step (.receive e) = s.receive e := rfl
  rw [hreceive, receive_of_some hlookup]
  cases hwarned : s.ledger.warned with
  | false =>
    have hreact : skipShenandoah.react e s.ledger =
        ⟨{ s.ledger with warned := true }, [skipWarning e.stamp], none⟩ :=
      if_neg (by rw [hwarned]; decide)
    rw [hreact]
    simp only [List.drop_length, Option.elim_none, Bool.false_eq_true, if_false]
  | true =>
    have hreact : skipShenandoah.react e s.ledger = .quiet s.ledger := if_pos hwarned
    rw [hreact]
    simp only [Reaction.quiet, List.drop_length, Option.elim_none, if_true, ← hwarned]

/-- What becomes of an event: its point is added; or it is skipped; or it has no
handler; or it goes to a handler beside the built-in ones. -/
theorem receive_cases (hs : s.HasBuiltins) (e : Event) :
    let r := (e, e.type.nearest s.aggregator.handlers.classes)
    (∃ p, pointOf? r = some p ∧ isSkipped r = false ∧ s.step (.receive e) = s.step (.add p)) ∨
    (pointOf? r = none ∧ isSkipped r = true ∧ s.step (.receive e) = ({ s with ledger.warned := true },
      ⟨.done, if s.ledger.warned then [] else [skipWarning e.stamp], []⟩)) ∨
    (pointOf? r = none ∧ isSkipped r = false ∧
      s.step (.receive e) = (s, ⟨.done, [s.aggregator.noHandler e.type], []⟩)) ∨
    (pointOf? r = none ∧ isSkipped r = false ∧
      ∃ cls h, cls ∉ builtin ∧ s.aggregator.handlers.get? cls = some h ∧
        s.aggregator.lookup e.type = some h) := by
  intro r
  cases hnearest : e.type.nearest s.aggregator.handlers.classes with
  | none =>
    have hr : r = (e, none) := by rw [← hnearest]
    rw [hr]
    exact .inr (.inr (.inl ⟨rfl, rfl, receive_of_none (lookup_of_nearest_none hnearest)⟩))
  | some cls =>
    have hr : r = (e, some cls) := by rw [← hnearest]
    rw [hr]
    have hmem : cls ∈ s.aggregator.handlers.classes := by simpa using List.find?_some hnearest
    obtain ⟨h, hget⟩ := Option.isSome_iff_exists.mp (Registry.isSome_get?_iff.mpr hmem)
    have hlookup := (lookup_of_nearest hnearest).trans hget
    cases cls with
    | generationalPause =>
      obtain ⟨heap, hheap, hstep⟩ := receive_pause hs (.inl hnearest)
      exact .inl ⟨_, by rw [pointOf?, hheap, Option.map_some], rfl, hstep⟩
    | g1Pause =>
      obtain ⟨heap, hheap, hstep⟩ := receive_pause hs (.inr hnearest)
      exact .inl ⟨_, by rw [pointOf?, hheap, Option.map_some], rfl, hstep⟩
    | zgcCycle =>
      obtain ⟨live, hlive, hstep⟩ := receive_zgc hs hnearest
      exact .inl ⟨_, by rw [pointOf?, hlive, Option.map_some], rfl, hstep⟩
    | shenandoahCycle => exact .inr (.inl ⟨rfl, rfl, receive_shenandoah hs hnearest⟩)
    | root | event | named =>
      exact .inr (.inr (.inr ⟨rfl, rfl, _, h, by simp [builtin], hget, hlookup⟩))

/-! ## Runs -/

theorem received_cons_of_receive (classes : List EventClass) (e : Event) (rest : List Step) :
    Step.received classes (.receive e :: rest) =
      (e, e.type.nearest classes) :: Step.received classes rest :=
  rfl

theorem received_cons_of_not_receive {step : Step} (h : step.isReceive = false)
    (classes : List EventClass) (rest : List Step) :
    Step.received classes (step :: rest) = Step.received (step.entered classes) rest := by
  cases step with
  | receive e => cases h
  | _ => rfl

theorem aggregation_receive (hs : s.HasBuiltins) (hothers : s.OthersAre Handler.RecordsNothing)
    (e : Event) :
    (s.step (.receive e)).1.aggregation =
      (pointOf? (e, e.type.nearest s.aggregator.handlers.classes)).toList.foldl .add
        s.aggregation := by
  obtain ⟨p, hp, -, hstep⟩ | ⟨hp, -, hstep⟩ | ⟨hp, -, hstep⟩ | ⟨hp, -, cls, h, hcls, hget, hlookup⟩ :=
    receive_cases hs e
  · rw [hp, hstep]; rfl
  · rw [hp, hstep]; rfl
  · rw [hp, hstep]; rfl
  · rw [hp]
    have hreceive : s.step (.receive e) = s.receive e := rfl
    rw [hreceive, receive_of_some hlookup]
    exact hothers cls h hcls hget e s.ledger

/-- If no handler beside the built-in ones records anything, a run adds the points
that the events stand for, in order. -/
theorem aggregation_run_quiet {steps : List Step} (hs : s.HasBuiltins)
    (hothers : s.OthersAre Handler.RecordsNothing) (hadded : ∀ step ∈ steps, step.added? = none)
    (hoffers : ∀ offer ∈ Step.offers steps, offer.2.RecordsNothing) :
    (s.run steps).1.aggregation =
      ((Step.received s.aggregator.handlers.classes steps).filterMap pointOf?).foldl .add
        s.aggregation := by
  induction steps generalizing s with
  | nil => rfl
  | cons step rest ih =>
    rw [Step.offers_cons, List.forall_mem_append] at hoffers
    obtain ⟨hadd, hadded⟩ := List.forall_mem_cons.mp hadded
    have hoffer : ∀ offer ∈ step.offer?, offer.2.RecordsNothing :=
      fun offer h => hoffers.1 offer (Option.mem_toList.mpr h)
    have hrest := ih (hs.step step) (hothers.step hoffer) hadded hoffers.2
    rw [classes_step_entered] at hrest
    cases hreceive : step.isReceive with
    | false =>
      rw [aggregation_step_of_none hreceive hadd] at hrest
      rw [received_cons_of_not_receive hreceive]
      exact hrest
    | true =>
      cases step with
      | receive e =>
        rw [aggregation_receive hs hothers, ← List.foldl_append] at hrest
        rw [received_cons_of_receive, List.filterMap_cons]
        cases hp : pointOf? (e, e.type.nearest s.aggregator.handlers.classes) with
        | none => rwa [hp] at hrest
        | some p => rwa [hp] at hrest
      | _ => cases hreceive

/-- The warnings about Shenandoah cycles that one event causes. -/
theorem skipWarnings_receive (hs : s.HasBuiltins) (hothers : s.OthersAre Handler.LeavesWarning)
    (e : Event) :
    let skipped := isSkipped (e, e.type.nearest s.aggregator.handlers.classes)
    (s.step (.receive e)).1.ledger.warned = (s.ledger.warned || skipped) ∧
      (s.step (.receive e)).2.notices.filter isSkipWarning =
        if !s.ledger.warned && skipped then [skipWarning e.stamp] else [] := by
  intro skipped
  obtain ⟨p, -, hr, hstep⟩ | ⟨-, hr, hstep⟩ | ⟨-, hr, hstep⟩ | ⟨-, hr, cls, h, hcls, hget, hlookup⟩ :=
    receive_cases hs e
  · have hskipped : skipped = false := hr
    rw [hstep, hskipped, Bool.or_false, Bool.and_false]
    exact ⟨rfl, rfl⟩
  · have hskipped : skipped = true := hr
    rw [hstep, hskipped, Bool.or_true, Bool.and_true]
    refine ⟨rfl, ?_⟩
    cases s.ledger.warned with
    | false => exact List.filter_cons_of_pos (isSkipWarning_skipWarning e.stamp)
    | true => rfl
  · have hskipped : skipped = false := hr
    rw [hstep, hskipped, Bool.or_false, Bool.and_false]
    exact ⟨rfl, rfl⟩
  · have hskipped : skipped = false := hr
    have hreceive : s.step (.receive e) = s.receive e := rfl
    rw [hskipped, Bool.or_false, Bool.and_false, hreceive, receive_of_some hlookup]
    exact hothers cls h hcls hget e s.ledger

theorem skipWarnings_step_of_not_receive {step : Step} (h : step.isReceive = false) :
    (s.step step).1.ledger.warned = s.ledger.warned ∧ (s.step step).2.notices = [] := by
  cases step with
  | receive e => cases h
  | lines kind => cases kind <;> exact ⟨rfl, rfl⟩
  | register type offered =>
    simp only [step, register]
    split <;> exact ⟨rfl, rfl⟩
  | _ => exact ⟨rfl, rfl⟩

/-- The warning is given for the first Shenandoah cycle of a run, unless it was
given before, and never again. -/
theorem skipWarnings_run {steps : List Step} (hs : s.HasBuiltins)
    (hothers : s.OthersAre Handler.LeavesWarning)
    (hoffers : ∀ offer ∈ Step.offers steps, offer.2.LeavesWarning) :
    ((s.run steps).2.flatMap StepReport.notices).filter isSkipWarning =
      if s.ledger.warned then []
      else (((Step.received s.aggregator.handlers.classes steps).find? isSkipped).map
        fun r => skipWarning r.1.stamp).toList := by
  induction steps generalizing s with
  | nil => cases s.ledger.warned <;> rfl
  | cons step rest ih =>
    rw [Step.offers_cons, List.forall_mem_append] at hoffers
    have hoffer : ∀ offer ∈ step.offer?, offer.2.LeavesWarning :=
      fun offer h => hoffers.1 offer (Option.mem_toList.mpr h)
    have hrest := ih (hs.step step) (hothers.step hoffer) hoffers.2
    have hreports : (s.run (step :: rest)).2 =
        (s.step step).2 :: ((s.step step).1.run rest).2 := rfl
    rw [classes_step_entered] at hrest
    rw [hreports, List.flatMap_cons, List.filter_append, hrest]
    cases hreceive : step.isReceive with
    | false =>
      obtain ⟨hwarned, hnotices⟩ := skipWarnings_step_of_not_receive (s := s) hreceive
      rw [hwarned, hnotices, received_cons_of_not_receive hreceive]
      rfl
    | true =>
      cases step with
      | receive e =>
        obtain ⟨hwarned, hnotices⟩ := skipWarnings_receive hs hothers e
        rw [hwarned, hnotices, received_cons_of_receive, List.find?_cons]
        cases s.ledger.warned with
        | true => rfl
        | false =>
          cases isSkipped (e, e.type.nearest s.aggregator.handlers.classes) with
          | false => rfl
          | true => rfl
      | _ => cases hreceive

/-- What becomes of each event and of each registration when the classes in
`classes` are registered, the built-in ones with the handlers of the start. -/
structure RecordsBy (s : Session) (classes : List EventClass) : Prop where
  /-- A pause adds one point, as if that were added by hand. -/
  pause : ∀ e : Event, (e.type.nearest classes = some .generationalPause ∨
      e.type.nearest classes = some .g1Pause) → ∃ heap, e.heap = some heap ∧
    s.step (.receive e) = s.step (.add ⟨e.collection, e.stamp, heap.occupancyAfter⟩)
  zgcCycle : ∀ e : Event, e.type.nearest classes = some .zgcCycle → ∃ live, e.live = some live ∧
    s.step (.receive e) = s.step (.add ⟨e.collection, e.stamp, live.finish⟩)
  shenandoahCycle : ∀ e : Event, e.type.nearest classes = some .shenandoahCycle →
    (s.step (.receive e)).1.aggregation = s.aggregation ∧
      (s.step (.receive e)).2.answer = .done
  unregistered : ∀ e : Event, e.type.nearest classes = none →
    (s.step (.receive e)).1 = s ∧ (s.step (.receive e)).2.answer = .done
  /-- What is a G1 pause, or a ZGC cycle, or both adds one point, for whichever of
  the two classes comes first. -/
  once : ∀ e : Event, (e.type.nearest classes = some .g1Pause ∨
      e.type.nearest classes = some .zgcCycle) →
    ∃ value, s.step (.receive e) = s.step (.add ⟨e.collection, e.stamp, value⟩) ∧
      if e.type.lineage.idxOf .g1Pause < e.type.lineage.idxOf .zgcCycle then
        e.heap.map MemoryPool.occupancyAfter = some value
      else e.live.map Reclaim.finish = some value
  /-- No registration takes the place of a built-in handler. -/
  keeps_builtin : ∀ (type : EventType) (offered : Option (Handler Ledger)), type.cls ∈ builtin →
    ∃ error, s.step (.register type offered) = (s, .ofAnswer (.refused error))

/-- The nearest of some classes comes before all others of them. -/
theorem idxOf_le_of_nearest {type : EventType} {classes : List EventClass} {other : EventClass}
    (h : type.nearest classes = some cls) (hother : other ∈ classes) :
    type.lineage.idxOf cls ≤ type.lineage.idxOf other := by
  obtain ⟨hcls, front, back, hlineage, hfront⟩ := List.find?_eq_some_iff_append.mp h
  have hpast (c : EventClass) (hc : c ∈ classes) : c ∉ front := by
    intro hmem
    simpa [hc] using hfront c hmem
  rw [hlineage, List.idxOf_append_of_notMem (hpast cls (by simpa using hcls)),
    List.idxOf_append_of_notMem (hpast other hother), List.idxOf_cons_self]
  exact Nat.add_le_add_left (Nat.zero_le _) _

theorem recordsBy_classes (hs : s.HasBuiltins) : s.RecordsBy s.aggregator.handlers.classes := by
  constructor
  case pause => exact fun e h => receive_pause hs h
  case zgcCycle => exact fun e h => receive_zgc hs h
  case shenandoahCycle =>
    intro e h
    rw [receive_shenandoah hs h]
    exact ⟨rfl, rfl⟩
  case unregistered =>
    intro e h
    have hreceive : s.step (.receive e) = s.receive e := rfl
    rw [hreceive, receive_of_none (lookup_of_nearest_none h)]
    exact ⟨rfl, rfl⟩
  case once =>
    rintro e (h | h)
    · obtain ⟨heap, hheap, hstep⟩ := receive_pause hs (.inr h)
      have hle := idxOf_le_of_nearest h (hs.mem_classes (by decide : .zgcCycle ∈ builtin))
      have hne : e.type.lineage.idxOf .g1Pause ≠ e.type.lineage.idxOf .zgcCycle :=
        mt (List.idxOf_inj (EventType.mem_lineage_of_nearest h)).mp (by decide)
      refine ⟨_, hstep, ?_⟩
      rw [if_pos (Nat.lt_of_le_of_ne hle hne), hheap, Option.map_some]
    · obtain ⟨live, hlive, hstep⟩ := receive_zgc hs h
      have hle := idxOf_le_of_nearest h (hs.mem_classes (by decide : .g1Pause ∈ builtin))
      refine ⟨_, hstep, ?_⟩
      rw [if_neg (Nat.not_lt.mpr hle), hlive, Option.map_some]
  case keeps_builtin =>
    intro type offered hcls
    cases offered with
    | none => exact ⟨_, rfl⟩
    | some h => exact ⟨_, register_of_mem (hs.mem_classes hcls)⟩

/-- At any moment of a session that records heap occupancy an event is recorded by
its nearest registered class, and the built-in handlers are there. If the other
handlers record nothing, the aggregation holds per kind the points of the start,
then those of the events in order; if they leave the warning about Shenandoah
cycles alone, it is given once, for the first of these. -/
theorem run_records_occupancy (prefilled : List DataPoint) (steps : List Step) :
    let session := ((heapOccupancy prefilled).run steps).1
    let received := Step.received builtin steps
    let recorded := received.filterMap pointOf?
    session.RecordsBy (steps.foldl Step.entered builtin) ∧
    (∀ cls ∈ builtin,
      session.aggregator.handlers.get? cls = HeapOccupancy.aggregator.handlers.get? cls) ∧
    ((∀ step ∈ steps, step.added? = none) →
      (∀ offer ∈ Step.offers steps, offer.2.RecordsNothing) →
      session.aggregation = .ofPoints (prefilled ++ recorded) ∧
      ∀ kind, session.aggregation.pointsOf kind =
        prefilled.filter (·.collection = kind) ++ recorded.filter (·.collection = kind)) ∧
    ((∀ offer ∈ Step.offers steps, offer.2.LeavesWarning) →
      (((heapOccupancy prefilled).run steps).2.flatMap StepReport.notices).filter isSkipWarning =
        ((received.find? isSkipped).map fun r => skipWarning r.1.stamp).toList) := by
  intro session received recorded
  have hstart : (heapOccupancy prefilled).HasBuiltins := fun cls _ => rfl
  have hothers (P : Handler Ledger → Prop) : (heapOccupancy prefilled).OthersAre P := by
    intro cls h hcls hget
    exact absurd (Registry.isSome_get?_iff.mp (Option.isSome_of_mem hget)) hcls
  have hclasses : session.aggregator.handlers.classes = steps.foldl Step.entered builtin :=
    classes_run_entered _ steps
  refine ⟨hclasses ▸ recordsBy_classes (hstart.run steps), hstart.run steps, ?_, ?_⟩
  · intro hadded hoffers
    have hkept : session.aggregation = .ofPoints (prefilled ++ recorded) := by
      rw [Aggregation.ofPoints, List.foldl_append]
      exact aggregation_run_quiet hstart (hothers _) hadded hoffers
    refine ⟨hkept, fun kind => ?_⟩
    rw [hkept, Aggregation.pointsOf_ofPoints, List.filter_append]
  · exact fun hoffers => skipWarnings_run hstart (hothers _) hoffers

/-- An event of a class that inherits from G1 pauses first and from ZGC cycles
second. -/
def hybridPause : Event :=
  { type := ⟨.named "Hybrid".toList, [.g1Pause, .zgcCycle, .event, .root]⟩
    stamp := ⟨none, .zero⟩
    collection := .g1Young
    duration := .whole 5
    heap := some ⟨.whole 40, .whole 64, .whole 10, .whole 64⟩
    live := some ⟨.whole 30, .whole 20⟩
    isEvent := rfl
    heap_isSome := rfl
    live_isSome := rfl }

def shenandoahAt (seconds : Int) : Event :=
  { type := .shenandoahCycle
    stamp := ⟨none, .ofInt seconds⟩
    collection := .shenandoahCycle
    duration := .whole 5
    heap := none
    live := none
    isEvent := rfl
    heap_isSome := rfl
    live_isSome := rfl }

/-- A hybrid pause before and after its own class gets a handler, and two
Shenandoah cycles around a refused registration. -/
def mixedSteps : List Step :=
  [.receive hybridPause, .receive (shenandoahAt 1),
    .register .shenandoahCycle (some (.outside "again".toList false false)),
    .register hybridPause.type (some (.outside "hybrid".toList true false)),
    .receive hybridPause, .receive (shenandoahAt 2)]

theorem mixedSteps_record :
    (∀ step ∈ mixedSteps, step.added? = none) ∧
      (∀ offer ∈ Step.offers mixedSteps, offer.2.RecordsNothing ∧ offer.2.LeavesWarning) ∧
      ((heapOccupancy [⟨.g1Young, ⟨none, .zero⟩, .whole 7⟩]).run mixedSteps).1.aggregation.pointsOf
          .g1Young =
        [⟨.g1Young, ⟨none, .zero⟩, .whole 7⟩, ⟨.g1Young, ⟨none, .zero⟩, .whole 10⟩] ∧
      (((heapOccupancy [⟨.g1Young, ⟨none, .zero⟩, .whole 7⟩]).run mixedSteps).2.flatMap
          StepReport.notices).filter isSkipWarning = [skipWarning ⟨none, .ofInt 1⟩] := by
  have hadded : ∀ step ∈ mixedSteps, step.added? = none := by
    simp [mixedSteps, Step.added?]
  have hoffers : ∀ offer ∈ Step.offers mixedSteps,
      offer.2.RecordsNothing ∧ offer.2.LeavesWarning := by
    refine List.forall_mem_cons.mpr ⟨?_, List.forall_mem_singleton.mpr ?_⟩
    · exact ⟨Handler.recordsNothing_outside _ _, Handler.leavesWarning_outside _ _ _⟩
    · exact ⟨Handler.recordsNothing_outside _ _, Handler.leavesWarning_outside _ _ _⟩
  obtain ⟨-, -, hpoints, hwarnings⟩ :=
    run_records_occupancy [⟨.g1Young, ⟨none, .zero⟩, .whole 7⟩] mixedSteps
  refine ⟨hadded, hoffers, ?_, ?_⟩
  · exact ((hpoints hadded fun offer h => (hoffers offer h).1).2 .g1Young).trans rfl
  · exact (hwarnings fun offer h => (hoffers offer h).2).trans rfl

end Session
end HeapChronicle
