import HeapChronicle.Session
import HeapChronicle.Proofs.Dispatch.Registry

/-!
What a session does with handlers. Each step leaves the entries that are there
and puts at most the handler that it offers behind them (`get?_step`,
`classes_step`), so after a run the entries are determined by the offers alone
(`get?_run`, `classes_run`). An event then goes to the handler that was offered
first for the nearest registered class of its type (`run_routes_events`).
-/

namespace HeapChronicle

/-- The handler takes note of each call, whatever else it does. -/
def Handler.NotesCalls (h : Handler Ledger) : Prop :=
  ∀ (e : Event) (l : Ledger), (h.react e l).state.calls = l.calls ++ [⟨h.name, e.type⟩]

theorem Handler.notesCalls_outside (name : List Char) (fails records : Bool) :
    (Handler.outside name fails records).NotesCalls := by
  intro e l
  cases fails <;> cases records <;> rfl

namespace Step

/-- The class and the handler that a step offers to register, if it can be
called. -/
def offer? : Step → Option (EventClass × Handler Ledger)
  | register type (some h) => some (type.cls, h)
  | _ => none

def offers (steps : List Step) : List (EventClass × Handler Ledger) :=
  steps.filterMap offer?

/-- The class that a step has registered, going by its report. -/
def registered? : Step × StepReport → Option EventClass
  | (register type _, ⟨.done, _, _⟩) => some type.cls
  | _ => none

theorem offers_cons (step : Step) (rest : List Step) :
    offers (step :: rest) = step.offer?.toList ++ offers rest := by
  rw [offers, List.filterMap_cons]
  cases step.offer? <;> rfl

end Step

namespace Session

variable {s : Session} {type : EventType} {h : Handler Ledger}

theorem register_of_mem (hmem : type.cls ∈ s.aggregator.handlers.classes) :
    s.register type (some h) = (s, .ofAnswer (.refused (.alreadyRegistered type.cls))) := by
  rw [register, Aggregator.register, Registry.register_of_mem hmem]
  rfl

theorem register_of_not_mem (hnew : type.cls ∉ s.aggregator.handlers.classes) :
    ∃ next : Session, s.register type (some h) = (next, .ofAnswer .done) ∧
      next.aggregator.name = s.aggregator.name ∧
      next.aggregator.handlers.entries = s.aggregator.handlers.entries ++ [(type.cls, h)] := by
  obtain ⟨handlers, hregister, hentries⟩ := Registry.register_of_not_mem hnew
  refine ⟨{ s with aggregator.handlers := handlers }, ?_, rfl, hentries⟩
  rw [register, Aggregator.register, hregister]
  rfl

/-- A step leaves the aggregator alone and enters nothing, and then what it may
offer is for a class that is there; or it puts its offer behind the entries. -/
theorem step_cases (s : Session) (step : Step) :
    ((s.step step).1.aggregator = s.aggregator ∧
        Step.registered? (step, (s.step step).2) = none ∧
        ∀ offer, step.offer? = some offer → offer.1 ∈ s.aggregator.handlers.classes) ∨
      ∃ cls h, step.offer? = some (cls, h) ∧ cls ∉ s.aggregator.handlers.classes ∧
        Step.registered? (step, (s.step step).2) = some cls ∧
        (s.step step).1.aggregator.name = s.aggregator.name ∧
        (s.step step).1.aggregator.handlers.entries =
          s.aggregator.handlers.entries ++ [(cls, h)] := by
  cases step with
  | register type offered =>
    cases offered with
    | none => exact .inl ⟨rfl, rfl, fun _ h => nomatch h⟩
    | some h =>
      by_cases hmem : type.cls ∈ s.aggregator.handlers.classes
      · rw [Session.step, register_of_mem hmem]
        refine .inl ⟨rfl, rfl, fun offer hoffer => ?_⟩
        rw [← Option.some.inj hoffer]
        exact hmem
      · obtain ⟨next, hregister, hname, hentries⟩ := register_of_not_mem (h := h) hmem
        rw [Session.step, hregister]
        exact .inr ⟨type.cls, h, rfl, hmem, rfl, hname, hentries⟩
  | lines kind => cases kind <;> exact .inl ⟨rfl, rfl, fun _ h => nomatch h⟩
  | add | series | dataPoints | kinds | isEmpty | lookup | receive =>
    exact .inl ⟨rfl, rfl, fun _ h => nomatch h⟩

theorem name_step (s : Session) (step : Step) :
    (s.step step).1.aggregator.name = s.aggregator.name := by
  obtain ⟨hkept, -, -⟩ | ⟨-, -, -, -, -, hname, -⟩ := s.step_cases step
  · rw [hkept]
  · exact hname

theorem classes_step (s : Session) (step : Step) :
    (s.step step).1.aggregator.handlers.classes =
      s.aggregator.handlers.classes ++ (Step.registered? (step, (s.step step).2)).toList := by
  obtain ⟨hkept, hnone, -⟩ | ⟨cls, h, -, -, hsome, -, hentries⟩ := s.step_cases step
  · rw [hkept, hnone, Option.toList_none, List.append_nil]
  · rw [hsome, Registry.classes_of_entries hentries, Option.toList_some]

/-- An offer counts for a class only if it is the first for it. -/
theorem get?_step (s : Session) (step : Step) (cls : EventClass) :
    (s.step step).1.aggregator.handlers.get? cls =
      (s.aggregator.handlers.get? cls).or (step.offer?.toList.lookup cls) := by
  obtain ⟨hkept, -, hthere⟩ | ⟨_, _, hoffer, -, -, -, hentries⟩ := s.step_cases step
  · rw [hkept]
    cases hoffer : step.offer? with
    | none => rw [Option.toList_none, List.lookup_nil, Option.or_none]
    | some offer =>
      by_cases hcls : cls = offer.1
      · have hmem := hthere offer hoffer
        rw [← hcls] at hmem
        rw [Option.or_of_isSome (Registry.isSome_get?_iff.mpr hmem)]
      · rw [Option.toList_some, List.lookup_cons, beq_eq_false_iff_ne.mpr hcls, List.lookup_nil,
          Option.or_none]
  · rw [hoffer, Registry.get?_of_entries hentries, Option.toList_some]

/-- The classes that a run registers, in order. -/
def registered (s : Session) (steps : List Step) : List EventClass :=
  (steps.zip (s.run steps).2).filterMap Step.registered?

theorem registered_cons (s : Session) (step : Step) (rest : List Step) :
    s.registered (step :: rest) =
      (Step.registered? (step, (s.step step).2)).toList ++ (s.step step).1.registered rest := by
  rw [registered, run, List.zip_cons_cons, List.filterMap_cons]
  cases Step.registered? (step, (s.step step).2) <;> rfl

theorem name_run (s : Session) (steps : List Step) :
    (s.run steps).1.aggregator.name = s.aggregator.name := by
  induction steps generalizing s with
  | nil => rfl
  | cons step rest ih => exact (ih _).trans (s.name_step step)

/-- The classes of the start come first, then those that the run registers. -/
theorem classes_run (s : Session) (steps : List Step) :
    (s.run steps).1.aggregator.handlers.classes =
      s.aggregator.handlers.classes ++ s.registered steps := by
  induction steps generalizing s with
  | nil => exact (List.append_nil _).symm
  | cons step rest ih =>
    rw [registered_cons, ← List.append_assoc, ← classes_step]
    exact ih _

/-- Offers of a run count behind the entries of its start, each class by its
first one. -/
theorem get?_run (s : Session) (steps : List Step) (cls : EventClass) :
    (s.run steps).1.aggregator.handlers.get? cls =
      (s.aggregator.handlers.get? cls).or ((Step.offers steps).lookup cls) := by
  induction steps generalizing s with
  | nil => exact Option.or_none.symm
  | cons step rest ih =>
    rw [Step.offers_cons, List.lookup_append, ← Option.or_assoc, ← get?_step]
    exact ih _

/-- What a session does with handlers and events when the classes in
`registered` have been registered, each with the handler that `first` has for
it. -/
structure RoutesBy (s : Session) (name : List Char) (registered : List EventClass)
    (first : EventClass → Option (Handler Ledger)) : Prop where
  /-- The first registered class of a lineage decides. -/
  lookup_eq : ∀ type : EventType,
    s.aggregator.lookup type = (type.lineage.find? (· ∈ registered)).bind first
  isSome_first : ∀ cls ∈ registered, (first cls).isSome = true
  register_uncallable : ∀ type : EventType,
    s.step (.register type none) = (s, .ofAnswer (.refused .notCallable))
  register_again : ∀ (type : EventType) (h : Handler Ledger), type.cls ∈ registered →
    s.step (.register type (some h)) = (s, .ofAnswer (.refused (.alreadyRegistered type.cls)))
  /-- Only types for which the new class comes before all registered ones get
  the new handler. -/
  register_new : ∀ (type : EventType) (h : Handler Ledger), type.cls ∉ registered →
    ∃ next : Session, s.step (.register type (some h)) = (next, .ofAnswer .done) ∧
      ∀ other : EventType, next.aggregator.lookup other =
        if other.lineage.find? (· ∈ registered ++ [type.cls]) = some type.cls then some h
        else s.aggregator.lookup other
  receive_keeps : ∀ e : Event, (s.step (.receive e)).1.aggregator = s.aggregator
  /-- One reaction of the handler accounts for the whole step. -/
  receive_handled : ∀ (e : Event) (h : Handler Ledger), s.aggregator.lookup e.type = some h →
    (s.step (.receive e)).1.ledger = (h.react e s.ledger).state ∧
      (s.step (.receive e)).2.notices = (h.react e s.ledger).notices ∧
      (s.step (.receive e)).2.answer = (h.react e s.ledger).failure.elim .done .failed ∧
      (h.NotesCalls → (s.step (.receive e)).2.calls = [⟨h.name, e.type⟩])
  receive_ignored : ∀ e : Event, s.aggregator.lookup e.type = none →
    s.step (.receive e) =
      (s, ⟨.done, [.debug (name ++ " has no handler for ".toList ++ e.type.cls.name)], []⟩)

/-- An event with a handler is given to it once, and a failure is passed on. -/
theorem receive_of_some {e : Event} (hlookup : s.aggregator.lookup e.type = some h) :
    s.receive e =
      ({ s with ledger := (h.react e s.ledger).state },
        ⟨(h.react e s.ledger).failure.elim .done .failed, (h.react e s.ledger).notices,
          (h.react e s.ledger).state.calls.drop s.ledger.calls.length⟩) := by
  rw [receive, Aggregator.receive, hlookup]
  cases (h.react e s.ledger).failure <;> rfl

theorem receive_of_none {e : Event} (hlookup : s.aggregator.lookup e.type = none) :
    s.receive e = (s, ⟨.done, [s.aggregator.noHandler e.type], []⟩) := by
  rw [receive, Aggregator.receive, hlookup]
  simp only [List.drop_length]

/-- At any moment a session routes by the entries that it has. -/
theorem routesBy_entries (s : Session) :
    s.RoutesBy s.aggregator.name s.aggregator.handlers.classes s.aggregator.handlers.get? := by
  constructor
  case lookup_eq => exact fun type => Registry.lookup_eq _ type.lineage
  case isSome_first => exact fun cls hmem => Registry.isSome_get?_iff.mpr hmem
  case register_uncallable => exact fun type => rfl
  case register_again => exact fun type h hmem => register_of_mem hmem
  case register_new =>
    intro type h hnew
    obtain ⟨next, hregister, -, hentries⟩ := register_of_not_mem (h := h) hnew
    exact ⟨next, hregister, fun other => Registry.lookup_of_entries hentries hnew other.lineage⟩
  case receive_keeps => exact fun e => rfl
  case receive_handled =>
    intro e h hlookup
    rw [Session.step, receive_of_some hlookup]
    refine ⟨rfl, rfl, rfl, fun hnotes => ?_⟩
    rw [hnotes, List.drop_left]
  case receive_ignored => exact fun e hlookup => receive_of_none hlookup

/-- From an aggregator without handlers on, the nearest registered class and the
first handler that was offered for it decide about every lookup, and so about
every event, whatever the steps in between. -/
theorem run_routes_events (name : List Char) (ledger : Ledger) (steps : List Step) :
    let start : Session := ⟨⟨name, .empty⟩, ledger⟩
    (start.run steps).1.RoutesBy name (start.registered steps)
      fun cls => (Step.offers steps).lookup cls := by
  intro start
  have hname : (start.run steps).1.aggregator.name = name := name_run start steps
  have hclasses : (start.run steps).1.aggregator.handlers.classes = start.registered steps :=
    classes_run start steps
  have hfirst : (start.run steps).1.aggregator.handlers.get? =
      fun cls => (Step.offers steps).lookup cls :=
    funext (get?_run start steps)
  have hroutes := routesBy_entries (start.run steps).1
  rwa [hname, hclasses, hfirst] at hroutes

/-- The nearer of two bases wins, though it was registered later. -/
example (near far : Handler Ledger) :
    let base (cls : String) : EventType := ⟨.named cls.toList, [.event, .root]⟩
    let derived : EventType :=
      ⟨.named "Derived".toList, [.named "Near".toList, .named "Far".toList, .event, .root]⟩
    let steps : List Step :=
      [.register (base "Far") (some far), .register (base "Near") none,
        .register (base "Near") (some near), .register (base "Near") (some far)]
    (plain.run steps).1.aggregator.lookup derived = some near := rfl

/-- An outside handler notes its call even if it fails, so the step that gives it an event
reports this one call. -/
example (s : Session) (e : Event) (name : List Char) (fails records : Bool)
    (hlookup : s.aggregator.lookup e.type = some (.outside name fails records)) :
    (s.step (.receive e)).2.calls = [⟨name, e.type⟩] := by
  obtain ⟨-, -, -, hcalls⟩ := (routesBy_entries s).receive_handled e _ hlookup
  exact hcalls (Handler.notesCalls_outside name fails records)

end Session
end HeapChronicle
