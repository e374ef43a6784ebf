import HeapChronicle.Dispatch.HeapOccupancy

/-!
A session is an aggregator together with the ledger that it keeps. Its steps
register handlers, pass events on, and add and query data points; a step that
fails does not end the session.
-/

namespace HeapChronicle

structure Session where
  aggregator : Aggregator Ledger
  ledger : Ledger

inductive Step where
  | add (p : DataPoint)
  | series (kind : CollectionKind)
  | dataPoints
  | kinds
  | isEmpty
  | lines (kind : Option CollectionKind)
  | register (type : EventType) (offered : Option (Handler Ledger))
  | lookup (type : EventType)
  | receive (e : Event)

inductive StepAnswer where
  | done
  | points (ps : List DataPoint)
  | kinds (ks : List CollectionKind)
  | flag (b : Bool)
  | text (cs : List Char)
  | handler (name : Option (List Char))
  | refused (e : RegistryError)
  | failed (f : HandlerFailure)

/-- The answer to a step, with the notices and the calls that it caused. -/
structure StepReport where
  answer : StepAnswer
  notices : List Notice
  calls : List HandlerCall

namespace StepReport

def ofAnswer (answer : StepAnswer) : StepReport :=
  ⟨answer, [], []⟩

end StepReport

namespace Session

/-- A session that collects data points by hand. -/
def plain : Session :=
  ⟨.plain, .ofAggregation .empty⟩

/-- A session that records heap occupancy, after some points that are already
there. -/
def heapOccupancy (prefilled : List DataPoint) : Session :=
  ⟨HeapOccupancy.aggregator, .ofAggregation (prefilled.foldl .add .empty)⟩

def aggregation (s : Session) : Aggregation :=
  s.ledger.aggregation

def register (s : Session) (type : EventType) (offered : Option (Handler Ledger)) :
    Session × StepReport :=
  match s.aggregator.register type.cls offered with
  | .ok aggregator => ({ s with aggregator }, .ofAnswer .done)
  | .error e => (s, .ofAnswer (.refused e))

/-- Passes an event on. Only calls of this step are reported. -/
def receive (s : Session) (e : Event) : Session × StepReport :=
  let reaction := s.aggregator.receive e s.ledger
  let answer := match reaction.failure with
    | some f => .failed f
    | none => .done
  ({ s with ledger := reaction.state },
    ⟨answer, reaction.notices, reaction.state.calls.drop s.ledger.calls.length⟩)

def step (s : Session) : Step → Session × StepReport
  | .add p => ({ s with ledger.aggregation := s.aggregation.add p }, .ofAnswer .done)
  | .series kind => (s, .ofAnswer (.points (s.aggregation.series kind)))
  | .dataPoints => (s, .ofAnswer (.points s.aggregation.dataPoints))
  | .kinds => (s, .ofAnswer (.kinds s.aggregation.kinds))
  | .isEmpty => (s, .ofAnswer (.flag s.aggregation.isEmpty))
  | .lines (some kind) => (s, .ofAnswer (.text (DataPoint.lines (s.aggregation.series kind))))
  | .lines none => (s, .ofAnswer (.text (DataPoint.lines s.aggregation.dataPoints)))
  | .register type offered => s.register type offered
  | .lookup type => (s, .ofAnswer (.handler ((s.aggregator.lookup type).map Handler.name)))
  | .receive e => s.receive e

/-- The session after some steps in a row, and the report of each step. -/
def run (s : Session) : List Step → Session × List StepReport
  | [] => (s, [])
  | step :: rest =>
    let (next, report) := s.step step
    let (last, reports) := next.run rest
    (last, report :: reports)

end Session
end HeapChronicle
