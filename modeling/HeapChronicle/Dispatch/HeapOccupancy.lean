import HeapChronicle.Dispatch.Aggregator
import HeapChronicle.Series.Aggregation
import HeapChronicle.Stamp.Text

/-!
Heap occupancy after each collection. Pauses report what the heap holds after
the collection, ZGC cycles what is alive when reclaiming ends. Shenandoah cycles
are skipped, with a warning for the first of them. Handlers from outside may
stand beside the built-in ones.
-/

namespace HeapChronicle

/-- An event was passed to a handler from outside. -/
structure HandlerCall where
  handler : List Char
  type : EventType

/-- What handlers work on: the data points, whether the warning about
Shenandoah cycles has been given, and the calls of handlers from outside. -/
structure Ledger where
  aggregation : Aggregation
  warned : Bool
  calls : List HandlerCall

namespace Ledger

def ofAggregation (aggregation : Aggregation) : Ledger :=
  ⟨aggregation, false, []⟩

def record (l : Ledger) (e : Event) (value : Number) : Ledger :=
  { l with aggregation := l.aggregation.add ⟨e.collection, e.stamp, value⟩ }

end Ledger

namespace HeapOccupancy

/-- Records what the heap holds after a pause. -/
def recordPause : Handler Ledger where
  name := "_extract_pause_occupancy".toList
  react e l := .quiet <| match e.heap with
    | some heap => l.record e heap.occupancyAfter
    | none => l

/-- Records what is alive after a cycle. -/
def recordLive : Handler Ledger where
  name := "_extract_zgc_occupancy".toList
  react e l := .quiet <| match e.live with
    | some live => l.record e live.finish
    | none => l

def skipWarning (s : Stamp) : Notice :=
  .warning ("Heap occupancy after Shenandoah cycles is not supported; skipping cycle at ".toList ++
    s.text)

/-- Records nothing, and warns once. -/
def skipShenandoah : Handler Ledger where
  name := "_skip_shenandoah".toList
  react e l :=
    if l.warned then .quiet l
    else ⟨{ l with warned := true }, [skipWarning e.stamp], none⟩

def aggregator : Aggregator Ledger where
  name := "HeapOccupancyAfterCollection".toList
  handlers :=
    { entries :=
        [(.generationalPause, recordPause), (.g1Pause, recordPause), (.zgcCycle, recordLive),
          (.shenandoahCycle, skipShenandoah)]
      nodup := by simp }

end HeapOccupancy

namespace Aggregator

def plain : Aggregator Ledger :=
  ⟨"Aggregator".toList, .empty⟩

end Aggregator

/-- A handler from outside. It notes each call; then it fails, or records the
duration of the event, or does nothing more. -/
def Handler.outside (name : List Char) (fails records : Bool) : Handler Ledger where
  name := name
  react e l :=
    let l := { l with calls := l.calls ++ [⟨name, e.type⟩] }
    if fails then ⟨l, [], some ⟨name⟩⟩
    else .quiet (if records then l.record e e.duration else l)

end HeapChronicle
