import HeapChronicle.Log.Span
import HeapChronicle.Stamp.Operand
import HeapChronicle.Proofs.Dispatch.Routing
import HeapChronicle.Proofs.Log.Reading
import HeapChronicle.Proofs.Series.Record
import HeapChronicle.Proofs.Stamp.Chain
import HeapChronicle.Proofs.Stamp.Preorder
import HeapChronicle.Proofs.Calendar.Written
import HeapChronicle.Proofs.Dispatch.Occupancy
import HeapChronicle.Proofs.Decimal.Shortest
import HeapChronicle.Proofs.Number.Numeral
import HeapChronicle.Proofs.Series.Lines
import HeapChronicle.Proofs.Json.Grammar
import HeapChronicle.Proofs.Series.Objects
import HeapChronicle.Proofs.Binary64.Sum
import HeapChronicle.Proofs.Stamp.Derived
import HeapChronicle.Proofs.Stamp.Timed
import HeapChronicle.Proofs.Binary64.Agreement
import HeapChronicle.Proofs.Stamp.Alike
import HeapChronicle.Proofs.Number.Units
import HeapChronicle.Proofs.Stamp.Clock
import HeapChronicle.Proofs.Number.Micros
import HeapChronicle.Proofs.Stamp.Accuracy
import HeapChronicle.Proofs.Stamp.Edges
import HeapChronicle.Proofs.Calendar.DateText
import HeapChronicle.Proofs.Stamp.Together
import HeapChronicle.Proofs.Binary64.Difference
import HeapChronicle.Proofs.Log.Gap
import HeapChronicle.Proofs.Stamp.SecondsText
import HeapChronicle.Proofs.Stamp.Normal
import HeapChronicle.Proofs.Log.Moved
import HeapChronicle.Proofs.Stamp.Millis
import HeapChronicle.Proofs.Stamp.AgainstSeconds
import HeapChronicle.Proofs.Stamp.DateAlone
