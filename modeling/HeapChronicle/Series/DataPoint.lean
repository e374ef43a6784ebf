import HeapChronicle.Calendar.Iso8601
import HeapChronicle.CollectionKind
import HeapChronicle.Stamp.Order

/-!
Data points: a value for a kind of collection at a point in time. Written out,
each takes one line that ends with a newline.
-/

namespace HeapChronicle

structure DataPoint where
  collection : CollectionKind
  stamp : Stamp
  value : Number

namespace DataPoint

def same (p q : DataPoint) : Bool :=
  p.collection == q.collection && p.stamp.same q.stamp && p.value.numEq q.value

/-- Points in order of their stamps, equal ones as they stood. The order is meant
for stamps without NaN: with NaN seconds the result depends on which pairs a sort
compares, and other sorts give other results. -/
def sort (points : List DataPoint) : List DataPoint :=
  points.mergeSort fun p q => !q.stamp.lt p.stamp

def dateText : Option ZonedTime → List Char
  | some t => '"' :: Iso8601.text 3 t ++ ['"']
  | none => "null".toList

/-- The fields of a point in a fixed order. -/
def line (p : DataPoint) : List Char :=
  "\x7b\"gc_type\": \"".toList ++ p.collection.label ++
    "\", \"time_stamp\": ".toList ++ p.stamp.seconds.text ++
    ", \"date_time\": ".toList ++ dateText p.stamp.date ++
    ", \"value\": ".toList ++ p.value.text ++ ['\x7d']

/-- Newlines join the lines, and one more ends the text. Without points there is
no text. -/
def lines (points : List DataPoint) : List Char :=
  if points.isEmpty then [] else ['\n'].intercalate (points.map line) ++ ['\n']

end DataPoint
end HeapChronicle
