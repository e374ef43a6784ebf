import HeapChronicle.Stamp.Order
import HeapChronicle.Stamp.Shift

/-!
Comparison and arithmetic of a stamp with an operand of any kind: another stamp,
a number of seconds, or a thing that is neither.
-/

namespace HeapChronicle

inductive Operand where
  | stamp (s : Stamp)
  | seconds (x : Number)
  | foreign

/-- What subtraction gives: a distance from a stamp, a stamp from seconds. -/
inductive Difference where
  | seconds (x : Binary64)
  | stamp (s : Stamp)

namespace Operand

/-- A number that does not fit is out of range. -/
def inRange {α : Type} : Option α → Except StampError α
  | some a => .ok a
  | none => .error .outOfRange

def before (s : Stamp) : Operand → Except StampError Bool
  | stamp t => .ok (s.isBefore t)
  | seconds x => inRange (s.isBeforeSeconds? x)
  | foreign => .error .unsupportedOperand

def after (s : Stamp) : Operand → Except StampError Bool
  | stamp t => .ok (s.isAfter t)
  | seconds x => inRange (s.isAfterSeconds? x)
  | foreign => .error .unsupportedOperand

def add (s : Stamp) : Operand → Except StampError Stamp
  | seconds x => inRange (s.add? x)
  | _ => .error .unsupportedOperand

def sub (s : Stamp) : Operand → Except StampError Difference
  | stamp t => .ok (.seconds (s.secondsSince t))
  | seconds x => (inRange (s.sub? x)).map .stamp
  | foreign => .error .unsupportedOperand

/-- A comparison of stamps with each other; numbers have no place in the
sorting order. -/
def ordered (relation : Stamp → Stamp → Bool) (s : Stamp) : Operand → Except StampError Bool
  | stamp t => .ok (relation s t)
  | _ => .error .unsupportedOperand

/-- Only stamps can equal a stamp. -/
def equals (s : Stamp) : Operand → Bool
  | stamp t => s.same t
  | _ => false

end Operand
end HeapChronicle
