import HeapChronicle.Decimal.Digits
import HeapChronicle.Log.Line
import HeapChronicle.Notice
import HeapChronicle.Stamp.Order

/-!
Reading a log line by line. Each line gives its stamp or leaves a notice; what
a reading has done is kept in order. A strict reading ends at the first
malformed line, a lenient one skips it with a warning.
-/

namespace HeapChronicle

/-- One effect of a reading: a stamp with its line number, or a notice. -/
inductive LineEffect where
  | stamp (line : Nat) (s : Stamp)
  | notice (n : Notice)
  deriving DecidableEq

structure LogReading where
  effects : List LineEffect
  error : Option FormatError

namespace LogReading

def items (r : LogReading) : List (Nat × Stamp) :=
  r.effects.filterMap fun
    | .stamp line s => some (line, s)
    | .notice _ => none

def notices (r : LogReading) : List Notice :=
  r.effects.filterMap fun
    | .stamp _ _ => none
    | .notice n => some n

def cons (e : LineEffect) (r : LogReading) : LogReading :=
  { r with effects := e :: r.effects }

end LogReading

namespace Log

def isLineEnd (c : Char) : Bool :=
  c = '\r' || c = '\n'

def trimLineEnds (line : List Char) : List Char :=
  (line.reverse.dropWhile isLineEnd).reverse

def noStamp (number : Nat) : Notice :=
  .debug ("No time stamp on line ".toList ++ Decimal.text number)

def skipped (number : Nat) (e : FormatError) : Notice :=
  .warning ("Skipping line ".toList ++ Decimal.text number ++ ": ".toList ++ e.message)

def effect (number : Nat) (s : Stamp) : LineEffect :=
  if s.hasSeconds || s.hasDate then .stamp number s else .notice (noStamp number)

/-- Reads lines, the first of which has the given number. -/
def readFrom (strict : Bool) : Nat → List (List Char) → LogReading
  | _, [] => ⟨[], none⟩
  | number, line :: rest =>
    match Stamp.ofLine (trimLineEnds line) with
    | .ok s => (readFrom strict (number + 1) rest).cons (effect number s)
    | .error e =>
      if strict then ⟨[], some e⟩
      else (readFrom strict (number + 1) rest).cons (.notice (skipped number e))

/-- Reads a log. Lines are counted from one. -/
def read (strict : Bool) (lines : List (List Char)) : LogReading :=
  readFrom strict 1 lines

end Log
end HeapChronicle
