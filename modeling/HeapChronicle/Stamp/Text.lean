import HeapChronicle.Calendar.Iso8601
import HeapChronicle.Number.Text
import HeapChronicle.Stamp.Basic

/-!
Stamps as text, and stamps read from the texts of a date and of seconds.
-/

namespace HeapChronicle

def Text.SecondsToken.value (t : Text.SecondsToken) : Binary64 :=
  .ofDecimal false (.ofParts (t.whole.filterMap Text.digit?) (t.places.filterMap Text.digit?))

namespace Stamp

def readSeconds (cs : List Char) : Except FormatError Binary64 :=
  match Text.seconds? cs with
  | some (token, []) => .ok token.value
  | _ => .error (.seconds cs)

def readDate? : Option (List Char) → Except FormatError (Option ZonedTime)
  | some cs => (Iso8601.read cs).map some
  | none => .ok none

def readSeconds? : Option (List Char) → Except FormatError Binary64
  | some cs => readSeconds cs
  | none => .ok noSeconds

def readIso (date : Option (List Char)) : Except FormatError Stamp := do
  let t ← readDate? date
  return ofParts t .nan

/-- A stamp from the texts of its parts. The date is read first. -/
def read (date seconds : Option (List Char)) : Except FormatError Stamp := do
  let t ← readDate? date
  let x ← readSeconds? seconds
  return ofParts t x

/-- The date to the millisecond, then the seconds with three places. -/
def text (s : Stamp) : List Char :=
  match s.date with
  | some t => Iso8601.text 3 t ++ '@' :: s.seconds.fixedText 3
  | none => '@' :: s.seconds.fixedText 3

end Stamp
end HeapChronicle
