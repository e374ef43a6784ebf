import HeapChronicle.Text.Quoted

/-!
The one way in which reading a stamp can fail: a date or a count of seconds
that is malformed. The error keeps the text.
-/

namespace HeapChronicle

inductive FormatError where
  | date (text : List Char)
  | seconds (text : List Char)
  deriving DecidableEq

namespace FormatError

def text : FormatError → List Char
  | date cs => cs
  | seconds cs => cs

def message : FormatError → List Char
  | date cs => "Invalid ISO 8601 date time: ".toList ++ Text.quoted cs
  | seconds cs => "Invalid time stamp: ".toList ++ Text.quoted cs

end FormatError
end HeapChronicle
