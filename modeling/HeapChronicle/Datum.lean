import HeapChronicle.Number.Text
import HeapChronicle.Text.Quoted

/-!
Values of any kind as they come from outside, and how they are shown in
messages.
-/

namespace HeapChronicle

inductive Datum where
  | null
  | flag (b : Bool)
  | number (x : Number)
  | text (cs : List Char)
  | list (items : List Datum)
  | record (fields : List (List Char × Datum))

namespace Datum

def commaSeparated : List (List Char) → List Char
  | [] => []
  | [cs] => cs
  | cs :: rest => cs ++ ", ".toList ++ commaSeparated rest

mutual

/-- Texts are quoted, and so are the names of fields. -/
def shown : Datum → List Char
  | null => "None".toList
  | flag true => "True".toList
  | flag false => "False".toList
  | number (.double (.infinite negative)) => minusIf negative "inf".toList
  | number x => x.text
  | text cs => Text.quoted cs
  | list items => '[' :: commaSeparated (shownItems items) ++ [']']
  | record fields => '\x7b' :: commaSeparated (shownFields fields) ++ ['\x7d']

def shownItems : List Datum → List (List Char)
  | [] => []
  | item :: rest => shown item :: shownItems rest

def shownFields : List (List Char × Datum) → List (List Char)
  | [] => []
  | (name, value) :: rest =>
    (Text.quoted name ++ ": ".toList ++ shown value) :: shownFields rest

end

end Datum
end HeapChronicle
