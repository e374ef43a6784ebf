import HeapChronicle.Decimal.Shortest
import HeapChronicle.Decimal.Layout
import HeapChronicle.Number.Basic

/-!
The written form of numbers. Integers have digits only; a double has a point or
a power of ten, so the two kinds never share a text.
-/

namespace HeapChronicle

/-- Doubles are written positionally from `0.0001` up to, but not including,
`1e+16`; powers of ten have two digits or more. -/
def Number.layout : Decimal.Layout := ⟨-4, 16, 2⟩

def minusIf (negative : Bool) (text : List Char) : List Char :=
  if negative then '-' :: text else text

namespace Binary64

/-- The shortest text that reads back. -/
def text : Binary64 → List Char
  | nan => "NaN".toList
  | infinite negative => minusIf negative "Infinity".toList
  | finite negative m => minusIf negative (Number.layout.write (Decimal.shortest m.units))

/-- The exact value rounded to a number of places. A negative number keeps its
sign when all places are zero. -/
def fixedText (places : Nat) : Binary64 → List Char
  | nan => "nan".toList
  | infinite negative => minusIf negative "inf".toList
  | finite negative m => minusIf negative (Decimal.fixed places m.units Magnitude.one)

end Binary64

namespace Number

/-- Integers are written with all of their digits. A limit on how many digits an
integer may have to be written is not modelled. -/
def text : Number → List Char
  | whole n => minusIf (n < 0) (Decimal.text n.natAbs)
  | double x => x.text

/-- The western digits at the front of a text, and the rest. -/
def takeDigits (cs : List Char) : List Nat × List Char :=
  ((cs.takeWhile Char.isDigit).map (fun c => c.toNat - 48), cs.dropWhile Char.isDigit)

/-- A power of ten at the end of a number: a mark, perhaps a sign, digits. -/
def exponent? : List Char → Option Int
  | mark :: rest =>
    if mark = 'e' ∨ mark = 'E' then
      let (negative, rest) := match rest with
        | '-' :: rest => (true, rest)
        | '+' :: rest => (false, rest)
        | rest => (false, rest)
      match takeDigits rest with
      | (d :: ds, []) => some (signed negative (Decimal.ofDigits (d :: ds)))
      | _ => none
    else none
  | [] => none

def magnitudeOfText? (negative : Bool) (cs : List Char) : Option Number := do
  let (front, rest) := takeDigits cs
  guard !front.isEmpty
  match rest with
  | [] => some (.whole (signed negative (Decimal.ofDigits front)))
  | '.' :: rest =>
    let (places, rest) := takeDigits rest
    guard !places.isEmpty
    let d := Decimal.ofParts front places
    let power ← if rest.isEmpty then some 0 else exponent? rest
    some (.double (.ofDecimal negative ⟨d.coefficient, d.exponent + power⟩))
  | rest =>
    let power ← exponent? rest
    some (.double (.ofDecimal negative ⟨Decimal.ofDigits front, power⟩))

/-- Reads a number. A point or a power of ten makes a double, else it is an
integer. -/
def ofText? : List Char → Option Number
  | '-' :: cs => magnitudeOfText? true cs
  | cs => magnitudeOfText? false cs

end Number

end HeapChronicle
