import HeapChronicle.Stamp.Text

/-!
The date and the uptime at the start of a log line. A line that begins with a
bracket may hold a date and then an uptime in brackets, each of them optional:
`[2021-01-01T00:00:00.000+0000][12.345s]`. In any other line an uptime and a
colon are needed, and a date may stand before them:
`2017-09-07T09:00:12.795+0200: 0.716: `.
-/

namespace HeapChronicle

structure LinePrefix where
  date : Option (List Char)
  uptime : Option (List Char)
  deriving DecidableEq

namespace LinePrefix

def isUnified (line : List Char) : Bool :=
  line.head? == some '['

def bracketedDate? (line : List Char) : Option (List Char × List Char) := do
  let line ← Text.drop? ['['] line
  let (date, line) ← Iso8601.shape.split? line
  let line ← Text.drop? [']'] line
  some (date, line)

/-- An uptime in brackets, with the unit `s`. -/
def bracketedUptime? (line : List Char) : Option (List Char) := do
  let line ← Text.drop? ['['] line
  let (token, line) ← Text.seconds? line
  let _ ← Text.drop? ['s', ']'] line
  some token.chars

def ofUnified (line : List Char) : LinePrefix :=
  match bracketedDate? line with
  | some (date, rest) => ⟨some date, bracketedUptime? rest⟩
  | none => ⟨none, bracketedUptime? line⟩

def plainUptime? (line : List Char) : Option (List Char) := do
  let (token, line) ← Text.seconds? line
  let _ ← Text.drop? [':', ' '] line
  some token.chars

/-- A date, then an uptime. A date alone does not count. -/
def plainDated? (line : List Char) : Option LinePrefix := do
  let (date, line) ← Iso8601.shape.split? line
  let line ← Text.drop? [':', ' '] line
  let uptime ← plainUptime? line
  some ⟨some date, some uptime⟩

def ofPlain (line : List Char) : LinePrefix :=
  (plainDated? line).getD ⟨none, plainUptime? line⟩

def ofLine (line : List Char) : LinePrefix :=
  if isUnified line then ofUnified line else ofPlain line

end LinePrefix

/-- The stamp of a log line; the empty one if the line has neither date nor
uptime. -/
def Stamp.ofLine (line : List Char) : Except FormatError Stamp :=
  let found := LinePrefix.ofLine line
  Stamp.read found.date found.uptime

end HeapChronicle
