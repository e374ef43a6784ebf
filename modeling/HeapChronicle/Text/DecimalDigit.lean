/-!
The decimal digits of all scripts. Each script has ten digits in a row, so the
table holds only the zeros.
-/

namespace HeapChronicle.Text

/-- The code points of the zeros of all scripts of Unicode 14, in order. -/
def digitZeros : List Nat :=
  [0x30, 0x660, 0x6f0, 0x7c0, 0x966, 0x9e6, 0xa66, 0xae6, 0xb66, 0xbe6,
   0xc66, 0xce6, 0xd66, 0xde6, 0xe50, 0xed0, 0xf20, 0x1040, 0x1090, 0x17e0,
   0x1810, 0x1946, 0x19d0, 0x1a80, 0x1a90, 0x1b50, 0x1bb0, 0x1c40, 0x1c50,
   0xa620, 0xa8d0, 0xa900, 0xa9d0, 0xa9f0, 0xaa50, 0xabf0, 0xff10, 0x104a0,
   0x10d30, 0x11066, 0x110f0, 0x11136, 0x111d0, 0x112f0, 0x11450, 0x114d0,
   0x11650, 0x116c0, 0x11730, 0x118e0, 0x11950, 0x11c50, 0x11d50, 0x11da0,
   0x16a60, 0x16ac0, 0x16b50, 0x1d7ce, 0x1d7d8, 0x1d7e2, 0x1d7ec, 0x1d7f6,
   0x1e140, 0x1e2f0, 0x1e950, 0x1fbf0]

/-- The value of a decimal digit of any script. -/
def digit? (c : Char) : Option Nat :=
  (digitZeros.find? fun base => base ≤ c.toNat && c.toNat < base + 10).map (c.toNat - ·)

def westernDigit? (c : Char) : Option Nat :=
  if 48 ≤ c.toNat ∧ c.toNat < 58 then some (c.toNat - 48) else none

def isDigit (c : Char) : Bool :=
  (digit? c).isSome

theorem digit?_lt {c : Char} {d : Nat} (h : digit? c = some d) : d < 10 := by
  obtain ⟨base, hbase, rfl⟩ := Option.map_eq_some_iff.mp h
  have := List.find?_some hbase
  simp only [Bool.and_eq_true, decide_eq_true_eq] at this
  omega

theorem westernDigit?_lt {c : Char} {d : Nat} (h : westernDigit? c = some d) : d < 10 := by
  simp only [westernDigit?] at h
  split at h
  · simp only [Option.some.injEq] at h
    omega
  · simp at h

/-- Western digits are digits, with the same value. -/
theorem digit?_of_westernDigit? {c : Char} {d : Nat} (h : westernDigit? c = some d) :
    digit? c = some d := by
  simp only [westernDigit?] at h
  split at h
  next hc =>
    simp only [Option.some.injEq] at h
    have hfind : digitZeros.find? (fun base => base ≤ c.toNat && c.toNat < base + 10) = some 48 := by
      rw [digitZeros, List.find?_cons_of_pos (by simp; omega)]
    simp [digit?, hfind, h]
  next => simp at h

end HeapChronicle.Text
