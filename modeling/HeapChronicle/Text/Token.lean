import HeapChronicle.Text.DecimalDigit

/-!
Recognising tokens at the front of a text. A recogniser gives the token and the
rest, and loses nothing: token and rest together are the text
(`split?_append`, `seconds?_append`).
-/

namespace HeapChronicle.Text

/-- A token of fixed length: one class of characters for each place. -/
abbrev Shape := List (Char → Bool)

/-- Splits a token of the shape off the front of a text. -/
def Shape.split? : Shape → List Char → Option (List Char × List Char)
  | [], cs => some ([], cs)
  | _ :: _, [] => none
  | accepts :: shape, c :: cs =>
    if accepts c then (split? shape cs).map fun (token, rest) => (c :: token, rest)
    else none

theorem Shape.split?_append {shape : Shape} {cs token rest : List Char}
    (h : shape.split? cs = some (token, rest)) : token ++ rest = cs := by
  induction shape generalizing cs token rest with
  | nil => simp_all [split?]
  | cons accepts shape ih =>
    cases cs with
    | nil => simp [split?] at h
    | cons c cs =>
      simp only [split?] at h
      split at h
      · obtain ⟨⟨token', rest'⟩, hsplit, heq⟩ := Option.map_eq_some_iff.mp h
        simp only [Prod.mk.injEq] at heq
        obtain ⟨rfl, rfl⟩ := heq
        rw [List.cons_append, ih hsplit]
      · simp at h

def drop? : List Char → List Char → Option (List Char)
  | [], cs => some cs
  | _ :: _, [] => none
  | m :: mark, c :: cs => if m = c then drop? mark cs else none

theorem drop?_eq_some_iff {mark cs rest : List Char} :
    drop? mark cs = some rest ↔ cs = mark ++ rest := by
  induction mark generalizing cs with
  | nil => simp [drop?]
  | cons m mark ih =>
    cases cs with
    | nil => simp [drop?]
    | cons c cs =>
      by_cases h : m = c
      · simp [drop?, h, ih]
      · simp [drop?, h, Ne.symm h]

def isPoint (c : Char) : Bool :=
  c = '.' || c = ','

/-- The parts of a text `digits point digits`, and what follows. -/
structure SecondsToken where
  whole : List Char
  point : Char
  places : List Char

def SecondsToken.chars (t : SecondsToken) : List Char :=
  t.whole ++ t.point :: t.places

/-- Splits digits, a point and digits off the front of a text. The digits reach
as far as they can. -/
def seconds? (cs : List Char) : Option (SecondsToken × List Char) :=
  match cs.takeWhile isDigit, cs.dropWhile isDigit with
  | d :: ds, point :: more =>
    if isPoint point then
      match more.takeWhile isDigit, more.dropWhile isDigit with
      | e :: es, rest => some (⟨d :: ds, point, e :: es⟩, rest)
      | [], _ => none
    else none
  | _, _ => none

theorem seconds?_append {cs rest : List Char} {t : SecondsToken}
    (h : seconds? cs = some (t, rest)) : t.chars ++ rest = cs := by
  simp only [seconds?] at h
  split at h
  next d ds point more hwhole hmore =>
    split at h
    · split at h
      next hplaces =>
        simp only [Option.some.injEq, Prod.mk.injEq] at h
        obtain ⟨rfl, rfl⟩ := h
        have hfront := List.takeWhile_append_dropWhile (p := isDigit) (l := cs)
        have hback := List.takeWhile_append_dropWhile (p := isDigit) (l := more)
        rw [hwhole, hmore] at hfront
        rw [hplaces] at hback
        rw [← hfront]
        simp only [SecondsToken.chars, List.append_assoc, List.cons_append] at hback ⊢
        rw [hback]
      next => simp at h
    · simp at h
  next => simp at h

end HeapChronicle.Text
