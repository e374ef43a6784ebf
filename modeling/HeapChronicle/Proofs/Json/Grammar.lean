import Mathlib

/-!
The grammar of JSON, as RFC 8259 gives it. Outside of its strings a derived text
has no capital letter but the mark of a power (`bare_of_derives`): there is no
word for NaN or for an infinity.
-/

namespace HeapChronicle.Json

def isSpace (c : Char) : Bool :=
  [' ', '\t', '\n', '\r'].contains c

/-- A mark of the structure, with the white space allowed around it. -/
def IsMark (mark : Char) (cs : List Char) : Prop :=
  ∃ before after, before.all isSpace = true ∧ after.all isSpace = true ∧
    cs = before ++ mark :: after

def IsDigits (cs : List Char) : Prop :=
  cs ≠ [] ∧ cs.all Char.isDigit = true

/-- Digits without a spare zero in front. -/
def IsInt (cs : List Char) : Prop :=
  IsDigits cs ∧ (cs.head? = some '0' → cs = ['0'])

def IsFraction (cs : List Char) : Prop :=
  ∃ ds, IsDigits ds ∧ cs = '.' :: ds

def IsPower (cs : List Char) : Prop :=
  ∃ mark sign ds, (mark = 'e' ∨ mark = 'E') ∧ (sign = [] ∨ sign = ['+'] ∨ sign = ['-']) ∧
    IsDigits ds ∧ cs = mark :: (sign ++ ds)

def IsNumber (cs : List Char) : Prop :=
  ∃ sign int fraction power, (sign = [] ∨ sign = ['-']) ∧ IsInt int ∧
    (fraction = [] ∨ IsFraction fraction) ∧ (power = [] ∨ IsPower power) ∧
    cs = sign ++ int ++ fraction ++ power

def isHexDigit (c : Char) : Bool :=
  c.isDigit || "abcdefABCDEF".toList.contains c

/-- What stands between the quotes of a string. -/
inductive IsBody : List Char → Prop
  | nil : IsBody []
  | plain {c : Char} {cs : List Char} (hvisible : 32 ≤ c.toNat) (hquote : c ≠ '"')
      (hescape : c ≠ '\\') (hcs : IsBody cs) : IsBody (c :: cs)
  | escape {c : Char} {cs : List Char} (hc : c ∈ ['"', '\\', '/', 'b', 'f', 'n', 'r', 't'])
      (hcs : IsBody cs) : IsBody ('\\' :: c :: cs)
  | unicode {a b c d : Char} {cs : List Char} (hhex : [a, b, c, d].all isHexDigit = true)
      (hcs : IsBody cs) : IsBody ('\\' :: 'u' :: a :: b :: c :: d :: cs)

def IsString (cs : List Char) : Prop :=
  ∃ body, IsBody body ∧ cs = '"' :: (body ++ ['"'])

inductive Part where
  | value
  | object
  | members
  | member
  | array
  | elements

/-- The texts of each part. -/
inductive Derives : Part → List Char → Prop
  | word {cs} (h : cs ∈ ["false".toList, "null".toList, "true".toList]) : Derives .value cs
  | number {cs} (h : IsNumber cs) : Derives .value cs
  | string {cs} (h : IsString cs) : Derives .value cs
  | ofObject {cs} (h : Derives .object cs) : Derives .value cs
  | ofArray {cs} (h : Derives .array cs) : Derives .value cs
  | emptyObject {first last} (hfirst : IsMark '\x7b' first) (hlast : IsMark '\x7d' last) :
      Derives .object (first ++ last)
  | object {first body last} (hfirst : IsMark '\x7b' first) (hbody : Derives .members body)
      (hlast : IsMark '\x7d' last) : Derives .object (first ++ body ++ last)
  | lastMember {cs} (h : Derives .member cs) : Derives .members cs
  | consMember {cs comma rest} (h : Derives .member cs) (hcomma : IsMark ',' comma)
      (hrest : Derives .members rest) : Derives .members (cs ++ comma ++ rest)
  | member {name colon cs} (hname : IsString name) (hcolon : IsMark ':' colon)
      (h : Derives .value cs) : Derives .member (name ++ colon ++ cs)
  | emptyArray {first last} (hfirst : IsMark '[' first) (hlast : IsMark ']' last) :
      Derives .array (first ++ last)
  | array {first body last} (hfirst : IsMark '[' first) (hbody : Derives .elements body)
      (hlast : IsMark ']' last) : Derives .array (first ++ body ++ last)
  | lastElement {cs} (h : Derives .value cs) : Derives .elements cs
  | consElement {cs comma rest} (h : Derives .value cs) (hcomma : IsMark ',' comma)
      (hrest : Derives .elements rest) : Derives .elements (cs ++ comma ++ rest)

def IsObject (cs : List Char) : Prop :=
  Derives .object cs

theorem isMark_self (mark : Char) : IsMark mark [mark] :=
  ⟨[], [], rfl, rfl, rfl⟩

theorem isMark_space (mark : Char) : IsMark mark [mark, ' '] :=
  ⟨[], [' '], rfl, rfl, rfl⟩

def quoted (cs : List Char) : List Char :=
  '"' :: (cs ++ ['"'])

/-- What a string holds without an escape. -/
def isVisible (c : Char) : Bool :=
  32 ≤ c.toNat && c != '"' && c != '\\'

theorem isString_quoted {cs : List Char} (h : cs.all isVisible = true) : IsString (quoted cs) := by
  refine ⟨cs, ?_, rfl⟩
  induction cs with
  | nil => exact .nil
  | cons c cs ih =>
    rw [List.all_cons, Bool.and_eq_true] at h
    obtain ⟨hc, hcs⟩ := h
    rw [isVisible, Bool.and_eq_true, Bool.and_eq_true, decide_eq_true_eq, bne_iff_ne,
      bne_iff_ne] at hc
    exact .plain hc.1.1 hc.1.2 hc.2 (ih hcs)

/-- The characters outside of strings, from inside one when `quoted`. -/
def bare : (quoted : Bool) → List Char → List Char
  | _, [] => []
  | false, c :: cs => if c = '"' then bare true cs else c :: bare false cs
  | true, '\\' :: _ :: cs => bare true cs
  | true, c :: cs => if c = '"' then bare false cs else bare true cs

/-- The strings of a text are closed, and outside of them is `front`. -/
def Outside (cs front : List Char) : Prop :=
  ∀ rest, bare false (cs ++ rest) = front ++ bare false rest

theorem Outside.bare_eq {cs front : List Char} (h : Outside cs front) : bare false cs = front := by
  have hend := h []
  rwa [List.append_nil, bare, List.append_nil] at hend

theorem Outside.append {xs ys front back : List Char} (hxs : Outside xs front)
    (hys : Outside ys back) : Outside (xs ++ ys) (front ++ back) := by
  intro rest
  rw [List.append_assoc, hxs, hys, List.append_assoc]

theorem outside_of_not_mem {cs : List Char} (h : '"' ∉ cs) : Outside cs cs := by
  intro rest
  induction cs with
  | nil => rfl
  | cons c cs ih =>
    rw [List.mem_cons, not_or] at h
    rw [List.cons_append, bare, if_neg (Ne.symm h.1), ih h.2, List.cons_append]

theorem bare_true_cons {c : Char} (cs : List Char) (hquote : c ≠ '"') (hescape : c ≠ '\\') :
    bare true (c :: cs) = bare true cs := by
  rw [bare, if_neg hquote]
  exact fun _ _ hc => absurd hc hescape

theorem isHexDigit_ne {c : Char} (h : isHexDigit c = true) : c ≠ '"' ∧ c ≠ '\\' := by
  constructor <;> rintro rfl <;> revert h <;> decide

/-- The body of a string ends where its last quote stands. -/
theorem bare_body {body : List Char} (h : IsBody body) (rest : List Char) :
    bare true (body ++ '"' :: rest) = bare false rest := by
  induction h with
  | nil => rfl
  | plain _ hquote hescape _ ih =>
    rw [List.cons_append, bare_true_cons _ hquote hescape, ih]
  | escape _ _ ih => exact ih
  | @unicode a b c d cs hhex _ ih =>
    simp only [List.all_cons, Bool.and_eq_true] at hhex
    obtain ⟨ha, hb, hc, hd, -⟩ := hhex
    have hskip {x : Char} (hx : isHexDigit x = true) (cs : List Char) :
        bare true (x :: cs) = bare true cs :=
      bare_true_cons cs (isHexDigit_ne hx).1 (isHexDigit_ne hx).2
    calc bare true ('\\' :: 'u' :: a :: b :: c :: d :: (cs ++ '"' :: rest))
        = bare true (a :: b :: c :: d :: (cs ++ '"' :: rest)) := rfl
      _ = bare true (cs ++ '"' :: rest) := by rw [hskip ha, hskip hb, hskip hc, hskip hd]
      _ = bare false rest := ih

theorem outside_string {cs : List Char} (h : IsString cs) : Outside cs [] := by
  obtain ⟨body, hbody, rfl⟩ := h
  intro rest
  rw [List.cons_append, List.append_assoc, bare, if_pos rfl]
  exact bare_body hbody rest

/-- No letter in capitals, except for the mark of a power, and no quote. -/
def isBare (c : Char) : Bool :=
  (!c.isUpper || c == 'E') && c != '"'

/-- Outside of its strings a text has bare characters only. -/
def IsPiece (cs : List Char) : Prop :=
  ∃ front, Outside cs front ∧ front.all isBare = true

theorem IsPiece.append {xs ys : List Char} (hxs : IsPiece xs) (hys : IsPiece ys) :
    IsPiece (xs ++ ys) := by
  obtain ⟨front, hfront, hbare⟩ := hxs
  obtain ⟨back, hback, hbare'⟩ := hys
  exact ⟨front ++ back, hfront.append hback, by rw [List.all_append, hbare, hbare', Bool.and_self]⟩

theorem isPiece_of_isBare {cs : List Char} (h : cs.all isBare = true) : IsPiece cs := by
  refine ⟨cs, outside_of_not_mem fun hquote => ?_, h⟩
  have hbare := List.all_eq_true.mp h '"' hquote
  revert hbare
  decide

theorem isBare_of_isSpace {c : Char} (h : isSpace c = true) : isBare c = true := by
  simp only [isSpace, List.contains_iff_mem, List.mem_cons, List.not_mem_nil, or_false] at h
  obtain rfl | rfl | rfl | rfl := h <;> rfl

theorem IsMark.isPiece {mark : Char} {cs : List Char} (h : IsMark mark cs)
    (hmark : isBare mark = true) : IsPiece cs := by
  obtain ⟨before, after, hbefore, hafter, rfl⟩ := h
  have hspaces {spaces : List Char} (hspaces : spaces.all isSpace = true) :
      spaces.all isBare = true :=
    List.all_eq_true.mpr fun c hc => isBare_of_isSpace (List.all_eq_true.mp hspaces c hc)
  apply isPiece_of_isBare
  rw [List.all_append, List.all_cons, hspaces hbefore, hmark, hspaces hafter]
  rfl

theorem isBare_of_isDigit {c : Char} (h : c.isDigit = true) : isBare c = true := by
  have hcode : c.toNat < 58 := by
    rw [Char.isDigit, Bool.and_eq_true, decide_eq_true_eq, decide_eq_true_eq] at h
    exact Nat.lt_succ_of_le (UInt32.le_iff_toNat_le.mp h.2)
  have hlow : ∀ n < 58, (Char.ofNat n).isDigit = true → isBare (Char.ofNat n) = true := by decide
  have hbare := hlow c.toNat hcode
  rw [Char.ofNat_toNat] at hbare
  exact hbare h

theorem IsDigits.isPiece {ds : List Char} (h : IsDigits ds) : IsPiece ds :=
  isPiece_of_isBare (List.all_eq_true.mpr fun c hc =>
    isBare_of_isDigit (List.all_eq_true.mp h.2 c hc))

theorem IsFraction.isPiece {cs : List Char} (h : IsFraction cs) : IsPiece cs := by
  obtain ⟨ds, hds, rfl⟩ := h
  have hpoint : IsPiece ['.'] := isPiece_of_isBare rfl
  exact hpoint.append hds.isPiece

theorem IsPower.isPiece {cs : List Char} (h : IsPower cs) : IsPiece cs := by
  obtain ⟨mark, sign, ds, hmark, hsign, hds, rfl⟩ := h
  have hmark : IsPiece [mark] := by
    obtain rfl | rfl := hmark
    · exact isPiece_of_isBare rfl
    · exact isPiece_of_isBare rfl
  have hsign : IsPiece sign := by
    obtain rfl | rfl | rfl := hsign
    · exact isPiece_of_isBare rfl
    · exact isPiece_of_isBare rfl
    · exact isPiece_of_isBare rfl
  exact hmark.append (hsign.append hds.isPiece)

theorem IsNumber.isPiece {cs : List Char} (h : IsNumber cs) : IsPiece cs := by
  obtain ⟨sign, int, fraction, power, hsign, ⟨hint, -⟩, hfraction, hpower, rfl⟩ := h
  have hnil : IsPiece [] := isPiece_of_isBare rfl
  have hsign : IsPiece sign := by
    obtain rfl | rfl := hsign
    · exact hnil
    · exact isPiece_of_isBare rfl
  have hfraction : IsPiece fraction := hfraction.elim (fun h => h ▸ hnil) IsFraction.isPiece
  have hpower : IsPiece power := hpower.elim (fun h => h ▸ hnil) IsPower.isPiece
  exact ((hsign.append hint.isPiece).append hfraction).append hpower

theorem IsString.isPiece {cs : List Char} (h : IsString cs) : IsPiece cs :=
  ⟨[], outside_string h, rfl⟩

theorem isPiece_of_derives {part : Part} {cs : List Char} (h : Derives part cs) : IsPiece cs := by
  induction h with
  | word h =>
    exact isPiece_of_isBare
      ((by decide : ∀ cs ∈ ["false".toList, "null".toList, "true".toList], cs.all isBare = true) _ h)
  | number h => exact h.isPiece
  | string h => exact h.isPiece
  | ofObject _ ih => exact ih
  | ofArray _ ih => exact ih
  | emptyObject hfirst hlast =>
    exact (hfirst.isPiece rfl).append (hlast.isPiece rfl)
  | object hfirst _ hlast ih =>
    exact ((hfirst.isPiece rfl).append ih).append (hlast.isPiece rfl)
  | lastMember _ ih => exact ih
  | consMember _ hcomma _ ih ihrest =>
    exact (ih.append (hcomma.isPiece rfl)).append ihrest
  | member hname hcolon _ ih =>
    exact (hname.isPiece.append (hcolon.isPiece rfl)).append ih
  | emptyArray hfirst hlast =>
    exact (hfirst.isPiece rfl).append (hlast.isPiece rfl)
  | array hfirst _ hlast ih =>
    exact ((hfirst.isPiece rfl).append ih).append (hlast.isPiece rfl)
  | lastElement _ ih => exact ih
  | consElement _ hcomma _ ih ihrest =>
    exact (ih.append (hcomma.isPiece rfl)).append ihrest

/-- Outside of its strings a text of the grammar has bare characters only. -/
theorem bare_of_derives {part : Part} {cs : List Char} (h : Derives part cs) :
    (bare false cs).all isBare = true := by
  obtain ⟨front, hfront, hbare⟩ := isPiece_of_derives h
  rw [hfront.bare_eq]
  exact hbare

end HeapChronicle.Json
