import Mathlib
import HeapChronicle.Log.Line
import HeapChronicle.Proofs.Json.Grammar
import HeapChronicle.Proofs.Series.Lines

/-!
When the lines of data points are JSON: exactly when their seconds and values
are finite (`lines_are_objects_iff`). NaN and the infinities are written as
words that JSON does not have, and a log line whose uptime has some hundred
digits is enough to get there.
-/

namespace HeapChronicle

namespace Numeral

theorem isDigits_map {ds : List Nat} (h : IsRow ds) : Json.IsDigits (ds.map Decimal.digitChar) := by
  refine ⟨by simp [h.ne_nil], ?_⟩
  rw [List.all_map, List.all_eq_true]
  exact fun d hd => isDigit_digitChar (h.lt_ten d hd)

theorem isInt_front (n : Numeral) : Json.IsInt (n.front.map Decimal.digitChar) := by
  refine ⟨isDigits_map n.front_isRow, fun hzero => ?_⟩
  obtain ⟨d, rest, hfront⟩ := List.exists_cons_of_ne_nil n.front_isRow.ne_nil
  have hd : d < 10 := n.front_isRow.lt_ten d (hfront ▸ List.mem_cons_self)
  rw [hfront, List.map_cons, List.head?_cons, Option.some.injEq] at hzero
  have hlead : d = 0 := (by decide : ∀ d < 10, Decimal.digitChar d = '0' → d = 0) d hd hzero
  rw [n.front_lead (by rw [hfront, hlead, List.head?_cons])]
  rfl

/-- A numeral is a number of JSON. -/
theorem isNumber_chars (n : Numeral) (negative : Bool) :
    Json.IsNumber (minusIf negative n.chars) := by
  have hfraction : placesChars n.places = [] ∨ Json.IsFraction (placesChars n.places) := by
    by_cases h : n.places = []
    · exact .inl (by rw [h, placesChars])
    · exact .inr ⟨_, isDigits_map ⟨h, n.places_lt_ten⟩, placesChars_of_ne_nil h⟩
  have hpower : powerChars n.power = [] ∨ Json.IsPower (powerChars n.power) := by
    cases h : n.power with
    | none => exact .inl rfl
    | some p =>
      refine .inr ⟨'e', [if p.1 then '-' else '+'], _, .inl rfl, ?_,
        isDigits_map (n.power_isRow p h), rfl⟩
      cases p.1 with
      | false => exact .inr (.inl rfl)
      | true => exact .inr (.inr rfl)
  refine ⟨minusIf negative [], _, _, _, ?_, n.isInt_front, hfraction, hpower, ?_⟩
  · cases negative with
    | false => exact .inl rfl
    | true => exact .inr rfl
  · cases negative with
    | false => rfl
    | true => rfl

end Numeral

namespace DataPoint

/-- A member of an object, with a space behind its colon. -/
def field (name value : List Char) : List Char :=
  Json.quoted name ++ [':', ' '] ++ value

theorem line_eq_fields (p : DataPoint) :
    p.line = ['\x7b'] ++
      (field "gc_type".toList (Json.quoted p.collection.label) ++ [',', ' '] ++
        (field "time_stamp".toList p.stamp.seconds.text ++ [',', ' '] ++
          (field "date_time".toList (dateText p.stamp.date) ++ [',', ' '] ++
            field "value".toList p.value.text))) ++ ['\x7d'] := by
  unfold line
  simp only [field, Json.quoted, List.append_assoc, List.cons_append, List.nil_append]
  rfl

theorem isVisible_of_isPlain {c : Char} (h : Decimal.isPlain c = true) :
    Json.isVisible c = true := by
  have hquote : c ≠ '"' := by
    rintro rfl
    revert h
    decide
  have hescape : c ≠ '\\' := by
    rintro rfl
    revert h
    decide
  have hcode : 32 ≤ c.toNat := by
    by_contra hlow
    have hnone : ∀ n < 32, Decimal.isPlain (Char.ofNat n) = false := by decide
    have hplain := hnone c.toNat (Nat.lt_of_not_le hlow)
    rw [Char.ofNat_toNat, h] at hplain
    cases hplain
  simp [Json.isVisible, hquote, hescape, hcode]

theorem derives_number {x : Number} (h : x.IsFinite) : Json.Derives .value x.text := by
  obtain ⟨negative, n, htext, -⟩ := Number.exists_numeral h
  rw [htext]
  exact .number (n.isNumber_chars negative)

theorem isString_label (kind : CollectionKind) : Json.IsString (Json.quoted kind.label) := by
  apply Json.isString_quoted
  cases kind <;> decide

theorem isString_date (t : ZonedTime) : Json.IsString (Json.quoted (Iso8601.text 3 t)) :=
  Json.isString_quoted (List.all_eq_true.mpr fun c hc =>
    isVisible_of_isPlain (List.all_eq_true.mp (Iso8601.all_isPlain_date t) c hc))

theorem derives_dateText (date : Option ZonedTime) : Json.Derives .value (dateText date) := by
  cases date with
  | none => exact .word (by decide)
  | some t => exact .string (isString_date t)

theorem derives_field {name value : List Char} (hname : name.all Json.isVisible = true)
    (h : Json.Derives .value value) : Json.Derives .member (field name value) :=
  .member (Json.isString_quoted hname) (Json.isMark_space ':') h

theorem isObject_line {p : DataPoint} (hseconds : p.stamp.seconds.isFinite = true)
    (hvalue : p.value.IsFinite) : Json.IsObject p.line := by
  have hcomma := Json.isMark_space ','
  have hseconds : Json.Derives .value p.stamp.seconds.text :=
    derives_number (x := .double p.stamp.seconds) hseconds
  rw [line_eq_fields]
  exact .object (Json.isMark_self _)
    (.consMember (derives_field (by decide) (.string (isString_label p.collection))) hcomma
      (.consMember (derives_field (by decide) hseconds) hcomma
        (.consMember (derives_field (by decide) (derives_dateText p.stamp.date)) hcomma
          (.lastMember (derives_field (by decide) (derives_number hvalue))))))
    (Json.isMark_self _)

theorem outside_field {name value front : List Char} (hname : name.all Json.isVisible = true)
    (h : Json.Outside value front) :
    Json.Outside (field name value) ([':', ' '] ++ front) :=
  ((Json.outside_string (Json.isString_quoted hname)).append
    (Json.outside_of_not_mem (by decide))).append h

theorem exists_outside_dateText (date : Option ZonedTime) :
    ∃ front, Json.Outside (dateText date) front := by
  cases date with
  | none => exact ⟨_, Json.outside_of_not_mem (by decide)⟩
  | some t => exact ⟨[], Json.outside_string (isString_date t)⟩

theorem outside_number (x : Number) : Json.Outside x.text x.text :=
  Json.outside_of_not_mem (Decimal.not_mem_of_isPlain x.all_isPlain_text (by decide))

/-- The numbers of a line stand outside of its strings. -/
theorem mem_bare_line {p : DataPoint} {c : Char}
    (h : c ∈ p.stamp.seconds.text ∨ c ∈ p.value.text) : c ∈ Json.bare false p.line := by
  have hopen : Json.Outside ['\x7b'] ['\x7b'] := Json.outside_of_not_mem (by decide)
  have hclose : Json.Outside ['\x7d'] ['\x7d'] := Json.outside_of_not_mem (by decide)
  have hcomma : Json.Outside [',', ' '] [',', ' '] := Json.outside_of_not_mem (by decide)
  have hlabel : Json.Outside (field "gc_type".toList (Json.quoted p.collection.label)) _ :=
    outside_field (by decide) (Json.outside_string (isString_label p.collection))
  have hseconds : Json.Outside (field "time_stamp".toList p.stamp.seconds.text) _ :=
    outside_field (by decide) (outside_number (.double p.stamp.seconds))
  obtain ⟨front, hfront⟩ := exists_outside_dateText p.stamp.date
  have hdate : Json.Outside (field "date_time".toList (dateText p.stamp.date)) _ :=
    outside_field (by decide) hfront
  have hvalue : Json.Outside (field "value".toList p.value.text) _ :=
    outside_field (by decide) (outside_number p.value)
  have hline := (hopen.append ((hlabel.append hcomma).append ((hseconds.append hcomma).append
    ((hdate.append hcomma).append hvalue)))).append hclose
  rw [← line_eq_fields] at hline
  rw [hline.bare_eq]
  simp only [List.mem_append]
  tauto

/-- NaN and the infinities start with a capital letter. -/
theorem isFinite_of_isBare {x : Number} (h : x.text.all Json.isBare = true) : x.IsFinite := by
  have hwords : ∀ x ∈ Number.words, x.text.all Json.isBare = false := by decide
  rcases x.isFinite_or_mem_words with hx | hx
  · exact hx
  · have hnot := hwords x hx
    rw [h] at hnot
    cases hnot

theorem isObject_line_iff {p : DataPoint} :
    Json.IsObject p.line ↔ p.stamp.seconds.isFinite = true ∧ p.value.IsFinite := by
  refine ⟨fun h => ?_, fun h => isObject_line h.1 h.2⟩
  have hbare := List.all_eq_true.mp (Json.bare_of_derives h)
  have hseconds : (Number.double p.stamp.seconds).IsFinite :=
    isFinite_of_isBare (List.all_eq_true.mpr fun c hc => hbare c (mem_bare_line (.inl hc)))
  have hvalue : p.value.IsFinite :=
    isFinite_of_isBare (List.all_eq_true.mpr fun c hc => hbare c (mem_bare_line (.inr hc)))
  exact ⟨hseconds, hvalue⟩

/-- The lines of a text, each of which ends with a newline. -/
def textLines (cs : List Char) : List (List Char) :=
  (cs.splitOn '\n').dropLast

theorem textLines_lines (points : List DataPoint) : textLines (lines points) = points.map line := by
  rw [textLines, splitOn_lines, List.dropLast_concat]

/-- Every line of some points is a JSON object exactly if the seconds and the value of
every point are finite, wherever the points come from. Dates and collections never
stand in the way. -/
theorem lines_are_objects_iff (points : List DataPoint) :
    (∀ l ∈ textLines (lines points), Json.IsObject l) ↔
      ∀ p ∈ points, p.stamp.seconds.isFinite = true ∧ p.value.IsFinite := by
  rw [textLines_lines, List.forall_mem_map]
  simp only [isObject_line_iff]

/-- A line that starts with an uptime too large for a double. -/
def hugeUptime : List Char :=
  List.replicate 310 '9' ++ ".0: ".toList

/-- A point at that uptime. -/
def endless : DataPoint :=
  ⟨.young, ⟨none, .infinite false⟩, .whole 1⟩

/-- The stamp that is read there makes a line that is no object. -/
theorem hugeUptime_line_not_object :
    Stamp.ofLine hugeUptime = .ok endless.stamp ∧
      ¬ ∀ l ∈ textLines (lines [endless]), Json.IsObject l := by
  constructor
  · decide +kernel
  · rw [textLines_lines]
    intro h
    have hobject := h endless.line (by simp)
    rw [isObject_line_iff] at hobject
    exact absurd hobject.1 (by decide)

end DataPoint

end HeapChronicle
