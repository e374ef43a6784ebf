import Mathlib
import HeapChronicle.Number.Text
import HeapChronicle.Proofs.Decimal.Digits
import HeapChronicle.Proofs.Decimal.Shortest
import HeapChronicle.Proofs.Number.Units

/-!
Written numbers. Integers and finite doubles are written as numerals, and a
numeral is read as the number that it was written for: so two numbers with the
same text are the same number (`text_inj`), of the same kind and with the same
sign of zero, and all NaNs count as one.
-/

namespace HeapChronicle

open Decimal (digitChar ofDigits)

/-- One digit or more. -/
structure IsRow (ds : List Nat) : Prop where
  ne_nil : ds ≠ []
  lt_ten : ∀ d ∈ ds, d < 10

/-- An unsigned number as it is written: digits without a spare zero in front,
then perhaps places, then perhaps a power of ten with its sign. -/
structure Numeral where
  front : List Nat
  places : List Nat
  power : Option (Bool × List Nat)
  front_isRow : IsRow front
  front_lead : front.head? = some 0 → front = [0]
  places_lt_ten : ∀ d ∈ places, d < 10
  power_isRow : ∀ p ∈ power, IsRow p.2

namespace Numeral

def placesChars : List Nat → List Char
  | [] => []
  | d :: ds => '.' :: (d :: ds).map digitChar

theorem placesChars_of_ne_nil {ds : List Nat} (h : ds ≠ []) :
    placesChars ds = '.' :: ds.map digitChar := by
  obtain ⟨d, rest, rfl⟩ := List.exists_cons_of_ne_nil h
  rfl

def powerChars : Option (Bool × List Nat) → List Char
  | none => []
  | some (negative, ds) => 'e' :: (if negative then '-' else '+') :: ds.map digitChar

def chars (n : Numeral) : List Char :=
  n.front.map digitChar ++ placesChars n.places ++ powerChars n.power

def exponent : Option (Bool × List Nat) → Int
  | none => 0
  | some (negative, ds) => signed negative (ofDigits ds)

def decimal (n : Numeral) : Decimal :=
  ⟨ofDigits (n.front ++ n.places), -n.places.length + exponent n.power⟩

/-- Neither places nor a power of ten. -/
def isWhole (n : Numeral) : Bool :=
  n.places.isEmpty && n.power.isNone

/-- The number that a numeral with a sign stands for. -/
def number (negative : Bool) (n : Numeral) : Number :=
  if n.isWhole then .whole (signed negative (ofDigits n.front))
  else .double (.ofDecimal negative n.decimal)

theorem isDigit_digitChar {d : Nat} (h : d < 10) : (digitChar d).isDigit = true :=
  (by decide : ∀ d < 10, (digitChar d).isDigit = true) d h

/-- Digits end where another character stands. -/
theorem takeDigits_append {ds : List Nat} {rest : List Char} (hds : ∀ d ∈ ds, d < 10)
    (hrest : ∀ c ∈ rest.head?, c.isDigit = false) :
    Number.takeDigits (ds.map digitChar ++ rest) = (ds, rest) := by
  induction ds with
  | nil =>
    cases rest with
    | nil => rfl
    | cons c rest => simp [Number.takeDigits, hrest c rfl]
  | cons d ds ih =>
    obtain ⟨hd, hds⟩ := List.forall_mem_cons.mp hds
    have hrow := ih hds
    rw [Number.takeDigits, Prod.mk.injEq] at hrow ⊢
    rw [List.map_cons, List.cons_append, List.takeWhile_cons_of_pos (isDigit_digitChar hd),
      List.dropWhile_cons_of_pos (isDigit_digitChar hd), List.map_cons, hrow.1,
      Decimal.toNat_digitChar hd, Nat.add_sub_cancel_left]
    exact ⟨rfl, hrow.2⟩

theorem takeDigits_map {ds : List Nat} (hds : ∀ d ∈ ds, d < 10) :
    Number.takeDigits (ds.map digitChar) = (ds, []) := by
  have hrow : Number.takeDigits (ds.map digitChar ++ []) = (ds, []) :=
    takeDigits_append hds fun _ hc => nomatch hc
  rwa [List.append_nil] at hrow

theorem head_powerChars (power : Option (Bool × List Nat)) :
    ∀ c ∈ (powerChars power).head?, c.isDigit = false := by
  intro c hc
  cases power with
  | none => cases hc
  | some p =>
    cases hc
    decide

/-- A power starts with its mark, and is read from there. -/
theorem exponent?_powerChars {p : Bool × List Nat} (h : IsRow p.2) :
    ∃ rest, powerChars (some p) = 'e' :: rest ∧
      Number.exponent? ('e' :: rest) = some (exponent (some p)) := by
  obtain ⟨negative, ds⟩ := p
  have hrow := takeDigits_map h.lt_ten
  obtain ⟨d, rest, rfl⟩ := List.exists_cons_of_ne_nil h.ne_nil
  rw [List.map_cons] at hrow
  refine ⟨_, rfl, ?_⟩
  cases negative with
  | false => simp [Number.exponent?, hrow, exponent]
  | true => simp [Number.exponent?, hrow, exponent]

/-- A numeral is read as the number that it stands for. -/
theorem magnitudeOfText?_chars (n : Numeral) (negative : Bool) :
    Number.magnitudeOfText? negative n.chars = some (n.number negative) := by
  have hfront := n.front_isRow.ne_nil
  by_cases hplaces : n.places = []
  · have hsplit : Number.takeDigits n.chars = (n.front, powerChars n.power) := by
      rw [chars, hplaces, placesChars, List.append_nil]
      exact takeDigits_append n.front_isRow.lt_ten (head_powerChars n.power)
    cases hpower : n.power with
    | none =>
      simp [Number.magnitudeOfText?, hsplit, hfront, powerChars, number, isWhole, hplaces, hpower]
    | some p =>
      obtain ⟨rest, hchars, hexponent⟩ := exponent?_powerChars (n.power_isRow p hpower)
      simp [Number.magnitudeOfText?, hsplit, hfront, hchars, hexponent, number, isWhole, hplaces,
        hpower, decimal]
  · have hsplit : Number.takeDigits n.chars =
        (n.front, '.' :: (n.places.map digitChar ++ powerChars n.power)) := by
      rw [chars, placesChars_of_ne_nil hplaces, List.append_assoc, List.cons_append]
      exact takeDigits_append n.front_isRow.lt_ten (fun c hc => by cases hc; decide)
    have hsplitPlaces : Number.takeDigits (n.places.map digitChar ++ powerChars n.power) =
        (n.places, powerChars n.power) :=
      takeDigits_append n.places_lt_ten (head_powerChars n.power)
    cases hpower : n.power with
    | none =>
      rw [hpower, powerChars, List.append_nil] at hsplit hsplitPlaces
      simp [Number.magnitudeOfText?, hsplit, hsplitPlaces, hfront, number, isWhole, hplaces,
        hpower, decimal, exponent, Decimal.ofParts]
    | some p =>
      obtain ⟨rest, hchars, hexponent⟩ := exponent?_powerChars (n.power_isRow p hpower)
      rw [hpower, hchars] at hsplit hsplitPlaces
      simp [Number.magnitudeOfText?, hsplit, hsplitPlaces, hfront, hexponent, number, isWhole,
        hplaces, hpower, decimal, Decimal.ofParts]

/-! ## Writing -/

theorem replicate_zero (count : Nat) :
    List.replicate count '0' = (List.replicate count 0).map digitChar := by
  rw [List.map_replicate]
  rfl

theorem lt_ten_of_mem_zeros {count d : Nat} (h : d ∈ List.replicate count 0) : d < 10 := by
  rw [List.eq_of_mem_replicate h]
  decide

theorem isRow_digits (n : Nat) : IsRow (Decimal.digits n) := by
  obtain ⟨lead, rest, hdigits, -⟩ := Decimal.exists_digits n
  exact ⟨by simp [hdigits], fun d => Decimal.lt_ten_of_mem_digits⟩

theorem digits_lead {n : Nat} (h : (Decimal.digits n).head? = some 0) : n = 0 := by
  obtain ⟨lead, rest, hdigits, hlead⟩ := Decimal.exists_digits n
  rw [hdigits, List.head?_cons, Option.some.injEq] at h
  exact hlead h

/-- A number without places or a power. -/
def ofNat (n : Nat) : Numeral where
  front := Decimal.digits n
  places := []
  power := none
  front_isRow := isRow_digits n
  front_lead h := by rw [digits_lead h, Decimal.digits_zero]
  places_lt_ten _ h := nomatch h
  power_isRow _ h := nomatch h

variable {ds : List Nat}

/-- A point at the end, behind zeros, is followed by one more zero. -/
theorem exists_trailing {zeros : Nat} (hrow : IsRow ds)
    (hlead : ds.head? = some 0 → ds = [0] ∧ zeros = 0) :
    ∃ n : Numeral,
      n.chars = ds.map digitChar ++ List.replicate zeros '0' ++ ['.', '0'] ∧
      n.decimal.value = Decimal.value ⟨ofDigits ds, zeros⟩ ∧ n.isWhole = false := by
  refine ⟨⟨ds ++ List.replicate zeros 0, [0], none, ?_, ?_, by decide, ?_⟩, ?_, ?_, rfl⟩
  · exact ⟨by simp [hrow.ne_nil],
      List.forall_mem_append.mpr ⟨hrow.lt_ten, fun _ => lt_ten_of_mem_zeros⟩⟩
  · rw [List.head?_append_of_ne_nil ds hrow.ne_nil]
    intro hzero
    obtain ⟨hds, hnone⟩ := hlead hzero
    rw [hds, hnone]
    rfl
  · exact fun _ h => nomatch h
  · rw [chars, List.map_append, ← replicate_zero, powerChars, List.append_nil]
    rfl
  · have hcoefficient : ofDigits (ds ++ List.replicate zeros 0 ++ [0]) =
        ofDigits ds * 10 ^ (zeros + 1) := by
      rw [Decimal.ofDigits_append_singleton, Decimal.ofDigits_append, Decimal.ofDigits_zeros,
        List.length_replicate, pow_succ]
      ring
    have hexponent : -(1 : Int) + (zeros + 1 : Nat) = zeros := by omega
    rw [← hexponent, ← Decimal.value_shift, ← hcoefficient]
    rfl

/-- A point inside the digits. -/
theorem exists_inner {places : Nat} (hrow : IsRow ds) (hlead : ds.head? ≠ some 0)
    (hpos : 0 < places) (hlt : places < ds.length) :
    ∃ n : Numeral,
      n.chars = (ds.map digitChar).take (ds.length - places) ++
        '.' :: (ds.map digitChar).drop (ds.length - places) ∧
      n.decimal = ⟨ofDigits ds, -places⟩ ∧ n.isWhole = false := by
  have hdrop : ds.drop (ds.length - places) ≠ [] := by
    rw [ne_eq, List.drop_eq_nil_iff]
    omega
  refine ⟨⟨ds.take (ds.length - places), ds.drop (ds.length - places), none, ?_, ?_, ?_, ?_⟩,
    ?_, ?_, ?_⟩
  · refine ⟨?_, fun d hd => hrow.lt_ten d (List.mem_of_mem_take hd)⟩
    rw [ne_eq, List.take_eq_nil_iff]
    exact fun hnil => hnil.elim (by omega) hrow.ne_nil
  · rw [List.head?_take, if_neg (by omega)]
    exact fun hzero => absurd hzero hlead
  · exact fun d hd => hrow.lt_ten d (List.mem_of_mem_drop hd)
  · exact fun _ h => nomatch h
  · rw [chars, placesChars_of_ne_nil hdrop, powerChars, List.append_nil, List.map_take,
      List.map_drop]
  · have hplaces : (ds.drop (ds.length - places)).length = places := by
      rw [List.length_drop]
      omega
    rw [decimal, List.take_append_drop, hplaces, exponent, Int.add_zero]
  · simp [isWhole, hdrop]

/-- A point before the digits, and zeros between. -/
theorem exists_leading {places : Nat} (hrow : IsRow ds) (hle : ds.length ≤ places) :
    ∃ n : Numeral,
      n.chars = '0' :: '.' :: List.replicate (places - ds.length) '0' ++ ds.map digitChar ∧
      n.decimal = ⟨ofDigits ds, -places⟩ ∧ n.isWhole = false := by
  refine ⟨⟨[0], List.replicate (places - ds.length) 0 ++ ds, none, ?_, fun _ => rfl, ?_, ?_⟩,
    ?_, ?_, ?_⟩
  · exact ⟨by decide, by decide⟩
  · exact List.forall_mem_append.mpr ⟨fun _ => lt_ten_of_mem_zeros, hrow.lt_ten⟩
  · exact fun _ h => nomatch h
  · rw [chars, placesChars_of_ne_nil (by simp [hrow.ne_nil]), List.map_append, ← replicate_zero,
      powerChars, List.append_nil]
    rfl
  · have hcoefficient : ofDigits ([0] ++ (List.replicate (places - ds.length) 0 ++ ds)) =
        ofDigits ds := by
      rw [Decimal.ofDigits_append, Decimal.ofDigits_append, Decimal.ofDigits_zeros]
      simp [ofDigits]
    have hplaces : (List.replicate (places - ds.length) 0 ++ ds).length = places := by
      rw [List.length_append, List.length_replicate]
      omega
    rw [decimal, hcoefficient, hplaces, exponent, Int.add_zero]
  · simp [isWhole, hrow.ne_nil]

theorem exists_positional {exponent : Int} (hrow : IsRow ds)
    (hlead : ds.head? = some 0 → ds = [0] ∧ exponent = 0) :
    ∃ n : Numeral, n.chars = Decimal.positional (ds.map digitChar) exponent ∧
      n.decimal.value = Decimal.value ⟨ofDigits ds, exponent⟩ ∧ n.isWhole = false := by
  by_cases hexponent : 0 ≤ exponent
  · obtain ⟨zeros, rfl⟩ := Int.eq_ofNat_of_zero_le hexponent
    rw [Decimal.positional, if_pos hexponent, Int.toNat_natCast]
    exact exists_trailing hrow fun hzero =>
      ⟨(hlead hzero).1, Int.natCast_eq_zero.mp (hlead hzero).2⟩
  · obtain ⟨places, rfl⟩ : ∃ places : Nat, exponent = -places := ⟨(-exponent).toNat, by omega⟩
    have hplaces : (-(-places : Int)).toNat = places := by omega
    rw [Decimal.positional, if_neg hexponent, hplaces, List.length_map]
    by_cases hlt : places < ds.length
    · have hnonzero : ds.head? ≠ some 0 := fun hzero => by
        have := (hlead hzero).2
        omega
      obtain ⟨n, hchars, hdecimal, hwhole⟩ := exists_inner hrow hnonzero (by omega) hlt
      exact ⟨n, by simp only [hchars, if_pos hlt], by rw [hdecimal], hwhole⟩
    · obtain ⟨n, hchars, hdecimal, hwhole⟩ := exists_leading hrow (Nat.le_of_not_lt hlt)
      exact ⟨n, by simp only [hchars, if_neg hlt], by rw [hdecimal], hwhole⟩

/-- One digit before the point, and a power. -/
theorem exists_scientific {width : Nat} {lead : Int} (hrow : IsRow ds) :
    ∃ n : Numeral,
      n.chars = Decimal.scientific width (ds.map digitChar) lead ∧
      n.decimal = ⟨ofDigits ds, lead + 1 - ds.length⟩ ∧ n.isWhole = false := by
  obtain ⟨d, rest, rfl⟩ := List.exists_cons_of_ne_nil hrow.ne_nil
  obtain ⟨hd, hrest⟩ := List.forall_mem_cons.mp hrow.lt_ten
  have hpower := isRow_digits lead.natAbs
  refine ⟨⟨[d], rest, some (decide (lead < 0),
    List.replicate (width - (Decimal.digits lead.natAbs).length) 0 ++
      Decimal.digits lead.natAbs), ?_, ?_, hrest, ?_⟩, ?_, ?_, ?_⟩
  · exact ⟨by simp, by simpa using hd⟩
  · simp
  · rintro _ ⟨⟩
    exact ⟨by simp [hpower.ne_nil],
      List.forall_mem_append.mpr ⟨fun _ => lt_ten_of_mem_zeros, hpower.lt_ten⟩⟩
  · cases rest with
    | nil => simp [chars, placesChars, powerChars, replicate_zero, Decimal.scientific, Decimal.text]
    | cons e rest =>
      simp [chars, placesChars, powerChars, replicate_zero, Decimal.scientific, Decimal.text]
  · have hpowerValue : exponent (some (decide (lead < 0),
        List.replicate (width - (Decimal.digits lead.natAbs).length) 0 ++
          Decimal.digits lead.natAbs)) = lead := by
      rw [exponent, Decimal.ofDigits_append, Decimal.ofDigits_zeros, Nat.zero_mul, Nat.zero_add,
        Decimal.ofDigits_digits, signed]
      simp only [decide_eq_true_eq]
      split <;> omega
    have hexponent : -(rest.length : Int) + lead = lead + 1 - (d :: rest).length := by
      rw [List.length_cons]
      omega
    rw [decimal, hpowerValue, hexponent]
    rfl
  · simp [isWhole]

theorem write_cases (layout : Decimal.Layout) (d : Decimal) :
    layout.write d = Decimal.positional (Decimal.text d.coefficient) d.exponent ∨
      layout.write d = Decimal.scientific layout.exponentWidth (Decimal.text d.coefficient)
        (d.exponent + (Decimal.text d.coefficient).length - 1) := by
  simp only [Decimal.Layout.write]
  split
  · exact .inl rfl
  · exact .inr rfl

/-- What a layout writes is a numeral of the same value, and shows that it is
not an integer. -/
theorem exists_write (layout : Decimal.Layout) {d : Decimal}
    (h : 0 < d.coefficient ∨ d = ⟨0, 0⟩) :
    ∃ n : Numeral, n.chars = layout.write d ∧ n.decimal.value = d.value ∧ n.isWhole = false := by
  have hrow := isRow_digits d.coefficient
  have hself (exponent : Int) (heq : exponent = d.exponent) :
      (⟨ofDigits (Decimal.digits d.coefficient), exponent⟩ : Decimal) = d := by
    rw [Decimal.ofDigits_digits, heq]
  obtain hwrite | hwrite := write_cases layout d
  · have hlead : (Decimal.digits d.coefficient).head? = some 0 →
        Decimal.digits d.coefficient = [0] ∧ d.exponent = 0 := fun hzero => by
      have hnone := h.resolve_left (by rw [digits_lead hzero]; exact Nat.lt_irrefl 0)
      rw [hnone]
      exact ⟨Decimal.digits_zero, rfl⟩
    obtain ⟨n, hchars, hvalue, hwhole⟩ := exists_positional hrow hlead
    exact ⟨n, by rw [hchars, hwrite, Decimal.text], by rw [hvalue, hself _ rfl], hwhole⟩
  · obtain ⟨n, hchars, hdecimal, hwhole⟩ := exists_scientific hrow
    refine ⟨n, by rw [hchars, hwrite, Decimal.text], ?_, hwhole⟩
    rw [hdecimal, hself _ (by rw [List.length_map]; omega)]

theorem all_isPlain_chars (n : Numeral) : n.chars.all Decimal.isPlain = true := by
  have hplaces : (placesChars n.places).all Decimal.isPlain = true := by
    by_cases h : n.places = []
    · rw [h]
      rfl
    · rw [placesChars_of_ne_nil h, List.all_cons, Decimal.all_isPlain_map n.places_lt_ten]
      decide
  have hpower : (powerChars n.power).all Decimal.isPlain = true := by
    cases h : n.power with
    | none => rfl
    | some p =>
      have hdigits := Decimal.all_isPlain_map (n.power_isRow p h).lt_ten
      have hsign : Decimal.isPlain (if p.1 then '-' else '+') = true := by
        cases p.1 <;> decide
      rw [powerChars, List.all_cons, List.all_cons, hsign, hdigits]
      decide
  rw [chars, List.all_append, List.all_append, Decimal.all_isPlain_map n.front_isRow.lt_ten,
    hplaces, hpower]
  rfl

theorem ofText?_minusIf (n : Numeral) (negative : Bool) :
    Number.ofText? (minusIf negative n.chars) = some (n.number negative) := by
  cases negative with
  | true => exact magnitudeOfText?_chars n true
  | false =>
    have hread := magnitudeOfText?_chars n false
    obtain ⟨d, rest, hfront⟩ := List.exists_cons_of_ne_nil n.front_isRow.ne_nil
    have hd : d < 10 := n.front_isRow.lt_ten d (hfront ▸ List.mem_cons_self)
    have hne : digitChar d ≠ '-' := (by decide : ∀ d < 10, digitChar d ≠ '-') d hd
    rw [chars, hfront, List.map_cons, List.cons_append, List.cons_append] at hread ⊢
    rw [minusIf, if_neg (by decide), Number.ofText?]
    · exact hread
    · exact fun cs hcs => hne (List.cons.inj hcs).1

end Numeral

namespace Number

/-- Integers and finite doubles are written as numerals that stand for them. -/
theorem exists_numeral {x : Number} (h : x.IsFinite) :
    ∃ (negative : Bool) (n : Numeral),
      x.text = minusIf negative n.chars ∧ n.number negative = x := by
  match x with
  | whole n =>
    refine ⟨n < 0, .ofNat n.natAbs, ?_, ?_⟩
    · simp [text, Decimal.text, Numeral.chars, Numeral.ofNat, Numeral.placesChars,
        Numeral.powerChars]
    · have hsigned : signed (n < 0) n.natAbs = n := by
        simp only [signed, decide_eq_true_eq]
        split <;> omega
      simp [Numeral.number, Numeral.isWhole, Numeral.ofNat, Decimal.ofDigits_digits, hsigned]
  | double (.finite negative m) =>
    obtain ⟨n, hchars, hvalue, hwhole⟩ :=
      Numeral.exists_write layout (Decimal.shortest_coefficient m)
    refine ⟨negative, n, ?_, ?_⟩
    · rw [text, Binary64.text, hchars]
    · rw [Numeral.number, hwhole, if_neg (by decide), Decimal.ofDecimal_of_readsBack]
      rw [Decimal.readsBack_congr hvalue, Decimal.shortest_readsBack]

theorem ofText?_text {x : Number} (h : x.IsFinite) : ofText? x.text = some x := by
  obtain ⟨negative, n, htext, hnumber⟩ := exists_numeral h
  rw [htext, n.ofText?_minusIf, hnumber]

/-- The numbers that are written as words. -/
def words : List Number :=
  [double .nan, double (.infinite false), double (.infinite true)]

theorem isFinite_or_mem_words (x : Number) : x.IsFinite ∨ x ∈ words := by
  cases x with
  | whole n => exact .inl (isFinite_whole n)
  | double x =>
    cases x with
    | nan => exact .inr (.head _)
    | infinite negative => cases negative with
      | false => exact .inr (.tail _ (.head _))
      | true => exact .inr (.tail _ (.tail _ (.head _)))
    | finite negative m => exact .inl (rfl : Binary64.isFinite (.finite negative m) = true)

/-- The words for NaN and the infinities are no numerals. -/
theorem ofText?_text_of_mem_words {x : Number} (h : x ∈ words) : ofText? x.text = none :=
  (by decide : ∀ x ∈ words, ofText? x.text = none) x h

/-- Numbers with the same text are the same, kind and sign included. -/
theorem text_inj {x y : Number} (h : x.text = y.text) : x = y := by
  rcases x.isFinite_or_mem_words with hx | hx
  · have hread := ofText?_text hx
    rw [h] at hread
    rcases y.isFinite_or_mem_words with hy | hy
    · rw [ofText?_text hy] at hread
      exact (Option.some.inj hread).symm
    · rw [ofText?_text_of_mem_words hy] at hread
      cases hread
  · have hread := ofText?_text_of_mem_words hx
    rcases y.isFinite_or_mem_words with hy | hy
    · rw [h, ofText?_text hy] at hread
      cases hread
    · have hwords : ∀ x ∈ words, ∀ y ∈ words, x.text = y.text → x = y := by decide
      exact hwords x hx y hy h

theorem all_isPlain_text (x : Number) : x.text.all Decimal.isPlain = true := by
  rcases x.isFinite_or_mem_words with hx | hx
  · obtain ⟨negative, n, htext, -⟩ := exists_numeral hx
    rw [htext]
    cases negative with
    | false => exact n.all_isPlain_chars
    | true => rw [minusIf, if_pos rfl, List.all_cons, n.all_isPlain_chars]; decide
  · exact (by decide : ∀ x ∈ words, x.text.all Decimal.isPlain = true) x hx

end Number

theorem Binary64.text_inj {x y : Binary64} (h : x.text = y.text) : x = y :=
  Number.double.inj (Number.text_inj (x := .double x) (y := .double y) h)

end HeapChronicle
