import Mathlib.Data.List.Induction
import Mathlib.Tactic.Ring
import HeapChronicle.Decimal.Digits
import HeapChronicle.Text.DecimalDigit

/-!
Digits as characters. A reader that knows the western digits gets back what was
written (`mapM_map_digitChar`), and what it accepts was written that way
(`eq_map_digitChar`). Digits and their number determine each other once their
count is fixed (`padded_ofDigits`).
-/

namespace HeapChronicle.Decimal

theorem toNat_digitChar {d : Nat} (h : d < 10) : (digitChar d).toNat = 48 + d :=
  (by decide : ∀ d < 10, (digitChar d).toNat = 48 + d) d h

theorem westernDigit?_digitChar {d : Nat} (h : d < 10) :
    Text.westernDigit? (digitChar d) = some d := by
  rw [Text.westernDigit?, toNat_digitChar h, if_pos (by omega), Nat.add_sub_cancel_left]

theorem eq_digitChar {c : Char} {d : Nat} (h : Text.westernDigit? c = some d) :
    c = digitChar d := by
  rw [Text.westernDigit?] at h
  split at h
  next hc =>
    cases h
    rw [digitChar, Nat.add_sub_cancel' hc.1, Char.ofNat_toNat]
  next => cases h

/-- Of the digits of all scripts only the western ones are ASCII. -/
theorem westernDigit?_of_ascii {c : Char} {d : Nat} (hc : c.toNat < 128)
    (h : Text.digit? c = some d) : Text.westernDigit? c = some d := by
  obtain ⟨base, hbase, rfl⟩ := Option.map_eq_some_iff.mp h
  have hrange := List.find?_some hbase
  rw [Bool.and_eq_true, decide_eq_true_eq, decide_eq_true_eq] at hrange
  have hleast : ∀ first ∈ Text.digitZeros, first < 128 → first = 48 := by decide
  have hwestern := hleast base (List.mem_of_find?_eq_some hbase) (by omega)
  rw [hwestern] at hrange ⊢
  exact if_pos hrange

variable {ds : List Nat} {cs : List Char}

theorem mapM_map_digitChar (hds : ∀ d ∈ ds, d < 10) :
    (ds.map digitChar).mapM Text.westernDigit? = some ds := by
  induction ds with
  | nil => rfl
  | cons d ds ih =>
    obtain ⟨hd, hds⟩ := List.forall_mem_cons.mp hds
    rw [List.map_cons, List.mapM_cons, westernDigit?_digitChar hd, ih hds]
    rfl

theorem eq_map_digitChar (h : cs.mapM Text.westernDigit? = some ds) :
    cs = ds.map digitChar ∧ ∀ d ∈ ds, d < 10 := by
  induction cs generalizing ds with
  | nil =>
    cases h
    exact ⟨rfl, fun d hd => absurd hd List.not_mem_nil⟩
  | cons c cs ih =>
    rw [List.mapM_cons] at h
    obtain ⟨d, hd, h⟩ := Option.bind_eq_some_iff.mp h
    obtain ⟨es, hes, h⟩ := Option.bind_eq_some_iff.mp h
    cases h
    obtain ⟨hrest, hlt⟩ := ih hes
    refine ⟨?_, List.forall_mem_cons.mpr ⟨Text.westernDigit?_lt hd, hlt⟩⟩
    rw [List.map_cons, ← eq_digitChar hd, ← hrest]

theorem lt_ten_of_mem_padded {width n d : Nat} (h : d ∈ padded width n) : d < 10 := by
  induction width generalizing n with
  | zero => cases h
  | succ width ih =>
    rw [padded, List.mem_append, List.mem_singleton] at h
    obtain h | rfl := h
    · exact ih h
    · exact Nat.mod_lt n (by decide)

theorem lt_ten_of_mem_digits {n d : Nat} (h : d ∈ digits n) : d < 10 := by
  fun_induction digits n with
  | case1 n hn => rwa [List.mem_singleton.mp h]
  | case2 n hn ih =>
    rw [List.mem_append, List.mem_singleton] at h
    obtain h | rfl := h
    · exact ih h
    · exact Nat.mod_lt n (by decide)

/-- The digits of a number of the same width are those that it was made of. -/
theorem padded_ofDigits (h : ∀ d ∈ ds, d < 10) : padded ds.length (ofDigits ds) = ds := by
  induction ds using List.reverseRecOn with
  | nil => rfl
  | append_singleton ds d ih =>
    rw [List.forall_mem_append, List.forall_mem_singleton] at h
    have hfront : (10 * ofDigits ds + d) / 10 = ofDigits ds := by omega
    have hlast : (10 * ofDigits ds + d) % 10 = d := by omega
    rw [List.length_append, List.length_singleton, ofDigits_append_singleton, padded, hfront,
      hlast, ih h.1]

theorem ofDigits_append (ds es : List Nat) :
    ofDigits (ds ++ es) = ofDigits ds * 10 ^ es.length + ofDigits es := by
  induction es using List.reverseRecOn with
  | nil => simp
  | append_singleton es e ih =>
    rw [← List.append_assoc, ofDigits_append_singleton, ih, ofDigits_append_singleton,
      List.length_append, List.length_singleton, pow_succ]
    ring

theorem ofDigits_cons (d : Nat) (ds : List Nat) :
    ofDigits (d :: ds) = d * 10 ^ ds.length + ofDigits ds := by
  have hfirst : ofDigits [d] = d := by simp [ofDigits]
  rw [← List.singleton_append, ofDigits_append, hfirst]

@[simp] theorem ofDigits_zeros (count : Nat) : ofDigits (List.replicate count 0) = 0 := by
  induction count with
  | zero => rfl
  | succ count ih => rw [List.replicate_succ', ofDigits_append_singleton, ih]

theorem digits_zero : digits 0 = [0] := by
  rw [digits, if_pos (by decide)]

/-- The digits of a number start with a zero only when that is all of them. -/
theorem exists_digits (n : Nat) : ∃ lead rest, digits n = lead :: rest ∧ (lead = 0 → n = 0) := by
  fun_induction digits n with
  | case1 n h => exact ⟨n, [], rfl, id⟩
  | case2 n h ih =>
    obtain ⟨lead, rest, hdigits, hlead⟩ := ih
    refine ⟨lead, rest ++ [n % 10], by rw [hdigits, List.cons_append], fun hzero => ?_⟩
    have := hlead hzero
    omega

theorem length_paddedText (width n : Nat) : (paddedText width n).length = width := by
  rw [paddedText, List.length_map, length_padded]

/-- What numbers and dates are written with: letters, digits and a few marks. -/
def isPlain (c : Char) : Bool :=
  c.isAlphanum || ['+', '-', '.', ':'].contains c

theorem isPlain_digitChar {d : Nat} (h : d < 10) : isPlain (digitChar d) = true :=
  (by decide : ∀ d < 10, isPlain (digitChar d) = true) d h

theorem all_isPlain_map (hds : ∀ d ∈ ds, d < 10) : (ds.map digitChar).all isPlain = true := by
  rw [List.all_map, List.all_eq_true]
  exact fun d hd => isPlain_digitChar (hds d hd)

@[simp] theorem all_isPlain_paddedText (width n : Nat) : (paddedText width n).all isPlain = true :=
  all_isPlain_map fun _ => lt_ten_of_mem_padded

/-- A character that separates fields does not occur among plain ones. -/
theorem not_mem_of_isPlain {c : Char} (hcs : cs.all isPlain = true) (hc : isPlain c = false) :
    c ∉ cs :=
  fun hmem => Bool.false_ne_true (hc.symm.trans (List.all_eq_true.mp hcs c hmem))

end HeapChronicle.Decimal
