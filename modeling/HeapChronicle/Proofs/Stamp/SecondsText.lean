import HeapChronicle.Proofs.Binary64.Fraction
import HeapChronicle.Proofs.Calendar.DateText
import HeapChronicle.Proofs.Log.Reading

/-!
Seconds read from a text. A text of seconds denotes a fraction, whatever the scripts of
its digits and whichever of the two points it has (`DenotesSeconds`). What is read is
the double nearest to that fraction (`readSeconds_of_denotes`). So the double grows with
the fraction, is the same for all ways to write it, and is never negative or NaN: the
seconds that mark a stamp without any are read from no text.
-/

namespace HeapChronicle

theorem Decimal.value_ofParts (whole places : List Nat) :
    (ofParts whole places).value = ofDigits whole + ofDigits places / 10 ^ places.length := by
  have hten : (10 : ℚ) ^ places.length ≠ 0 := by positivity
  rw [ofParts, value, ofDigits_append, zpow_neg, zpow_natCast]
  push_cast
  field_simp

namespace Text

/-- So many digits of any script, with the number that they make up. -/
def DigitRow (count : Nat) (cs : List Char) (n : Nat) : Prop :=
  Iso8601.Numeral (List.replicate count .any) cs n

/-- The text is seconds, digits of any script around a point or a comma, and stands for
this fraction. -/
inductive DenotesSeconds : List Char → ℚ → Prop
  | intro {before after m n : Nat} {whole places : List Char} {point : Char}
      (hwhole : DigitRow (before + 1) whole m) (hpoint : point = '.' ∨ point = ',')
      (hplaces : DigitRow (after + 1) places n) :
      DenotesSeconds (whole ++ point :: places) (m + n / 10 ^ (after + 1))

/-- Two characters that stand for the same in seconds: the two points, and the digits of
one value in all scripts. -/
inductive Alike : Char → Char → Prop
  | point {c d : Char} (hc : c = '.' ∨ c = ',') (hd : d = '.' ∨ d = ',') : Alike c d
  | digit {c d : Char} {value : Nat} (hc : digit? c = some value) (hd : digit? d = some value) :
      Alike c d

variable {c : Char} {cs ds : List Char} {count n : Nat} {q q' : ℚ}

theorem digitRow_nil_iff : DigitRow 0 [] n ↔ n = 0 :=
  Iso8601.Numeral.nil_iff

theorem digitRow_cons_iff : DigitRow (count + 1) (c :: cs) n ↔
    ∃ d m, digit? c = some d ∧ DigitRow count cs m ∧ n = d * 10 ^ cs.length + m :=
  Iso8601.Numeral.cons_iff

theorem DigitRow.length_eq (h : DigitRow count cs n) : cs.length = count :=
  (Iso8601.Numeral.length_eq h).trans List.length_replicate

theorem forall_isDigit_iff : (∀ c ∈ cs, isDigit c = true) ↔ ∃ n, DigitRow cs.length cs n := by
  induction cs with
  | nil => exact iff_of_true (List.forall_mem_nil _) ⟨0, digitRow_nil_iff.mpr rfl⟩
  | cons c cs ih =>
    rw [List.forall_mem_cons, ih, isDigit, Option.isSome_iff_exists]
    constructor
    · rintro ⟨⟨d, hd⟩, n, hn⟩
      exact ⟨_, digitRow_cons_iff.mpr ⟨d, n, hd, hn, rfl⟩⟩
    · rintro ⟨_, hcons⟩
      obtain ⟨d, n, hd, hn, -⟩ := digitRow_cons_iff.mp hcons
      exact ⟨⟨d, hd⟩, n, hn⟩

theorem isDigits_iff_digitRow : IsDigits count cs ↔ ∃ n, DigitRow count cs n := by
  constructor
  · rintro ⟨rfl, hdigits⟩
    exact forall_isDigit_iff.mp hdigits
  · rintro ⟨n, hn⟩
    obtain rfl := hn.length_eq
    exact ⟨rfl, forall_isDigit_iff.mpr ⟨n, hn⟩⟩

/-- The values of the digits make up the number. -/
theorem DigitRow.ofDigits_eq (h : DigitRow count cs n) :
    Decimal.ofDigits (cs.filterMap digit?) = n ∧ (cs.filterMap digit?).length = count := by
  obtain rfl := h.length_eq
  induction cs generalizing n with
  | nil => exact ⟨(digitRow_nil_iff.mp h).symm, rfl⟩
  | cons c cs ih =>
    obtain ⟨d, m, hd, hm, rfl⟩ := digitRow_cons_iff.mp h
    obtain ⟨hvalue, hlength⟩ := ih hm
    rw [List.filterMap_cons_some hd, Decimal.ofDigits_cons, List.length_cons, hvalue, hlength]
    exact ⟨rfl, rfl⟩

theorem isSeconds_iff_denotes : IsSeconds cs ↔ ∃ q, DenotesSeconds cs q := by
  constructor
  · rintro ⟨hwhole, hpoint, hplaces⟩
    obtain ⟨m, hm⟩ := isDigits_iff_digitRow.mp hwhole
    obtain ⟨n, hn⟩ := isDigits_iff_digitRow.mp hplaces
    exact ⟨_, .intro hm hpoint hn⟩
  · rintro ⟨_, hwhole, hpoint, hplaces⟩
    exact .intro (isDigits_iff_digitRow.mpr ⟨_, hwhole⟩) hpoint
      (isDigits_iff_digitRow.mpr ⟨_, hplaces⟩)

theorem DenotesSeconds.nonneg (h : DenotesSeconds cs q) : 0 ≤ q := by
  cases h
  positivity

theorem digit?_point {c : Char} (h : c = '.' ∨ c = ',') : digit? c = none := by
  rcases h with rfl | rfl <;> decide

/-- Digits of other scripts make up the same number. -/
theorem DigitRow.of_alike (h : DigitRow count cs n) (halike : List.Forall₂ Alike ds cs) :
    DigitRow count ds n := by
  induction halike generalizing count n with
  | nil => exact h
  | cons hhead htail ih =>
    obtain rfl := h.length_eq
    obtain ⟨value, m, hvalue, hm, rfl⟩ := digitRow_cons_iff.mp h
    cases hhead with
    | point _ hd =>
      rw [digit?_point hd] at hvalue
      cases hvalue
    | digit hc hd =>
      obtain rfl := Option.some.inj (hd.symm.trans hvalue)
      exact digitRow_cons_iff.mpr ⟨_, m, hc, ih hm, by rw [htail.length_eq]⟩

theorem DenotesSeconds.of_alike (h : DenotesSeconds cs q) (halike : List.Forall₂ Alike ds cs) :
    DenotesSeconds ds q := by
  obtain ⟨hwhole, hpoint, hplaces⟩ := h
  have hfront := List.forall₂_take_append _ _ _ halike
  have hbehind := List.forall₂_drop_append _ _ _ halike
  obtain ⟨c, rest, hhead, hrest, heq⟩ := List.forall₂_cons_right_iff.mp hbehind
  have hpoint' : c = '.' ∨ c = ',' := by
    cases hhead with
    | point hc _ => exact hc
    | digit _ hd =>
      rw [digit?_point hpoint] at hd
      cases hd
  rw [← List.take_append_drop _ ds, heq]
  exact .intro (hwhole.of_alike hfront) hpoint' (hplaces.of_alike hrest)

/-- The parts of a token as a decimal, which is not rounded yet. -/
def SecondsToken.decimal (t : SecondsToken) : Decimal :=
  .ofParts (t.whole.filterMap digit?) (t.places.filterMap digit?)

/-- All of a text of seconds is one token, with the value that the text denotes. -/
theorem DenotesSeconds.exists_token (h : DenotesSeconds cs q) :
    ∃ token, seconds? cs = some (token, []) ∧ token.decimal.value = q := by
  cases h with
  | @intro before after m n whole places point hwhole hpoint hplaces =>
    have hend : NoDigitNext [] := fun c hc => nomatch hc
    have htoken := seconds?_of_isDigits (isDigits_iff_digitRow.mpr ⟨m, hwhole⟩) hpoint
      (isDigits_iff_digitRow.mpr ⟨n, hplaces⟩) hend
    rw [List.append_nil] at htoken
    obtain ⟨hm, -⟩ := hwhole.ofDigits_eq
    obtain ⟨hn, hafter⟩ := hplaces.ofDigits_eq
    refine ⟨_, htoken, ?_⟩
    rw [SecondsToken.decimal, Decimal.value_ofParts, hm, hn, hafter]

/-- A text denotes one fraction at most. -/
theorem DenotesSeconds.unique (h : DenotesSeconds cs q) (h' : DenotesSeconds cs q') : q = q' := by
  obtain ⟨token, htoken, rfl⟩ := h.exists_token
  obtain ⟨token', htoken', rfl⟩ := h'.exists_token
  rw [htoken] at htoken'
  cases htoken'
  rfl

end Text

namespace Stamp

open Text

variable {cs : List Char} {q : ℚ} {x : Binary64} {e : FormatError}

/-- A text of seconds is read as the double nearest to what it stands for. -/
theorem readSeconds_of_denotes (h : DenotesSeconds cs q) : readSeconds cs = .ok (.ofRat q) := by
  obtain ⟨token, htoken, rfl⟩ := h.exists_token
  rw [readSeconds, htoken, ← Binary64.ofDecimal_eq_ofRat]
  rfl

theorem readSeconds_eq_error_iff :
    readSeconds cs = .error e ↔ e = .seconds cs ∧ ¬IsSeconds cs := by
  by_cases hseconds : IsSeconds cs
  · obtain ⟨x, hx⟩ := readSeconds_of_isSeconds hseconds
    rw [hx]
    exact iff_of_false (fun h => nomatch h) (fun h => h.2 hseconds)
  · have htoken (token : SecondsToken) : seconds? cs ≠ some (token, []) := by
      intro h
      obtain ⟨hchars, -⟩ := isSeconds_of_seconds? h
      rw [← seconds?_append h, List.append_nil] at hseconds
      exact hseconds hchars
    rw [readSeconds]
    split
    next token h => exact absurd h (htoken token)
    next => simp [hseconds, eq_comm]

theorem isNegative_of_rank (hx : x.isNaN = false) (h : 0 ≤ x.rank) : x.isNegative = false := by
  rw [Bool.eq_false_iff, Ne, Binary64.isNegative_iff_rank_neg hx, not_lt]
  exact h

/-- Seconds from a text make a stamp that has them and is not empty. -/
theorem read_of_readSeconds (h : readSeconds cs = .ok x) :
    ∃ s, read none (some cs) = .ok s ∧ s.seconds = x ∧ s.hasSeconds = true ∧ s.isEmpty = false := by
  obtain ⟨hnumber, hmarker⟩ := usable_of_readSeconds h
  have hread : read none (some cs) = .ok (ofParts none x) :=
    read_eq_ok_iff.mpr ⟨none, x, rfl, h, rfl⟩
  have hseconds : (ofParts none x).seconds = x := Binary64.orZero_of_isNaN hnumber
  have hhas : (ofParts none x).hasSeconds = true := by
    rw [hasSeconds, hseconds, hnumber, hmarker]
    rfl
  refine ⟨_, hread, hseconds, hhas, ?_⟩
  rw [isEmpty_ofParts, hhas]
  rfl

/-- A text is read as seconds exactly if it is digits of any script around a point or a
comma, and rejected with an error that keeps it otherwise. What is read is the double
nearest to the fraction that the text denotes: a number from zero on, which the points and
the scripts have no part in, and which grows with the fraction and is infinite past the
last double. So a stamp of such a text has its seconds, and is not the empty one. -/
theorem readSeconds_reads_value (cs : List Char) :
    (∀ e, readSeconds cs = .error e ↔ e = .seconds cs ∧ ¬IsSeconds cs) ∧
    (IsSeconds cs ↔ ∃! q, DenotesSeconds cs q) ∧
    ∀ q, DenotesSeconds cs q → ∃ x, readSeconds cs = .ok x ∧ x = .ofRat q ∧
      (x.isNaN = false ∧ x.isNegative = false ∧ x.numEq noSeconds = false) ∧
      (∀ cs', List.Forall₂ Alike cs' cs → readSeconds cs' = .ok x) ∧
      (∀ cs' q', DenotesSeconds cs' q' → q ≤ q' → ∃ x', readSeconds cs' = .ok x' ∧ x.AtMost x') ∧
      (x = .infinite false ↔ (((2 ^ 54 - 1) * 2 ^ 970 : ℕ) : ℚ) ≤ q) ∧
      ∃ s, read none (some cs) = .ok s ∧ s.seconds = x ∧ s.hasSeconds = true ∧
        s.isEmpty = false := by
  refine ⟨fun _ => readSeconds_eq_error_iff, ?accepted, ?value⟩
  case accepted =>
    rw [isSeconds_iff_denotes]
    constructor
    · rintro ⟨q, hq⟩
      exact ⟨q, hq, fun _ h => h.unique hq⟩
    · exact ExistsUnique.exists
  case value =>
    intro q hq
    have hread := readSeconds_of_denotes hq
    have hnumber := Binary64.isNaN_ofRat q
    refine ⟨_, hread, rfl, ⟨hnumber, ?_, (usable_of_readSeconds hread).2⟩, ?alike, ?mono,
      Binary64.ofRat_eq_infinite_iff hq.nonneg, read_of_readSeconds hread⟩
    · exact isNegative_of_rank hnumber (Binary64.rank_ofRat_nonneg hq.nonneg)
    case alike =>
      intro cs' halike
      exact readSeconds_of_denotes (hq.of_alike halike)
    case mono =>
      intro cs' q' hq' hle
      refine ⟨_, readSeconds_of_denotes hq', ?_⟩
      rw [Binary64.atMost_iff_rank_le hnumber (Binary64.isNaN_ofRat q')]
      exact Binary64.rank_ofRat_mono hle

end Stamp
end HeapChronicle
