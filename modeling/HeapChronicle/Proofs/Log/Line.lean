import HeapChronicle.Log.Line
import HeapChronicle.Proofs.Binary64.Order
import HeapChronicle.Proofs.Text.Grammar

/-!
The start of a log line, said as a grammar (`Splits`) and without a recogniser:
which date, which uptime and which rest a line consists of. There is one way to
split a line, the recognisers find it, and only an impossible date in it can make
the reading of a stamp fail.
-/

namespace HeapChronicle

open Text

namespace LinePrefix

/-- A date in brackets and what stands behind it, or no such date and the text
as it is. -/
inductive DateField (text : List Char) : Option (List Char) → List Char → Prop
  | found {date rest : List Char} (hdate : IsDate date)
      (htext : text = '[' :: (date ++ ']' :: rest)) :
      DateField text (some date) rest
  | absent (hnone : ∀ date rest, IsDate date → text ≠ '[' :: (date ++ ']' :: rest)) :
      DateField text none text

/-- The same of an uptime in brackets, with the unit `s`. -/
inductive UptimeField (text : List Char) : Option (List Char) → List Char → Prop
  | found {uptime rest : List Char} (huptime : IsSeconds uptime)
      (htext : text = '[' :: (uptime ++ 's' :: ']' :: rest)) :
      UptimeField text (some uptime) rest
  | absent (hnone : ∀ uptime rest, IsSeconds uptime → text ≠ '[' :: (uptime ++ 's' :: ']' :: rest)) :
      UptimeField text none text

/-- A line, the texts of the date and the uptime at its start, and its rest. -/
inductive Splits (line : List Char) : LinePrefix → List Char → Prop
  | unified {date uptime : Option (List Char)} {behindDate rest : List Char}
      (hbracket : line.head? = some '[') (hdate : DateField line date behindDate)
      (huptime : UptimeField behindDate uptime rest) :
      Splits line ⟨date, uptime⟩ rest
  | dated {date uptime rest : List Char} (hplain : line.head? ≠ some '[')
      (hdate : IsDate date) (huptime : IsSeconds uptime)
      (hline : line = date ++ ':' :: ' ' :: (uptime ++ ':' :: ' ' :: rest)) :
      Splits line ⟨some date, some uptime⟩ rest
  | undated {uptime rest : List Char} (hplain : line.head? ≠ some '[')
      (huptime : IsSeconds uptime) (hline : line = uptime ++ ':' :: ' ' :: rest) :
      Splits line ⟨none, some uptime⟩ rest
  | bare (hplain : line.head? ≠ some '[')
      (hdated : ∀ date uptime rest, IsDate date → IsSeconds uptime →
        line ≠ date ++ ':' :: ' ' :: (uptime ++ ':' :: ' ' :: rest))
      (hundated : ∀ uptime rest, IsSeconds uptime → line ≠ uptime ++ ':' :: ' ' :: rest) :
      Splits line ⟨none, none⟩ line

theorem bracketedDate?_eq_some_iff {text date rest : List Char} :
    bracketedDate? text = some (date, rest) ↔
      IsDate date ∧ text = '[' :: (date ++ ']' :: rest) := by
  rw [bracketedDate?, Option.bind_eq_bind, Option.bind_eq_some_iff]
  constructor
  · rintro ⟨inside, hopen, h⟩
    obtain ⟨⟨token, behind⟩, hsplit, h⟩ := Option.bind_eq_some_iff.mp h
    obtain ⟨rest', hclose, heq⟩ := Option.bind_eq_some_iff.mp h
    cases heq
    obtain ⟨hdate, rfl⟩ := split?_shape_iff.mp hsplit
    rw [drop?_eq_some_iff] at hopen hclose
    rw [hopen, hclose]
    exact ⟨hdate, rfl⟩
  · rintro ⟨hdate, rfl⟩
    refine ⟨date ++ ']' :: rest, drop?_eq_some_iff.mpr rfl, ?_⟩
    refine Option.bind_eq_some_iff.mpr ⟨(date, ']' :: rest), split?_shape_iff.mpr ⟨hdate, rfl⟩, ?_⟩
    exact Option.bind_eq_some_iff.mpr ⟨rest, drop?_eq_some_iff.mpr rfl, rfl⟩

/-- Seconds and a fixed text behind them that does not go on with a digit. -/
theorem seconds?_marked_iff {m : Char} {mark text uptime : List Char} (hm : isDigit m = false) :
    ((seconds? text).bind fun (token, behind) =>
        (drop? (m :: mark) behind).bind fun _ => some token.chars) = some uptime ↔
      IsSeconds uptime ∧ ∃ rest, text = uptime ++ m :: (mark ++ rest) := by
  rw [Option.bind_eq_some_iff]
  constructor
  · rintro ⟨⟨token, behind⟩, htoken, h⟩
    obtain ⟨rest, hmark, heq⟩ := Option.bind_eq_some_iff.mp h
    cases heq
    obtain ⟨huptime, -, rfl⟩ := seconds?_iff.mp ⟨token, htoken, rfl⟩
    rw [drop?_eq_some_iff.mp hmark]
    exact ⟨huptime, rest, rfl⟩
  · rintro ⟨huptime, rest, rfl⟩
    have hnext : NoDigitNext (m :: (mark ++ rest)) := by
      rintro _ ⟨⟩
      exact hm
    obtain ⟨token, htoken, hchars⟩ := seconds?_iff.mpr ⟨huptime, hnext, rfl⟩
    refine ⟨(token, m :: (mark ++ rest)), htoken, ?_⟩
    exact Option.bind_eq_some_iff.mpr ⟨rest, drop?_eq_some_iff.mpr rfl, congrArg some hchars⟩

theorem bracketedUptime?_eq_some_iff {text uptime : List Char} :
    bracketedUptime? text = some uptime ↔
      IsSeconds uptime ∧ ∃ rest, text = '[' :: (uptime ++ 's' :: ']' :: rest) := by
  rw [bracketedUptime?, Option.bind_eq_bind, Option.bind_eq_some_iff]
  constructor
  · rintro ⟨inside, hopen, h⟩
    obtain ⟨huptime, rest, rfl⟩ := (seconds?_marked_iff (by decide)).mp h
    exact ⟨huptime, rest, drop?_eq_some_iff.mp hopen⟩
  · rintro ⟨huptime, rest, rfl⟩
    refine ⟨_, drop?_eq_some_iff.mpr rfl, ?_⟩
    exact (seconds?_marked_iff (by decide)).mpr ⟨huptime, rest, rfl⟩

theorem plainUptime?_eq_some_iff {text uptime : List Char} :
    plainUptime? text = some uptime ↔
      IsSeconds uptime ∧ ∃ rest, text = uptime ++ ':' :: ' ' :: rest :=
  seconds?_marked_iff (by decide)

theorem plainDated?_eq_some_iff {line : List Char} {found : LinePrefix} :
    plainDated? line = some found ↔
      ∃ date uptime rest, IsDate date ∧ IsSeconds uptime ∧
        line = date ++ ':' :: ' ' :: (uptime ++ ':' :: ' ' :: rest) ∧
        found = ⟨some date, some uptime⟩ := by
  rw [plainDated?, Option.bind_eq_bind, Option.bind_eq_some_iff]
  constructor
  · rintro ⟨⟨date, behindDate⟩, hsplit, h⟩
    obtain ⟨fromUptime, hmark, h⟩ := Option.bind_eq_some_iff.mp h
    obtain ⟨uptime, hplain, heq⟩ := Option.bind_eq_some_iff.mp h
    cases heq
    obtain ⟨hdate, rfl⟩ := split?_shape_iff.mp hsplit
    obtain ⟨huptime, rest, rfl⟩ := plainUptime?_eq_some_iff.mp hplain
    rw [drop?_eq_some_iff.mp hmark]
    exact ⟨date, uptime, rest, hdate, huptime, rfl, rfl⟩
  · rintro ⟨date, uptime, rest, hdate, huptime, rfl, rfl⟩
    refine ⟨_, split?_shape_iff.mpr ⟨hdate, rfl⟩, ?_⟩
    refine Option.bind_eq_some_iff.mpr ⟨_, drop?_eq_some_iff.mpr rfl, ?_⟩
    exact Option.bind_eq_some_iff.mpr
      ⟨uptime, plainUptime?_eq_some_iff.mpr ⟨huptime, rest, rfl⟩, rfl⟩

theorem bracketedDate?_eq_none_iff {text : List Char} :
    bracketedDate? text = none ↔
      ∀ date rest, IsDate date → text ≠ '[' :: (date ++ ']' :: rest) := by
  rw [Option.eq_none_iff_forall_ne_some]
  constructor
  · intro h date rest hdate htext
    exact h (date, rest) (bracketedDate?_eq_some_iff.mpr ⟨hdate, htext⟩)
  · rintro h ⟨date, rest⟩ hsome
    obtain ⟨hdate, htext⟩ := bracketedDate?_eq_some_iff.mp hsome
    exact h date rest hdate htext

theorem bracketedUptime?_eq_none_iff {text : List Char} :
    bracketedUptime? text = none ↔
      ∀ uptime rest, IsSeconds uptime → text ≠ '[' :: (uptime ++ 's' :: ']' :: rest) := by
  rw [Option.eq_none_iff_forall_ne_some]
  constructor
  · intro h uptime rest huptime htext
    exact h uptime (bracketedUptime?_eq_some_iff.mpr ⟨huptime, rest, htext⟩)
  · intro h uptime hsome
    obtain ⟨huptime, rest, htext⟩ := bracketedUptime?_eq_some_iff.mp hsome
    exact h uptime rest huptime htext

theorem plainUptime?_eq_none_iff {line : List Char} :
    plainUptime? line = none ↔
      ∀ uptime rest, IsSeconds uptime → line ≠ uptime ++ ':' :: ' ' :: rest := by
  rw [Option.eq_none_iff_forall_ne_some]
  constructor
  · intro h uptime rest huptime hline
    exact h uptime (plainUptime?_eq_some_iff.mpr ⟨huptime, rest, hline⟩)
  · intro h uptime hsome
    obtain ⟨huptime, rest, hline⟩ := plainUptime?_eq_some_iff.mp hsome
    exact h uptime rest huptime hline

theorem plainDated?_eq_none_iff {line : List Char} :
    plainDated? line = none ↔
      ∀ date uptime rest, IsDate date → IsSeconds uptime →
        line ≠ date ++ ':' :: ' ' :: (uptime ++ ':' :: ' ' :: rest) := by
  rw [Option.eq_none_iff_forall_ne_some]
  constructor
  · intro h date uptime rest hdate huptime hline
    exact h _ (plainDated?_eq_some_iff.mpr ⟨date, uptime, rest, hdate, huptime, hline, rfl⟩)
  · intro h found hsome
    obtain ⟨date, uptime, rest, hdate, huptime, hline, -⟩ := plainDated?_eq_some_iff.mp hsome
    exact h date uptime rest hdate huptime hline

/-! ## One way to split a line -/

/-- No text begins with a date and also with seconds: behind their digits stands
a dash, and a point. -/
theorem append_ne_of_isDate {date uptime rest rest' : List Char} (hdate : IsDate date)
    (huptime : IsSeconds uptime) : date ++ rest ≠ uptime ++ rest' := by
  intro heq
  obtain ⟨year, behindYear, hyear, rfl⟩ := hdate.exists_dash
  cases huptime with
  | @intro _ _ whole places point hwhole hpoint hplaces =>
    have hdashNext : NoDigitNext ('-' :: (behindYear ++ rest)) := by
      rintro _ ⟨⟩
      decide
    have hpointNext : NoDigitNext (point :: (places ++ rest')) := noDigitNext_point hpoint
    have hbehindYear := (takeWhile_digits hyear hdashNext).2
    have hbehindWhole := (takeWhile_digits hwhole hpointNext).2
    rw [List.append_assoc, List.append_assoc, List.cons_append, List.cons_append] at heq
    rw [heq, hbehindWhole] at hbehindYear
    rw [(List.cons.inj hbehindYear).1] at hpoint
    rcases hpoint with h | h <;> cases h

theorem DateField.bracketedDate?_eq {text behind : List Char} {date : Option (List Char)}
    (h : DateField text date behind) :
    bracketedDate? text = date.map fun token => (token, behind) := by
  cases h with
  | found hdate htext => exact bracketedDate?_eq_some_iff.mpr ⟨hdate, htext⟩
  | absent hnone => exact bracketedDate?_eq_none_iff.mpr hnone

theorem UptimeField.bracketedUptime?_eq {text rest : List Char} {uptime : Option (List Char)}
    (h : UptimeField text uptime rest) : bracketedUptime? text = uptime := by
  cases h with
  | found huptime htext => exact bracketedUptime?_eq_some_iff.mpr ⟨huptime, _, htext⟩
  | absent hnone => exact bracketedUptime?_eq_none_iff.mpr hnone

theorem exists_dateField (text : List Char) : ∃ date behind, DateField text date behind := by
  cases h : bracketedDate? text with
  | none => exact ⟨_, _, .absent (bracketedDate?_eq_none_iff.mp h)⟩
  | some split =>
    obtain ⟨hdate, htext⟩ := bracketedDate?_eq_some_iff.mp h
    exact ⟨_, _, .found hdate htext⟩

theorem exists_uptimeField (text : List Char) : ∃ uptime rest, UptimeField text uptime rest := by
  cases h : bracketedUptime? text with
  | none => exact ⟨_, _, .absent (bracketedUptime?_eq_none_iff.mp h)⟩
  | some uptime =>
    obtain ⟨huptime, rest, htext⟩ := bracketedUptime?_eq_some_iff.mp h
    exact ⟨_, _, .found huptime htext⟩

theorem isUnified_iff {line : List Char} : isUnified line = true ↔ line.head? = some '[' :=
  beq_iff_eq

theorem exists_splits (line : List Char) : ∃ found rest, Splits line found rest := by
  by_cases hhead : line.head? = some '['
  · obtain ⟨date, behindDate, hdate⟩ := exists_dateField line
    obtain ⟨uptime, rest, huptime⟩ := exists_uptimeField behindDate
    exact ⟨_, _, .unified hhead hdate huptime⟩
  · cases hdated : plainDated? line with
    | some found =>
      obtain ⟨date, uptime, rest, hdate, huptime, hline, -⟩ := plainDated?_eq_some_iff.mp hdated
      exact ⟨_, _, .dated hhead hdate huptime hline⟩
    | none =>
      cases hundated : plainUptime? line with
      | some uptime =>
        obtain ⟨huptime, rest, hline⟩ := plainUptime?_eq_some_iff.mp hundated
        exact ⟨_, _, .undated hhead huptime hline⟩
      | none =>
        have hnoDate := plainDated?_eq_none_iff.mp hdated
        have hnoUptime := plainUptime?_eq_none_iff.mp hundated
        exact ⟨_, _, .bare hhead hnoDate hnoUptime⟩

/-- The recognisers find what the grammar says. -/
theorem ofLine_of_splits {line rest : List Char} {found : LinePrefix}
    (h : Splits line found rest) : ofLine line = found := by
  cases h with
  | @unified date uptime behindDate _ hbracket hdate huptime =>
    rw [ofLine, if_pos (isUnified_iff.mpr hbracket), ofUnified, hdate.bracketedDate?_eq]
    cases hdate with
    | found => exact congrArg (LinePrefix.mk _) huptime.bracketedUptime?_eq
    | absent => exact congrArg (LinePrefix.mk _) huptime.bracketedUptime?_eq
  | dated hplain hdate huptime hline =>
    rw [ofLine, if_neg (mt isUnified_iff.mp hplain), ofPlain,
      plainDated?_eq_some_iff.mpr ⟨_, _, _, hdate, huptime, hline, rfl⟩]
    rfl
  | undated hplain huptime hline =>
    -- The date is looked for first, so it has to be ruled out.
    have hdated : plainDated? line = none := by
      rw [plainDated?_eq_none_iff, hline]
      intro _ _ _ hdate _ heq
      exact append_ne_of_isDate hdate huptime heq.symm
    rw [ofLine, if_neg (mt isUnified_iff.mp hplain), ofPlain, hdated,
      plainUptime?_eq_some_iff.mpr ⟨huptime, _, hline⟩]
    rfl
  | bare hplain hdated hundated =>
    rw [ofLine, if_neg (mt isUnified_iff.mp hplain), ofPlain,
      plainDated?_eq_none_iff.mpr hdated, plainUptime?_eq_none_iff.mpr hundated]
    rfl

theorem DateField.behind_unique {text behind behind' : List Char} {date : Option (List Char)}
    (h : DateField text date behind) (h' : DateField text date behind') : behind = behind' := by
  cases h with
  | found _ htext =>
    cases h' with
    | found _ htext' =>
      rw [htext] at htext'
      exact (List.cons.inj (List.append_cancel_left (List.cons.inj htext').2)).2
  | absent => cases h' with | absent => rfl

theorem UptimeField.rest_unique {text rest rest' : List Char} {uptime : Option (List Char)}
    (h : UptimeField text uptime rest) (h' : UptimeField text uptime rest') : rest = rest' := by
  cases h with
  | found _ htext =>
    cases h' with
    | found _ htext' =>
      rw [htext] at htext'
      have hbehind := List.append_cancel_left (List.cons.inj htext').2
      exact (List.cons.inj (List.cons.inj hbehind).2).2
  | absent => cases h' with | absent => rfl

theorem Splits.rest_unique {line rest rest' : List Char} {found : LinePrefix}
    (h : Splits line found rest) (h' : Splits line found rest') : rest = rest' := by
  cases h with
  | unified hbracket hdate huptime =>
    cases h' with
    | unified _ hdate' huptime' =>
      cases hdate.behind_unique hdate'
      exact huptime.rest_unique huptime'
    | dated hplain => exact absurd hbracket hplain
    | undated hplain => exact absurd hbracket hplain
    | bare hplain => exact absurd hbracket hplain
  | dated hplain _ _ hline =>
    cases h' with
    | unified hbracket => exact absurd hbracket hplain
    | dated _ _ _ hline' =>
      rw [hline] at hline'
      have hbehindDate := List.append_cancel_left hline'
      have hfromUptime := (List.cons.inj (List.cons.inj hbehindDate).2).2
      have hbehindUptime := List.append_cancel_left hfromUptime
      exact (List.cons.inj (List.cons.inj hbehindUptime).2).2
  | undated hplain _ hline =>
    cases h' with
    | unified hbracket => exact absurd hbracket hplain
    | undated _ _ hline' =>
      rw [hline] at hline'
      exact (List.cons.inj (List.cons.inj (List.append_cancel_left hline')).2).2
  | bare hplain =>
    cases h' with
    | unified hbracket => exact absurd hbracket hplain
    | bare => rfl

theorem Splits.uptime_isSeconds {line rest uptime : List Char} {found : LinePrefix}
    (h : Splits line found rest) (huptime : found.uptime = some uptime) : IsSeconds uptime := by
  cases h with
  | unified _ _ hfield =>
    cases huptime
    cases hfield with
    | found hseconds => exact hseconds
  | dated _ _ hseconds =>
    cases huptime
    exact hseconds
  | undated _ hseconds =>
    cases huptime
    exact hseconds
  | bare => cases huptime

end LinePrefix

theorem Iso8601.read_eq_error_iff {text : List Char} {e : FormatError} :
    Iso8601.read text = .error e ↔ Iso8601.zonedTime? text = none ∧ e = .date text := by
  unfold Iso8601.read
  cases Iso8601.zonedTime? text with
  | none => simp [eq_comm]
  | some t => simp

namespace Stamp

theorem readSeconds_of_isSeconds {uptime : List Char} (h : IsSeconds uptime) :
    ∃ x, readSeconds uptime = .ok x := by
  have hend : NoDigitNext [] := fun c hc => nomatch hc
  obtain ⟨token, htoken, -⟩ := seconds?_iff.mpr ⟨h, hend, (List.append_nil uptime).symm⟩
  refine ⟨token.value, ?_⟩
  rw [readSeconds, htoken]

theorem readSeconds?_of_isSeconds {uptime : Option (List Char)}
    (h : ∀ token, uptime = some token → IsSeconds token) :
    ∃ x, readSeconds? uptime = .ok x := by
  cases uptime with
  | none => exact ⟨noSeconds, rfl⟩
  | some token => exact readSeconds_of_isSeconds (h token rfl)

/-- With a readable uptime, only the date can be at fault. -/
theorem read_eq_error_iff {date uptime : Option (List Char)} {e : FormatError}
    (huptime : ∀ token, uptime = some token → IsSeconds token) :
    read date uptime = .error e ↔ ∃ token, date = some token ∧ Iso8601.read token = .error e := by
  obtain ⟨x, hx⟩ := readSeconds?_of_isSeconds huptime
  cases date with
  | none => simp [read, readDate?, hx, bind, Except.bind, pure, Except.pure]
  | some token =>
    cases h : Iso8601.read token with
    | error e' => simp [read, readDate?, h, Except.map, bind, Except.bind]
    | ok t => simp [read, readDate?, h, hx, Except.map, bind, Except.bind, pure, Except.pure]

theorem read_none_none : read none none = .ok empty := by
  have hseconds : noSeconds.orZero = noSeconds :=
    Binary64.orZero_of_isNaN Binary64.isNaN_ofInt
  show Except.ok (ofParts none noSeconds) = _
  rw [ofParts, hseconds]
  rfl

/-- A line splits in one way into a date, an uptime and a rest, and its stamp is
read from that date and that uptime, the empty one without either. Reading fails
exactly when there is no such date in the calendar, with that text as the error's,
and never because of the uptime. -/
theorem ofLine_reads_split (line : List Char) :
    ∃ found rest,
      (∀ found' rest', LinePrefix.Splits line found' rest' ↔ found' = found ∧ rest' = rest) ∧
      ofLine line =
        (if found = ⟨none, none⟩ then .ok empty else read found.date found.uptime) ∧
      (∀ e, ofLine line = .error e ↔
        ∃ date, found.date = some date ∧ Iso8601.read date = .error e) ∧
      (∀ e, ofLine line = .error e → e = .date e.text ∧ found.date = some e.text) ∧
      ∀ uptime, found.uptime = some uptime → ∃ x, readSeconds uptime = .ok x := by
  obtain ⟨found, rest, hsplits⟩ := LinePrefix.exists_splits line
  have hfound := LinePrefix.ofLine_of_splits hsplits
  have huptime : ∀ token, found.uptime = some token → IsSeconds token :=
    fun _ => hsplits.uptime_isSeconds
  have hread : ofLine line = read found.date found.uptime := by rw [ofLine, hfound]
  have herror : ∀ e, ofLine line = .error e ↔
      ∃ date, found.date = some date ∧ Iso8601.read date = .error e := by
    intro e
    rw [hread]
    exact read_eq_error_iff huptime
  refine ⟨found, rest, ?_, ?_, herror, ?_, ?_⟩
  · intro found' rest'
    constructor
    · intro hsplits'
      cases hfound.symm.trans (LinePrefix.ofLine_of_splits hsplits')
      exact ⟨rfl, hsplits'.rest_unique hsplits⟩
    · rintro ⟨rfl, rfl⟩
      exact hsplits
  · split
    next hempty => rw [hread, hempty, read_none_none]
    next => exact hread
  · intro e he
    obtain ⟨date, hdate, hrejected⟩ := (herror e).mp he
    obtain ⟨-, rfl⟩ := Iso8601.read_eq_error_iff.mp hrejected
    exact ⟨rfl, hdate⟩
  · intro uptime hsome
    exact readSeconds_of_isSeconds (huptime uptime hsome)

example : ofLine "2021-02-30T00:00:00.000+0000: 1,5: GC".toList =
    .error (.date "2021-02-30T00:00:00.000+0000".toList) := rfl

end Stamp
end HeapChronicle
