import HeapChronicle.Proofs.Log.LineEnd

/-!
What a reading owes each line. A lenient reading gives every line its outcome,
in order and under its own number (`lenient_accounts_for_lines`). A strict one
does the same up to the first malformed line and ends there
(`strict_stops_at_first_malformed`).
-/

namespace HeapChronicle

namespace Stamp

theorem isNaN_noSeconds : noSeconds.isNaN = false := by
  rw [noSeconds]
  exact Binary64.isNaN_ofInt

theorem isNegative_noSeconds : noSeconds.isNegative = true := by
  decide +kernel

theorem rank_noSeconds_neg : noSeconds.rank < 0 :=
  (Binary64.isNegative_iff_rank_neg isNaN_noSeconds).mp isNegative_noSeconds

theorem isNaN_value (token : Text.SecondsToken) : token.value.isNaN = false := by
  rw [Text.SecondsToken.value, Binary64.ofDecimal, Binary64.ofQuotient]
  exact Binary64.isNaN_ofUnits

theorem value_numEq_noSeconds (token : Text.SecondsToken) :
    token.value.numEq noSeconds = false := by
  have hnonneg : 0 ≤ token.value.rank := by
    rw [Text.SecondsToken.value, Binary64.ofDecimal, Binary64.ofQuotient]
    exact Binary64.rank_ofUnits_nonneg
  have hneg := rank_noSeconds_neg
  rw [Bool.eq_false_iff]
  intro heq
  have hrank := (Binary64.numEq_iff_rank_eq (isNaN_value token) isNaN_noSeconds).mp heq
  omega

theorem isEmpty_eq (s : Stamp) : s.isEmpty = (!s.hasDate && s.seconds.numEq noSeconds) := by
  rw [isEmpty, same, empty, hasDate]
  cases s.date with
  | none => simp [compareDates]
  | some t => simp [compareDates]

/-- A stamp that has been built has a date or usable seconds unless it is the
empty one, since its seconds are not NaN without a date. -/
theorem isEmpty_ofParts (date : Option ZonedTime) (seconds : Binary64) :
    (ofParts date seconds).isEmpty =
      !((ofParts date seconds).hasSeconds || (ofParts date seconds).hasDate) := by
  rw [isEmpty_eq]
  cases date with
  | some t => simp [ofParts, hasDate]
  | none => simp [ofParts, hasDate, hasSeconds, Binary64.isNaN_orZero]

theorem read_eq_ok_iff {date uptime : Option (List Char)} {s : Stamp} :
    read date uptime = .ok s ↔
      ∃ t x, readDate? date = .ok t ∧ readSeconds? uptime = .ok x ∧ s = ofParts t x := by
  unfold read
  cases readDate? date with
  | error e => simp [bind, Except.bind]
  | ok t =>
    cases readSeconds? uptime with
    | error e => simp [bind, Except.bind]
    | ok x => simp [bind, Except.bind, pure, Except.pure, eq_comm]

theorem isSome_of_readDate? {token : List Char} {t : Option ZonedTime}
    (h : readDate? (some token) = .ok t) : t.isSome = true := by
  rw [readDate?] at h
  cases hread : Iso8601.read token with
  | error e => simp [hread, Except.map] at h
  | ok d =>
    simp only [hread, Except.map, Except.ok.injEq] at h
    rw [← h]
    rfl

/-- Seconds read from a text are numbers, and never those that mark a stamp
without any. -/
theorem usable_of_readSeconds {token : List Char} {x : Binary64}
    (h : readSeconds token = .ok x) : x.isNaN = false ∧ x.numEq noSeconds = false := by
  rw [readSeconds] at h
  split at h
  next found _ =>
    rw [Except.ok.injEq] at h
    subst h
    exact ⟨isNaN_value found, value_numEq_noSeconds found⟩
  next => cases h

/-- Only without a date and without an uptime is the empty stamp read. -/
theorem isEmpty_of_read {date uptime : Option (List Char)} {s : Stamp}
    (h : read date uptime = .ok s) : s.isEmpty = true ↔ date = none ∧ uptime = none := by
  obtain ⟨t, x, hdate, huptime, rfl⟩ := read_eq_ok_iff.mp h
  cases date with
  | some token =>
    have hdated := isSome_of_readDate? hdate
    rw [isEmpty_ofParts]
    cases t with
    | none => cases hdated
    | some t => simp [ofParts, hasDate]
  | none =>
    cases hdate
    cases uptime with
    | none =>
      rw [readSeconds?, Except.ok.injEq] at huptime
      subst huptime
      have hmarker : noSeconds.numEq noSeconds = true :=
        (Binary64.numEq_iff_rank_eq isNaN_noSeconds isNaN_noSeconds).mpr rfl
      have hnumber : noSeconds.orZero = noSeconds := Binary64.orZero_of_isNaN isNaN_noSeconds
      simp [isEmpty_eq, ofParts, hasDate, hnumber, hmarker]
    | some token =>
      rw [readSeconds?] at huptime
      have husable := usable_of_readSeconds huptime
      have hnumber : x.orZero = x := Binary64.orZero_of_isNaN husable.1
      simp [isEmpty_eq, ofParts, hasDate, hnumber, husable.2]

variable {line : List Char} {s : Stamp}

theorem isEmpty_eq_of_ofLine (h : ofLine line = .ok s) :
    s.isEmpty = !(s.hasSeconds || s.hasDate) := by
  obtain ⟨t, x, -, -, rfl⟩ := read_eq_ok_iff.mp h
  exact isEmpty_ofParts t x

theorem isEmpty_iff_of_splits {rest : List Char} {found : LinePrefix}
    (hsplits : LinePrefix.Splits line found rest) (h : ofLine line = .ok s) :
    s.isEmpty = true ↔ found = ⟨none, none⟩ := by
  rw [ofLine, LinePrefix.ofLine_of_splits hsplits] at h
  rw [isEmpty_of_read h]
  obtain ⟨date, uptime⟩ := found
  rw [LinePrefix.mk.injEq]

end Stamp

namespace Log

/-- What is owed to a line, line ends and all: its stamp unless that is empty, a
remark that it has none, or a warning that it is malformed. -/
def outcome (number : Nat) (line : List Char) : LineEffect :=
  match Stamp.ofLine line with
  | .ok s =>
    if s.isEmpty then .notice (.debug ("No time stamp on line ".toList ++ Decimal.text number))
    else .stamp number s
  | .error e =>
    .notice (.warning ("Skipping line ".toList ++ Decimal.text number ++ ": ".toList ++ e.message))

/-- The line has a stamp, which may be empty. -/
def IsReadable (line : List Char) : Prop :=
  ∃ s, Stamp.ofLine line = .ok s

variable {number : Nat} {line : List Char} {rest before : List (List Char)}

theorem outcome_of_ok {s : Stamp} (h : Stamp.ofLine line = .ok s) :
    outcome number line = effect number s := by
  simp only [outcome, h]
  rw [Stamp.isEmpty_eq_of_ofLine h, effect]
  cases s.hasSeconds || s.hasDate with
  | true => rfl
  | false => rfl

theorem outcome_of_error {e : FormatError} (h : Stamp.ofLine line = .error e) :
    outcome number line = .notice (skipped number e) := by
  rw [outcome, h]
  rfl

theorem outcome_append_lineEnds {ends : List Char} (hends : ∀ c ∈ ends, isLineEnd c = true) :
    outcome number (line ++ ends) = outcome number line := by
  rw [outcome, Stamp.ofLine_append_lineEnds hends]
  rfl

theorem outcome_of_hasDate {s : Stamp} (h : Stamp.ofLine line = .ok s) (hdate : s.hasDate = true) :
    outcome number line = .stamp number s := by
  rw [outcome_of_ok h, effect, hdate, Bool.or_true]
  rfl

/-- A readable line leaves no warning. -/
theorem level_of_outcome (h : IsReadable line) {n : Notice} (hn : outcome number line = .notice n) :
    n.level = .debug := by
  obtain ⟨s, hs⟩ := h
  rw [outcome_of_ok hs, effect] at hn
  split at hn
  · cases hn
  · cases hn
    rfl

theorem readFrom_cons_of_ok {strict : Bool} (h : IsReadable line) :
    readFrom strict number (line :: rest) =
      (readFrom strict (number + 1) rest).cons (outcome number line) := by
  obtain ⟨s, hs⟩ := h
  simp only [readFrom, Stamp.ofLine_trimLineEnds, hs]
  rw [outcome_of_ok hs]

theorem readFrom_false_cons :
    readFrom false number (line :: rest) =
      (readFrom false (number + 1) rest).cons (outcome number line) := by
  cases h : Stamp.ofLine line with
  | ok s => exact readFrom_cons_of_ok ⟨s, h⟩
  | error e =>
    simp only [readFrom, Stamp.ofLine_trimLineEnds, h]
    rw [outcome_of_error h]
    rfl

theorem readFrom_false (number : Nat) (lines : List (List Char)) :
    readFrom false number lines =
      ⟨lines.mapIdx fun i line => outcome (number + i) line, none⟩ := by
  induction lines generalizing number with
  | nil => rfl
  | cons line rest ih =>
    rw [readFrom_false_cons, ih, List.mapIdx_cons]
    simp only [LogReading.cons, Nat.add_zero, Nat.add_assoc, Nat.add_comm 1]

/-- A lenient reading never fails. It gives the lines their outcomes, one each
and in order, counted from one. No stamp of a line with a date or an uptime in
it is passed over, not even one whose date falls on the seconds that mark a stamp
without any; and line ends make no difference to an outcome. -/
theorem lenient_accounts_for_lines (lines : List (List Char)) :
    (read false lines).error = none ∧
    (read false lines).effects = lines.mapIdx (fun i line => outcome (i + 1) line) ∧
    (∀ line found rest s, LinePrefix.Splits line found rest → Stamp.ofLine line = .ok s →
      ((s.hasSeconds || s.hasDate) = false ↔ found = ⟨none, none⟩)) ∧
    (∀ number line s, Stamp.ofLine line = .ok s → s.hasDate = true →
      outcome number line = .stamp number s) ∧
    ∀ number line ends, (∀ c ∈ ends, isLineEnd c = true) →
      outcome number (line ++ ends) = outcome number line := by
  have hread : read false lines = _ := readFrom_false 1 lines
  refine ⟨?_, ?_, ?_, ?_, ?_⟩
  · rw [hread]
  · rw [hread]
    simp only [Nat.add_comm 1]
  · intro line found rest s hsplits hs
    rw [← Stamp.isEmpty_iff_of_splits hsplits hs, Stamp.isEmpty_eq_of_ofLine hs,
      Bool.not_eq_true']
  · intro number line s hs hdate
    exact outcome_of_hasDate hs hdate
  · intro number line ends hends
    exact outcome_append_lineEnds hends

example : (read false ["[1969-12-31T23:59:59.000+0000] GC\r\n".toList, "GC".toList]).items.map
    (fun item => (item.1, item.2.seconds)) = [(1, Stamp.noSeconds)] := by decide +kernel

theorem readFrom_true_cons_of_error {e : FormatError} (h : Stamp.ofLine line = .error e) :
    readFrom true number (line :: rest) = ⟨[], some e⟩ := by
  simp only [readFrom, Stamp.ofLine_trimLineEnds, h]
  rfl

/-- Over readable lines a strict reading is a lenient one, and then goes on. -/
theorem readFrom_true_append (hbefore : ∀ line ∈ before, IsReadable line) (number : Nat)
    (rest : List (List Char)) :
    readFrom true number (before ++ rest) =
      ⟨(readFrom false number before).effects ++
          (readFrom true (number + before.length) rest).effects,
        (readFrom true (number + before.length) rest).error⟩ := by
  induction before generalizing number with
  | nil => rfl
  | cons line before ih =>
    have hline := hbefore line List.mem_cons_self
    have hrest : ∀ next ∈ before, IsReadable next :=
      fun next hnext => hbefore next (List.mem_cons_of_mem _ hnext)
    have hcount : number + 1 + before.length = number + (line :: before).length := by
      rw [List.length_cons]
      omega
    rw [List.cons_append, readFrom_cons_of_ok hline, readFrom_false_cons, ih hrest, hcount]
    rfl

theorem readable_or_first_malformed (lines : List (List Char)) :
    (∀ line ∈ lines, IsReadable line) ∨
      ∃ before line after e, lines = before ++ line :: after ∧
        (∀ earlier ∈ before, IsReadable earlier) ∧ Stamp.ofLine line = .error e := by
  induction lines with
  | nil => exact .inl (List.forall_mem_nil _)
  | cons line rest ih =>
    cases h : Stamp.ofLine line with
    | error e => exact .inr ⟨[], line, rest, e, rfl, List.forall_mem_nil _, h⟩
    | ok s =>
      have hline : IsReadable line := ⟨s, h⟩
      rcases ih with hrest | ⟨before, bad, after, e, rfl, hbefore, hbad⟩
      · exact .inl (List.forall_mem_cons.mpr ⟨hline, hrest⟩)
      · exact .inr ⟨line :: before, bad, after, e, rfl,
          List.forall_mem_cons.mpr ⟨hline, hbefore⟩, hbad⟩

theorem notices_of_readable (h : ∀ line ∈ before, IsReadable line) :
    ∀ n ∈ (read false before).notices, n.level = .debug := by
  intro n hn
  rw [read, readFrom_false, LogReading.notices, List.mem_filterMap] at hn
  obtain ⟨outcome, hmem, hnotice⟩ := hn
  obtain ⟨i, hi, rfl⟩ := List.mem_mapIdx.mp hmem
  split at hnotice
  · cases hnotice
  next hn =>
    cases hnotice
    exact level_of_outcome (h _ (List.getElem_mem hi)) hn

/-- Without malformed lines a strict reading is the lenient one. Otherwise it is
the lenient reading of the lines before the first malformed one, which has no
warning, and ends with the error of that line; the message of this error is the
one in the warning of the lenient reading. What comes after it is not looked
at. -/
theorem strict_stops_at_first_malformed (lines : List (List Char)) :
    ((∀ line ∈ lines, IsReadable line) ∧ read true lines = read false lines ∧
      (read true lines).error = none) ∨
    ∃ before line after e, lines = before ++ line :: after ∧
      (∀ earlier ∈ before, IsReadable earlier) ∧ Stamp.ofLine line = .error e ∧
      read true lines = { read false before with error := some e } ∧
      (∀ n ∈ (read false before).notices, n.level = .debug) ∧
      (∃ later, (read false lines).effects = (read false before).effects ++
        .notice (.warning ("Skipping line ".toList ++ Decimal.text (before.length + 1) ++
          ": ".toList ++ e.message)) :: later) ∧
      ∀ others, read true (before ++ line :: others) = read true lines := by
  rcases readable_or_first_malformed lines with hlines | ⟨before, line, after, e, rfl, hbefore, he⟩
  · have hlenient : (read false lines).error = none := by rw [read, readFrom_false]
    have hstrict : read true lines = read false lines := by
      have happend := readFrom_true_append hlines 1 []
      rw [List.append_nil] at happend
      rw [read, happend]
      simp only [readFrom, List.append_nil]
      rw [← hlenient]
      rfl
    exact .inl ⟨hlines, hstrict, hstrict ▸ hlenient⟩
  · have hstrict (others : List (List Char)) :
        read true (before ++ line :: others) = { read false before with error := some e } := by
      rw [read, readFrom_true_append hbefore, readFrom_true_cons_of_error he, List.append_nil]
      rfl
    refine .inr ⟨before, line, after, e, rfl, hbefore, he, hstrict after,
      notices_of_readable hbefore, ?_, fun others => (hstrict others).trans (hstrict after).symm⟩
    rw [read, read, readFrom_false, readFrom_false, List.mapIdx_append, List.mapIdx_cons]
    simp only [Nat.zero_add, Nat.add_comm 1, outcome_of_error he]
    exact ⟨_, rfl⟩

end Log
end HeapChronicle
