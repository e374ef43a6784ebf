import HeapChronicle.Log.Reading
import HeapChronicle.Proofs.Log.Line

/-!
Line ends behind a line. No date, no uptime and none of the marks around them
holds one, so a line splits as it does without its line ends, which only add to
its rest (`Splits.append_lineEnds`). Trimming a line thus never makes or breaks
a stamp.
-/

namespace HeapChronicle

open Text

namespace Log

/-- No line end occurs in the text. -/
def IsUnbroken (cs : List Char) : Prop :=
  ∀ c ∈ cs, isLineEnd c = false

instance (cs : List Char) : Decidable (IsUnbroken cs) :=
  decidable_of_decidable_of_iff (p := (cs.all fun c => !isLineEnd c) = true) <| by
    simp only [List.all_eq_true, Bool.not_eq_true', IsUnbroken]

@[simp] theorem isUnbroken_nil : IsUnbroken [] :=
  List.forall_mem_nil _

@[simp] theorem isUnbroken_cons {c : Char} {cs : List Char} :
    IsUnbroken (c :: cs) ↔ isLineEnd c = false ∧ IsUnbroken cs :=
  List.forall_mem_cons

@[simp] theorem isUnbroken_append {cs ds : List Char} :
    IsUnbroken (cs ++ ds) ↔ IsUnbroken cs ∧ IsUnbroken ds :=
  List.forall_mem_append

theorem isLineEnd_of_isDigit {c : Char} (h : isDigit c = true) : isLineEnd c = false := by
  rw [isLineEnd, Bool.or_eq_false_iff, decide_eq_false_iff_not, decide_eq_false_iff_not]
  constructor
  · rintro rfl
    exact absurd h (by decide)
  · rintro rfl
    exact absurd h (by decide)

theorem isUnbroken_of_isDigits {n : Nat} {cs : List Char} (h : IsDigits n cs) : IsUnbroken cs :=
  fun c hc => isLineEnd_of_isDigit (h.2 c hc)

theorem isUnbroken_of_isDate {date : List Char} (h : IsDate date) : IsUnbroken date := by
  cases h with
  | @intro _ _ _ _ _ _ _ _ sign hyear hmonth hday hhour hminute hsecond hmillis hsign hoffset =>
    have hmarks : IsUnbroken ['-', 'T', ':', '.', '+'] := by decide
    simp only [isUnbroken_cons, isUnbroken_nil] at hmarks
    obtain ⟨hdash, htee, hcolon, hpoint, hplus, -⟩ := hmarks
    have hsign : isLineEnd sign = false := by
      rcases hsign with rfl | rfl
      · exact hplus
      · exact hdash
    simp only [isUnbroken_append, isUnbroken_cons]
    exact ⟨isUnbroken_of_isDigits hyear, hdash, isUnbroken_of_isDigits hmonth, hdash,
      isUnbroken_of_isDigits hday, htee, isUnbroken_of_isDigits hhour, hcolon,
      isUnbroken_of_isDigits hminute, hcolon, isUnbroken_of_isDigits hsecond, hpoint,
      isUnbroken_of_isDigits hmillis, hsign, isUnbroken_of_isDigits hoffset⟩

theorem isUnbroken_of_isSeconds {uptime : List Char} (h : IsSeconds uptime) :
    IsUnbroken uptime := by
  cases h with
  | @intro _ _ _ _ point hwhole hpoint hplaces =>
    have hpoint : isLineEnd point = false := by
      rcases hpoint with rfl | rfl <;> decide
    rw [isUnbroken_append, isUnbroken_cons]
    exact ⟨isUnbroken_of_isDigits hwhole, hpoint, isUnbroken_of_isDigits hplaces⟩

/-- Line ends behind a line do not give it a front without line ends that it has
not. -/
theorem append_lineEnds_ne {front line ends : List Char} (hfront : IsUnbroken front)
    (hends : ∀ c ∈ ends, isLineEnd c = true) (hne : ∀ rest, line ≠ front ++ rest)
    (rest : List Char) : line ++ ends ≠ front ++ rest := by
  intro h
  rcases List.append_eq_append_iff.mp h with ⟨extra, rfl, hextra⟩ | ⟨rest', hline, -⟩
  · -- What reaches into the line ends has none of them, so it is empty.
    have hempty : extra = [] := by
      rw [List.eq_nil_iff_forall_not_mem]
      intro c hc
      have hno := hfront c (List.mem_append_right _ hc)
      have hyes := hends c (hextra ▸ List.mem_append_left _ hc)
      rw [hno] at hyes
      cases hyes
    exact hne [] (by rw [hempty, List.append_nil, List.append_nil])
  · exact hne rest' hline

theorem exists_lineEnds (line : List Char) :
    ∃ ends, line = trimLineEnds line ++ ends ∧ ∀ c ∈ ends, isLineEnd c = true := by
  refine ⟨(line.reverse.takeWhile isLineEnd).reverse, ?_, ?_⟩
  · rw [trimLineEnds, ← List.reverse_append, List.takeWhile_append_dropWhile, List.reverse_reverse]
  · intro c hc
    exact List.all_eq_true.mp List.all_takeWhile c (List.mem_reverse.mp hc)

end Log

namespace LinePrefix

open Log

variable {line text ends : List Char}

theorem head?_append_lineEnds (hends : ∀ c ∈ ends, isLineEnd c = true) :
    (line ++ ends).head? = some '[' ↔ line.head? = some '[' := by
  cases line with
  | cons c line => exact Iff.rfl
  | nil =>
    constructor
    · intro hhead
      have hbracket := hends '[' (List.mem_of_head? hhead)
      exact absurd hbracket (by decide)
    · intro hhead
      cases hhead

theorem DateField.append_lineEnds {date : Option (List Char)} {behind : List Char}
    (hends : ∀ c ∈ ends, isLineEnd c = true) (h : DateField text date behind) :
    DateField (text ++ ends) date (behind ++ ends) := by
  cases h with
  | found hdate htext =>
    refine .found hdate ?_
    rw [htext]
    simp only [List.cons_append, List.append_assoc]
  | absent hnone =>
    refine .absent ?_
    intro date rest hdate
    have hfront : IsUnbroken ('[' :: (date ++ [']'])) := by
      rw [isUnbroken_cons, isUnbroken_append]
      exact ⟨by decide, isUnbroken_of_isDate hdate, by decide⟩
    have hne (rest : List Char) : text ≠ '[' :: (date ++ [']']) ++ rest := by
      simpa using hnone date rest hdate
    simpa using append_lineEnds_ne hfront hends hne rest

theorem UptimeField.append_lineEnds {uptime : Option (List Char)} {rest : List Char}
    (hends : ∀ c ∈ ends, isLineEnd c = true) (h : UptimeField text uptime rest) :
    UptimeField (text ++ ends) uptime (rest ++ ends) := by
  cases h with
  | found huptime htext =>
    refine .found huptime ?_
    rw [htext]
    simp only [List.cons_append, List.append_assoc]
  | absent hnone =>
    refine .absent ?_
    intro uptime rest huptime
    have hfront : IsUnbroken ('[' :: (uptime ++ ['s', ']'])) := by
      rw [isUnbroken_cons, isUnbroken_append]
      exact ⟨by decide, isUnbroken_of_isSeconds huptime, by decide⟩
    have hne (rest : List Char) : text ≠ '[' :: (uptime ++ ['s', ']']) ++ rest := by
      simpa using hnone uptime rest huptime
    simpa using append_lineEnds_ne hfront hends hne rest

/-- Line ends behind a line are added to its rest. -/
theorem Splits.append_lineEnds {rest : List Char} {found : LinePrefix}
    (hends : ∀ c ∈ ends, isLineEnd c = true) (h : Splits line found rest) :
    Splits (line ++ ends) found (rest ++ ends) := by
  have hhead : (line ++ ends).head? = some '[' ↔ line.head? = some '[' :=
    head?_append_lineEnds hends
  have hmark : IsUnbroken [':', ' '] := by decide
  cases h with
  | unified hbracket hdate huptime =>
    exact .unified (hhead.mpr hbracket) (hdate.append_lineEnds hends)
      (huptime.append_lineEnds hends)
  | dated hplain hdate huptime hline =>
    refine .dated (mt hhead.mp hplain) hdate huptime ?_
    rw [hline]
    simp only [List.append_assoc, List.cons_append]
  | undated hplain huptime hline =>
    refine .undated (mt hhead.mp hplain) huptime ?_
    rw [hline]
    simp only [List.append_assoc, List.cons_append]
  | bare hplain hdated hundated =>
    refine .bare (mt hhead.mp hplain) ?_ ?_
    · intro date uptime rest hdate huptime
      have hfront : IsUnbroken (date ++ [':', ' '] ++ (uptime ++ [':', ' '])) := by
        simp only [isUnbroken_append]
        exact ⟨⟨isUnbroken_of_isDate hdate, hmark⟩, isUnbroken_of_isSeconds huptime, hmark⟩
      have hne (rest : List Char) :
          line ≠ date ++ [':', ' '] ++ (uptime ++ [':', ' ']) ++ rest := by
        simpa using hdated date uptime rest hdate huptime
      simpa using append_lineEnds_ne hfront hends hne rest
    · intro uptime rest huptime
      have hfront : IsUnbroken (uptime ++ [':', ' ']) :=
        isUnbroken_append.mpr ⟨isUnbroken_of_isSeconds huptime, hmark⟩
      have hne (rest : List Char) : line ≠ uptime ++ [':', ' '] ++ rest := by
        simpa using hundated uptime rest huptime
      simpa using append_lineEnds_ne hfront hends hne rest

theorem ofLine_append_lineEnds (hends : ∀ c ∈ ends, isLineEnd c = true) :
    ofLine (line ++ ends) = ofLine line := by
  obtain ⟨found, rest, hsplits⟩ := exists_splits line
  rw [ofLine_of_splits hsplits, ofLine_of_splits (hsplits.append_lineEnds hends)]

end LinePrefix

namespace Stamp

theorem ofLine_append_lineEnds {line ends : List Char}
    (hends : ∀ c ∈ ends, Log.isLineEnd c = true) : ofLine (line ++ ends) = ofLine line := by
  rw [ofLine, LinePrefix.ofLine_append_lineEnds hends]
  rfl

theorem ofLine_trimLineEnds (line : List Char) : ofLine (Log.trimLineEnds line) = ofLine line := by
  obtain ⟨ends, hline, hends⟩ := Log.exists_lineEnds line
  have happend : ofLine (Log.trimLineEnds line ++ ends) = ofLine (Log.trimLineEnds line) :=
    ofLine_append_lineEnds hends
  rw [← hline] at happend
  exact happend.symm

end Stamp
end HeapChronicle
