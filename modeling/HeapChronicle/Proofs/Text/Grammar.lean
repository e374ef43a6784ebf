import Mathlib.Data.List.Forall2
import HeapChronicle.Calendar.Iso8601

/-!
The two kinds of token at the start of a log line, said without a recogniser: a
date is groups of digits between fixed marks (`IsDate`), seconds are digits on
both sides of a point (`IsSeconds`). The recognisers split off exactly these
(`split?_shape_iff`, `seconds?_iff`).
-/

namespace HeapChronicle.Text

/-- So many digits, of any script. -/
def IsDigits (n : Nat) (cs : List Char) : Prop :=
  cs.length = n ∧ ∀ c ∈ cs, isDigit c = true

/-- A text `YYYY-MM-DDThh:mm:ss.fff` with a compact offset. Whether there is such
a date is left open. -/
inductive IsDate : List Char → Prop
  | intro {year month day hour minute second millis offset : List Char} {sign : Char}
      (hyear : IsDigits 4 year) (hmonth : IsDigits 2 month) (hday : IsDigits 2 day)
      (hhour : IsDigits 2 hour) (hminute : IsDigits 2 minute) (hsecond : IsDigits 2 second)
      (hmillis : IsDigits 3 millis) (hsign : sign = '+' ∨ sign = '-')
      (hoffset : IsDigits 4 offset) :
      IsDate (year ++ '-' :: (month ++ '-' :: (day ++ 'T' :: (hour ++ ':' :: (minute ++ ':' ::
        (second ++ '.' :: (millis ++ sign :: offset)))))))

/-- Digits, a point or a comma, digits; any number of them, but some on either
side. -/
inductive IsSeconds : List Char → Prop
  | intro {before after : Nat} {whole places : List Char} {point : Char}
      (hwhole : IsDigits (before + 1) whole) (hpoint : point = '.' ∨ point = ',')
      (hplaces : IsDigits (after + 1) places) :
      IsSeconds (whole ++ point :: places)

theorem IsDate.exists_dash {date : List Char} (h : IsDate date) :
    ∃ year behind, IsDigits 4 year ∧ date = year ++ '-' :: behind := by
  cases h with
  | intro hyear => exact ⟨_, _, hyear, rfl⟩

/-- Each character is accepted at its place. -/
def Shape.Matches (shape : Shape) (cs : List Char) : Prop :=
  List.Forall₂ (fun c accepts => accepts c = true) cs shape

theorem Shape.split?_eq_some_iff {shape : Shape} {cs token rest : List Char} :
    shape.split? cs = some (token, rest) ↔ shape.Matches token ∧ cs = token ++ rest := by
  constructor
  · intro h
    refine ⟨?_, (split?_append h).symm⟩
    induction shape generalizing cs token with
    | nil =>
      cases h
      exact List.Forall₂.nil
    | cons accepts shape ih =>
      cases cs with
      | nil => cases h
      | cons c cs =>
        rw [split?] at h
        split at h
        next hc =>
          obtain ⟨⟨token', rest'⟩, hsplit, heq⟩ := Option.map_eq_some_iff.mp h
          cases heq
          exact List.Forall₂.cons hc (ih hsplit)
        next => cases h
  · rintro ⟨hmatches, rfl⟩
    induction hmatches with
    | nil => rfl
    | cons hc _ ih =>
      rw [List.cons_append, split?, if_pos hc, ih]
      rfl

theorem Shape.matches_digits {n : Nat} {cs : List Char} :
    Shape.Matches (List.replicate n isDigit) cs ↔ IsDigits n cs := by
  constructor
  · intro h
    refine ⟨by simpa using h.length_eq, ?_⟩
    induction n generalizing cs with
    | zero =>
      cases h
      exact fun c hc => absurd hc List.not_mem_nil
    | succ n ih =>
      cases h with
      | cons hc hcs => exact List.forall_mem_cons.mpr ⟨hc, ih hcs⟩
  · rintro ⟨rfl, hdigits⟩
    induction cs with
    | nil => exact List.Forall₂.nil
    | cons c cs ih =>
      obtain ⟨hc, hcs⟩ := List.forall_mem_cons.mp hdigits
      exact List.Forall₂.cons hc (ih hcs)

/-- A group of digits and one character behind it. -/
theorem Shape.matches_group {n : Nat} {accepts : Char → Bool} {shape : Shape} {cs : List Char} :
    Shape.Matches (List.replicate n isDigit ++ accepts :: shape) cs ↔
      ∃ ds c rest, IsDigits n ds ∧ accepts c = true ∧ shape.Matches rest ∧
        cs = ds ++ c :: rest := by
  constructor
  · intro h
    have hdigits := matches_digits.mp (List.forall₂_take_append _ _ _ h)
    have hbehind := List.forall₂_drop_append _ _ _ h
    obtain ⟨c, rest, hc, hrest, heq⟩ := List.forall₂_cons_right_iff.mp hbehind
    refine ⟨_, c, rest, hdigits, hc, hrest, ?_⟩
    rw [← heq, List.take_append_drop]
  · rintro ⟨ds, c, rest, hds, hc, hrest, rfl⟩
    exact List.rel_append (matches_digits.mpr hds) (List.Forall₂.cons hc hrest)

theorem Shape.matches_marked {n : Nat} {mark : Char} {shape : Shape} {cs : List Char} :
    Shape.Matches (List.replicate n isDigit ++ (· == mark) :: shape) cs ↔
      ∃ ds rest, IsDigits n ds ∧ shape.Matches rest ∧ cs = ds ++ mark :: rest := by
  rw [matches_group]
  constructor
  · rintro ⟨ds, c, rest, hds, hc, hrest, rfl⟩
    rw [beq_iff_eq.mp hc]
    exact ⟨ds, rest, hds, hrest, rfl⟩
  · rintro ⟨ds, rest, hds, hrest, rfl⟩
    exact ⟨ds, mark, rest, hds, beq_self_eq_true mark, hrest, rfl⟩

theorem matches_shape_iff {cs : List Char} : Iso8601.shape.Matches cs ↔ IsDate cs := by
  simp only [Iso8601.shape, List.append_assoc, List.cons_append, List.nil_append]
  constructor
  · intro hfromYear
    obtain ⟨year, _, hyear, hfromMonth, rfl⟩ := Shape.matches_marked.mp hfromYear
    obtain ⟨month, _, hmonth, hfromDay, rfl⟩ := Shape.matches_marked.mp hfromMonth
    obtain ⟨day, _, hday, hfromHour, rfl⟩ := Shape.matches_marked.mp hfromDay
    obtain ⟨hour, _, hhour, hfromMinute, rfl⟩ := Shape.matches_marked.mp hfromHour
    obtain ⟨minute, _, hminute, hfromSecond, rfl⟩ := Shape.matches_marked.mp hfromMinute
    obtain ⟨second, _, hsecond, hfromMillis, rfl⟩ := Shape.matches_marked.mp hfromSecond
    obtain ⟨millis, sign, offset, hmillis, hsign, hoffset, rfl⟩ :=
      Shape.matches_group.mp hfromMillis
    rw [Bool.or_eq_true, beq_iff_eq, beq_iff_eq] at hsign
    exact .intro hyear hmonth hday hhour hminute hsecond hmillis hsign
      (Shape.matches_digits.mp hoffset)
  · rintro ⟨hyear, hmonth, hday, hhour, hminute, hsecond, hmillis, hsign, hoffset⟩
    refine Shape.matches_marked.mpr ⟨_, _, hyear, ?_, rfl⟩
    refine Shape.matches_marked.mpr ⟨_, _, hmonth, ?_, rfl⟩
    refine Shape.matches_marked.mpr ⟨_, _, hday, ?_, rfl⟩
    refine Shape.matches_marked.mpr ⟨_, _, hhour, ?_, rfl⟩
    refine Shape.matches_marked.mpr ⟨_, _, hminute, ?_, rfl⟩
    refine Shape.matches_marked.mpr ⟨_, _, hsecond, ?_, rfl⟩
    refine Shape.matches_group.mpr ⟨_, _, _, hmillis, ?_, Shape.matches_digits.mpr hoffset, rfl⟩
    rwa [Bool.or_eq_true, beq_iff_eq, beq_iff_eq]

/-- Splitting a date off a text is finding one at its front. -/
theorem split?_shape_iff {cs date rest : List Char} :
    Iso8601.shape.split? cs = some (date, rest) ↔ IsDate date ∧ cs = date ++ rest := by
  rw [Shape.split?_eq_some_iff, matches_shape_iff]

/-- The next character, if there is one, is no digit. -/
def NoDigitNext (cs : List Char) : Prop :=
  ∀ c ∈ cs.head?, isDigit c = false

theorem takeWhile_digits {n : Nat} {ds rest : List Char} (hds : IsDigits n ds)
    (hrest : NoDigitNext rest) :
    (ds ++ rest).takeWhile isDigit = ds ∧ (ds ++ rest).dropWhile isDigit = rest := by
  rw [List.takeWhile_append_of_pos hds.2, List.dropWhile_append_of_pos hds.2]
  cases rest with
  | nil => exact ⟨List.append_nil ds, rfl⟩
  | cons c rest =>
    have hc : isDigit c = false := hrest c rfl
    rw [List.takeWhile_cons_of_neg (by simp [hc]), List.dropWhile_cons_of_neg (by simp [hc])]
    exact ⟨List.append_nil ds, rfl⟩

theorem isDigits_of_takeWhile {cs ds : List Char} (h : cs.takeWhile isDigit = ds) :
    IsDigits ds.length ds := by
  subst h
  exact ⟨rfl, List.all_eq_true.mp List.all_takeWhile⟩

theorem noDigitNext_of_dropWhile {cs rest : List Char} (h : cs.dropWhile isDigit = rest) :
    NoDigitNext rest := by
  subst h
  intro c hc
  have hhead := List.head?_dropWhile_not isDigit cs
  rw [Option.mem_def.mp hc] at hhead
  exact hhead

theorem isPoint_iff {c : Char} : isPoint c = true ↔ c = '.' ∨ c = ',' := by
  simp [isPoint]

theorem noDigitNext_point {c : Char} {cs : List Char} (h : c = '.' ∨ c = ',') :
    NoDigitNext (c :: cs) := by
  rintro _ ⟨⟩
  rcases h with rfl | rfl <;> decide

theorem seconds?_of_isDigits {before after : Nat} {whole places rest : List Char} {point : Char}
    (hwhole : IsDigits (before + 1) whole) (hpoint : point = '.' ∨ point = ',')
    (hplaces : IsDigits (after + 1) places) (hnext : NoDigitNext rest) :
    seconds? (whole ++ point :: (places ++ rest)) = some (⟨whole, point, places⟩, rest) := by
  have hpointNext : NoDigitNext (point :: (places ++ rest)) := noDigitNext_point hpoint
  obtain ⟨hfirst, hmore⟩ := takeWhile_digits hwhole hpointNext
  obtain ⟨hlast, hrest⟩ := takeWhile_digits hplaces hnext
  -- The recogniser wants a first digit, which can be named once both runs are cut.
  rw [seconds?, hfirst, hmore]
  obtain ⟨d, ds, rfl⟩ := List.exists_of_length_succ _ hwhole.1
  obtain ⟨e, es, rfl⟩ := List.exists_of_length_succ _ hplaces.1
  simp only [isPoint_iff.mpr hpoint, if_true, hlast, hrest]

theorem seconds?_of_isSeconds {uptime rest : List Char} (h : IsSeconds uptime)
    (hnext : NoDigitNext rest) :
    ∃ token, seconds? (uptime ++ rest) = some (token, rest) ∧ token.chars = uptime := by
  cases h with
  | @intro before after whole places point hwhole hpoint hplaces =>
    have happend : whole ++ point :: places ++ rest = whole ++ point :: (places ++ rest) :=
      List.append_assoc whole (point :: places) rest
    refine ⟨⟨whole, point, places⟩, ?_, rfl⟩
    rw [happend]
    exact seconds?_of_isDigits hwhole hpoint hplaces hnext

theorem isSeconds_of_seconds? {cs rest : List Char} {token : SecondsToken}
    (h : seconds? cs = some (token, rest)) : IsSeconds token.chars ∧ NoDigitNext rest := by
  rw [seconds?] at h
  split at h
  next d ds point more hwhole hmore =>
    split at h
    next hpoint =>
      split at h
      next e es hplaces =>
        cases h
        exact ⟨.intro (isDigits_of_takeWhile hwhole) (isPoint_iff.mp hpoint)
          (isDigits_of_takeWhile hplaces), noDigitNext_of_dropWhile rfl⟩
      next => cases h
    next => cases h
  next => cases h

/-- Splitting seconds off a text is finding some at its front that no further
digit follows. -/
theorem seconds?_iff {cs uptime rest : List Char} :
    (∃ token, seconds? cs = some (token, rest) ∧ token.chars = uptime) ↔
      IsSeconds uptime ∧ NoDigitNext rest ∧ cs = uptime ++ rest := by
  constructor
  · rintro ⟨token, htoken, rfl⟩
    obtain ⟨hseconds, hnext⟩ := isSeconds_of_seconds? htoken
    exact ⟨hseconds, hnext, (seconds?_append htoken).symm⟩
  · rintro ⟨hseconds, hnext, rfl⟩
    exact seconds?_of_isSeconds hseconds hnext

end HeapChronicle.Text
