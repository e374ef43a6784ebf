import Mathlib
import HeapChronicle.Series.DataPoint
import HeapChronicle.Proofs.Number.Numeral
import HeapChronicle.Proofs.Calendar.Written

/-!
What the lines of data points keep. Each point has a line of its own, which ends
with the only newline in it, so the text of two lists one after the other is
that of the lists joined. A text determines its points up to the part of the
last millisecond of their dates, and nothing more is lost (`lines_frame_points`).
-/

namespace HeapChronicle

theorem CollectionKind.mem_all (kind : CollectionKind) : kind ∈ CollectionKind.all := by
  cases kind <;> decide

theorem CollectionKind.label_inj {a b : CollectionKind} (h : a.label = b.label) : a = b :=
  (by decide : ∀ a ∈ all, ∀ b ∈ all, a.label = b.label → a = b) a (mem_all a) b (mem_all b) h

theorem Iso8601.text_eq_iff_toMillis {t u : ZonedTime} :
    text 3 t = text 3 u ↔ t.toMillis = u.toMillis := by
  rw [text_eq_iff]
  constructor
  · rintro ⟨hwall, hoffset⟩
    simp only [ZonedTime.toMillis, LocalTime.toMillis, hwall, hoffset]
  · intro h
    have hwall := congrArg (fun v : ZonedTime => v.wall.micros) h
    have hoffset := congrArg ZonedTime.offset h
    simp only [ZonedTime.toMillis, LocalTime.toMillis] at hwall hoffset
    exact ⟨by omega, hoffset⟩

/-- A mark that occurs in neither of two fields shows where they end. -/
theorem append_mark_inj {mark : Char} {xs ys us vs : List Char} (hxs : mark ∉ xs) (hys : mark ∉ ys)
    (h : xs ++ mark :: us = ys ++ mark :: vs) : xs = ys ∧ us = vs := by
  have hfront (cs rest : List Char) (hcs : mark ∉ cs) :
      (cs ++ mark :: rest).takeWhile (· != mark) = cs := by
    rw [List.takeWhile_append_of_pos fun c hc => bne_iff_ne.mpr (ne_of_mem_of_not_mem hc hcs),
      List.takeWhile_cons_of_neg (by simp), List.append_nil]
  have hxy : xs = ys := by rw [← hfront xs us hxs, h, hfront ys vs hys]
  subst hxy
  exact ⟨rfl, (List.cons.inj (List.append_cancel_left h)).2⟩

namespace DataPoint

theorem dateText_eq_iff {s t : Option ZonedTime} :
    dateText s = dateText t ↔ s.map ZonedTime.toMillis = t.map ZonedTime.toMillis := by
  cases s with
  | none =>
    cases t with
    | none => exact iff_of_true rfl rfl
    | some t => exact iff_of_false (fun h => nomatch h) (fun h => nomatch h)
  | some s =>
    cases t with
    | none => exact iff_of_false (fun h => nomatch h) (fun h => nomatch h)
    | some t => simp [dateText, Iso8601.text_eq_iff_toMillis]

/-- Two points with the same collection, seconds and value, whose dates have the
same offset and the same local time to the millisecond. -/
structure Agree (p q : DataPoint) : Prop where
  collection : p.collection = q.collection
  seconds : p.stamp.seconds = q.stamp.seconds
  date : p.stamp.date.map ZonedTime.toMillis = q.stamp.date.map ZonedTime.toMillis
  value : p.value = q.value

/-- The fields of a line, each up to the mark behind it. -/
theorem line_eq (p : DataPoint) :
    p.line = "\x7b\"gc_type\": \"".toList ++ (p.collection.label ++ '"' ::
      (", \"time_stamp\": ".toList ++ (p.stamp.seconds.text ++ ',' ::
        (" \"date_time\": ".toList ++ (dateText p.stamp.date ++ ',' ::
          (" \"value\": ".toList ++ (p.value.text ++ ['\x7d']))))))) := by
  unfold line
  simp only [List.append_assoc]
  rfl

theorem not_mem_seconds {c : Char} (hc : Decimal.isPlain c = false) (x : Binary64) : c ∉ x.text :=
  Decimal.not_mem_of_isPlain (Number.all_isPlain_text (.double x)) hc

theorem not_mem_dateText {c : Char} (hc : Decimal.isPlain c = false) (hquote : c ≠ '"')
    (date : Option ZonedTime) : c ∉ dateText date := by
  cases date with
  | none => exact Decimal.not_mem_of_isPlain (by decide) hc
  | some t =>
    have htext := Decimal.not_mem_of_isPlain (Iso8601.all_isPlain_date t) hc
    simp [dateText, hquote, htext]

theorem quote_not_mem_label (kind : CollectionKind) : '"' ∉ kind.label := by
  cases kind <;> decide

theorem agree_of_line_eq {p q : DataPoint} (h : p.line = q.line) : p.Agree q := by
  rw [line_eq, line_eq] at h
  have h := List.append_cancel_left h
  obtain ⟨hlabel, h⟩ := append_mark_inj (quote_not_mem_label _) (quote_not_mem_label _) h
  have h := List.append_cancel_left h
  obtain ⟨hseconds, h⟩ :=
    append_mark_inj (not_mem_seconds (by decide) _) (not_mem_seconds (by decide) _) h
  have h := List.append_cancel_left h
  obtain ⟨hdate, h⟩ := append_mark_inj (not_mem_dateText (by decide) (by decide) _)
    (not_mem_dateText (by decide) (by decide) _) h
  have hvalue := List.append_cancel_right (List.append_cancel_left h)
  exact ⟨CollectionKind.label_inj hlabel, Binary64.text_inj hseconds, dateText_eq_iff.mp hdate,
    Number.text_inj hvalue⟩

theorem line_eq_iff {p q : DataPoint} : p.line = q.line ↔ p.Agree q := by
  refine ⟨agree_of_line_eq, fun h => ?_⟩
  rw [line_eq, line_eq, h.collection, h.seconds, dateText_eq_iff.mpr h.date, h.value]

theorem newline_not_mem_line (p : DataPoint) : '\n' ∉ p.line := by
  have hlabel : '\n' ∉ p.collection.label := by
    cases p.collection <;> decide
  have hseconds := not_mem_seconds (c := '\n') (by decide) p.stamp.seconds
  have hdate := not_mem_dateText (c := '\n') (by decide) (by decide) p.stamp.date
  have hvalue := Decimal.not_mem_of_isPlain (c := '\n') (Number.all_isPlain_text p.value) (by decide)
  unfold line
  simp only [List.mem_append, not_or]
  exact ⟨⟨⟨⟨⟨⟨⟨⟨by decide, hlabel⟩, by decide⟩, hseconds⟩, by decide⟩, hdate⟩, by decide⟩, hvalue⟩,
    by decide⟩

theorem lines_cons (p : DataPoint) (points : List DataPoint) :
    lines (p :: points) = p.line ++ '\n' :: lines points := by
  cases points with
  | nil => simp [lines]
  | cons q rest => simp [lines, List.intercalate_cons_cons]

theorem lines_append (xs ys : List DataPoint) : lines (xs ++ ys) = lines xs ++ lines ys := by
  induction xs with
  | nil => rfl
  | cons x xs ih => rw [List.cons_append, lines_cons, lines_cons, ih, List.append_assoc,
      List.cons_append]

theorem count_newline (points : List DataPoint) : (lines points).count '\n' = points.length := by
  induction points with
  | nil => rfl
  | cons p rest ih =>
    rw [lines_cons, List.count_append, List.count_eq_zero.mpr p.newline_not_mem_line,
      List.count_cons_self, ih, List.length_cons, Nat.zero_add]

theorem lines_eq_intercalate (points : List DataPoint) :
    lines points = ['\n'].intercalate (points.map line ++ [[]]) := by
  induction points with
  | nil => rfl
  | cons p rest ih =>
    rw [lines_cons, ih]
    cases rest with
    | nil => simp [List.intercalate_cons_cons]
    | cons q rest => simp [List.intercalate_cons_cons]

/-- Cut at its newlines, a text gives the lines, and nothing after the last. -/
theorem splitOn_lines (points : List DataPoint) :
    (lines points).splitOn '\n' = points.map line ++ [[]] := by
  rw [lines_eq_intercalate, List.splitOn_intercalate]
  · intro l hl
    rw [List.mem_append, List.mem_map, List.mem_singleton] at hl
    obtain ⟨p, -, rfl⟩ | rfl := hl
    · exact p.newline_not_mem_line
    · exact List.not_mem_nil
  · simp

theorem lines_eq_iff_map {xs ys : List DataPoint} :
    lines xs = lines ys ↔ xs.map line = ys.map line := by
  constructor
  · intro h
    have hsplit := splitOn_lines xs
    rw [h, splitOn_lines] at hsplit
    exact (List.append_cancel_right hsplit).symm
  · intro h
    rw [lines_eq_intercalate, h, lines_eq_intercalate]

/-- The text of two lists one after the other is that of the lists joined. A text has
as many newlines as points, and is split at them into one line for each point and
nothing behind the last. Two lists have the same text exactly if their points agree
one by one, which leaves out only the part of the last millisecond of a date. -/
theorem lines_frame_points :
    (∀ xs ys, lines (xs ++ ys) = lines xs ++ lines ys) ∧
    (∀ points, (lines points).count '\n' = points.length ∧
      (lines points).splitOn '\n' = points.map line ++ [[]]) ∧
    ∀ xs ys, lines xs = lines ys ↔ List.Forall₂ Agree xs ys := by
  refine ⟨lines_append, fun points => ⟨count_newline points, splitOn_lines points⟩, ?_⟩
  intro xs ys
  rw [lines_eq_iff_map, ← List.forall₂_eq_eq_eq, List.forall₂_map_left_iff,
    List.forall₂_map_right_iff]
  simp only [line_eq_iff]

end DataPoint
end HeapChronicle
