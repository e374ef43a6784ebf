import HeapChronicle.Proofs.Calendar.DateText
import HeapChronicle.Proofs.Log.Reading
import HeapChronicle.Proofs.Stamp.Alike

/-!
Stamps read from the text of a date alone. The seconds that are missing are NaN in one
way of reading and the marker of no seconds in the other. A date replaces either by its
own seconds, so that every text is read alike (`read_date_alone`). Without a text there
is no date to do so: NaN becomes zero, which is a usable time, and only the marker is left
as what it is.
-/

namespace HeapChronicle
namespace Stamp

open Iso8601 (Denotes)

variable {cs : List Char} {s : Stamp} {e : FormatError}

/-- Two ways of reading end alike: in one error, or in equal stamps. -/
inductive ReadAlike : Except FormatError Stamp → Except FormatError Stamp → Prop
  | failed (e : FormatError) : ReadAlike (.error e) (.error e)
  | read {s t : Stamp} (h : s.same t = true) : ReadAlike (.ok s) (.ok t)

/-- The marker of no seconds is negative, so a date replaces it just as it replaces NaN,
even where its own seconds are the marker again. -/
theorem ofParts_noSeconds (t : ZonedTime) : ofParts (some t) noSeconds = ofDate t := by
  rw [ofDate_eq, ofParts, isNegative_noSeconds, Bool.or_true, if_pos rfl]

theorem readIso_some (cs : List Char) : readIso (some cs) = (Iso8601.read cs).map ofDate := by
  rw [readIso, readDate?]
  cases Iso8601.read cs with
  | error e => rfl
  | ok t => rfl

theorem read_date_alone (cs : List Char) : read (some cs) none = readIso (some cs) := by
  rw [readIso_some, read, readDate?, readSeconds?]
  cases Iso8601.read cs with
  | error e => simp only [Except.map, bind, Except.bind]
  | ok t => simp only [Except.map, bind, Except.bind, pure, Except.pure, ofParts_noSeconds]

theorem readIso_eq_ok_iff :
    readIso (some cs) = .ok s ↔ ∃ t, Denotes cs t.wall.fields t.offset ∧ s = ofDate t := by
  simp only [readIso_some, ← Iso8601.read_eq_ok_iff]
  cases Iso8601.read cs with
  | error e => simp [Except.map]
  | ok t => simp [Except.map, eq_comm]

theorem readIso_eq_error_iff :
    readIso (some cs) = .error e ↔ e = .date cs ∧ ∀ f offset, ¬Denotes cs f offset := by
  rw [readIso_some, ← Iso8601.read_eq_error_iff_not_denotes]
  cases Iso8601.read cs with
  | error e' => simp [Except.map]
  | ok t => simp [Except.map]

theorem readAlike_date_alone (cs : List Char) :
    ReadAlike (readIso (some cs)) (read (some cs) none) := by
  rw [read_date_alone]
  cases h : readIso (some cs) with
  | error e => exact .failed e
  | ok s =>
    obtain ⟨t, -, rfl⟩ := readIso_eq_ok_iff.mp h
    exact .read ((Alike.iff_same (isTimed_ofDate t)).mp (.refl _))

theorem readIso_none : readIso none = .ok ⟨none, .zero⟩ ∧
    isEmpty ⟨none, .zero⟩ = false ∧ hasSeconds ⟨none, .zero⟩ = true := by
  have hmarker : Binary64.zero.numEq noSeconds = false := by
    rw [Bool.eq_false_iff, Ne, Binary64.numEq_iff_rank_eq rfl isNaN_noSeconds]
    exact rank_noSeconds_neg.ne'
  refine ⟨rfl, ?_, ?_⟩
  · rw [isEmpty_eq, hmarker, Bool.and_false]
  · rw [hasSeconds, hmarker]
    rfl

theorem not_readAlike_none : ¬ReadAlike (readIso none) (read none none) := by
  obtain ⟨hiso, hempty, -⟩ := readIso_none
  rw [hiso, read_none_none]
  rintro (_ | hsame)
  rw [← isEmpty, hempty] at hsame
  cases hsame

/-- The text of a date is read alike whether the seconds are left out or said to be
missing: both ways fail with the error that keeps the text if it denotes no date, and give
the stamp of the date otherwise. If there is no text either, they do not agree. Where
missing seconds have their marker the stamp is empty, and where they are NaN it is a stamp
at zero that has seconds. -/
theorem date_alone_agrees_iff (date : Option (List Char)) :
    (ReadAlike (readIso date) (read date none) ↔ date.isSome = true) ∧
    (∀ cs, read (some cs) none = readIso (some cs)) ∧
    (∀ cs s, readIso (some cs) = .ok s ↔
      ∃ t, Denotes cs t.wall.fields t.offset ∧ s = ofDate t) ∧
    (∀ cs e, readIso (some cs) = .error e ↔ e = .date cs ∧ ∀ f offset, ¬Denotes cs f offset) ∧
    (∃ s, readIso none = .ok s ∧ s.hasDate = false ∧ s.seconds = .zero ∧
      s.hasSeconds = true ∧ s.isEmpty = false) ∧
    read none none = .ok empty := by
  refine ⟨?_, read_date_alone, fun _ _ => readIso_eq_ok_iff, fun _ _ => readIso_eq_error_iff,
    ?_, read_none_none⟩
  · cases date with
    | none => exact iff_of_false not_readAlike_none Bool.noConfusion
    | some cs => exact iff_of_true (readAlike_date_alone cs) rfl
  · obtain ⟨hiso, hempty, hseconds⟩ := readIso_none
    exact ⟨_, hiso, rfl, rfl, hseconds, hempty⟩

/-- No text is the one thing that is not read alike. -/
theorem readings_of_no_date_differ :
    ¬∀ date, ReadAlike (readIso date) (read date none) :=
  fun h => not_readAlike_none (h none)

end Stamp
end HeapChronicle
