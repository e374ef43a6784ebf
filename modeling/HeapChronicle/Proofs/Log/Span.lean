import HeapChronicle.Log.Span
import HeapChronicle.Proofs.Binary64.Agreement

/-!
What the span of a log is read from: the instants of its stamps if all of them have
a date (`span_cons_cons`), else their seconds. The greatest and the least seconds
are chosen by comparison alone, so seconds that agree have spans that agree.
-/

namespace HeapChronicle.Log

open Binary64

variable {first first' : Binary64} {rest rest' : List Binary64}

/-- A choice by comparison keeps agreement, whichever of several equal numbers it
falls on. -/
theorem foldl_agrees {takes : Binary64 → Binary64 → Bool}
    (htakes : ∀ {best best' x x' : Binary64}, best.Agrees best' → x.Agrees x' →
      takes best x = takes best' x')
    (h : first.Agrees first') (hrest : List.Forall₂ Agrees rest rest') :
    (rest.foldl (fun best x => if takes best x then x else best) first).Agrees
      (rest'.foldl (fun best x => if takes best x then x else best) first') := by
  apply List.rel_foldl _ h hrest
  intro best best' hbest x x' hx
  beta_reduce
  rw [htakes hbest hx]
  split
  · exact hx
  · exact hbest

theorem greatest_agrees (h : first.Agrees first') (hrest : List.Forall₂ Agrees rest rest') :
    (greatest first rest).Agrees (greatest first' rest') :=
  foldl_agrees (fun hbest hx => hbest.lt hx) h hrest

theorem least_agrees (h : first.Agrees first') (hrest : List.Forall₂ Agrees rest rest') :
    (least first rest).Agrees (least first' rest') :=
  foldl_agrees (fun hbest hx => hx.lt hbest) h hrest

theorem secondsSpan_agrees (h : first.Agrees first') (hrest : List.Forall₂ Agrees rest rest') :
    (secondsSpan first rest).Agrees (secondsSpan first' rest') :=
  (greatest_agrees h hrest).sub (least_agrees h hrest)

/-- The instants of the dates, if all stamps have one. -/
def instants? (l : List Stamp) : Option (List Int) :=
  (l.mapM Stamp.date).map (List.map ZonedTime.instant)

theorem instants?_cons (s : Stamp) (l : List Stamp) : instants? (s :: l) =
    (s.date.map ZonedTime.instant).bind fun i => (instants? l).map (i :: ·) := by
  rw [instants?, instants?, List.mapM_cons]
  cases s.date with
  | none => rfl
  | some d =>
    cases l.mapM Stamp.date with
    | none => rfl
    | some ds => rfl

theorem span_cons_cons (s t : Stamp) (l : List Stamp) : span (s :: t :: l) =
    match s.date.map ZonedTime.instant, instants? (t :: l) with
    | some i, some is => instantSpan i is
    | _, _ => secondsSpan s.seconds ((t :: l).map Stamp.seconds) := by
  rw [span, instants?]
  · cases s.date with
    | none => rfl
    | some d =>
      cases (t :: l).mapM Stamp.date with
      | none => rfl
      | some ds => rfl
  · exact List.cons_ne_nil t l

end HeapChronicle.Log
