import HeapChronicle.Dispatch.Registry

/-!
What a registry holds, read from its list of entries. A registration is refused
or puts one entry behind the others, so a class keeps the entry that came first
(`register_eq_ok`); and the entry of a lineage is that of its first class that
is there (`lookup_eq`).
-/

namespace HeapChronicle.Registry

variable {α : Type} {r next : Registry α} {cls : EventClass} {entry : α}

def classes (r : Registry α) : List EventClass :=
  r.entries.map Prod.fst

theorem contains_eq_false_iff : r.contains cls = false ↔ cls ∉ r.classes := by
  rw [← Bool.not_eq_true, contains, List.contains_iff_mem, classes]

theorem isSome_get?_iff : (r.get? cls).isSome = true ↔ cls ∈ r.classes := by
  rw [get?, List.lookup_isSome_iff, classes, List.mem_map]
  constructor
  · rintro ⟨p, hp, hcls⟩
    exact ⟨p, hp, (beq_iff_eq.mp hcls).symm⟩
  · rintro ⟨p, hp, hcls⟩
    exact ⟨p, hp, beq_iff_eq.mpr hcls.symm⟩

theorem get?_eq_none (h : cls ∉ r.classes) : r.get? cls = none := by
  rw [← Option.not_isSome_iff_eq_none, isSome_get?_iff]
  exact h

/-- The entry of the first class in the lineage that is registered. -/
theorem lookup_eq (r : Registry α) (lineage : List EventClass) :
    r.lookup lineage = (lineage.find? (· ∈ r.classes)).bind r.get? := by
  induction lineage with
  | nil => rfl
  | cons cls ancestors ih =>
    rw [lookup, List.findSome?_cons]
    by_cases h : cls ∈ r.classes
    · obtain ⟨entry, hentry⟩ := Option.isSome_iff_exists.mp (isSome_get?_iff.mpr h)
      rw [List.find?_cons_of_pos (by simpa using h), Option.bind_some, hentry]
    · rw [List.find?_cons_of_neg (by simpa using h), get?_eq_none h]
      exact ih

theorem register_of_mem (h : cls ∈ r.classes) :
    r.register cls (some entry) = .error (.alreadyRegistered cls) := by
  simp only [register]
  rw [dif_neg (mt contains_eq_false_iff.mp (not_not_intro h))]

/-- A class that is not there yet is entered behind the others. -/
theorem register_of_not_mem (h : cls ∉ r.classes) :
    ∃ next, r.register cls (some entry) = .ok next ∧ next.entries = r.entries ++ [(cls, entry)] := by
  simp only [register]
  rw [dif_pos (contains_eq_false_iff.mpr h)]
  exact ⟨_, rfl, rfl⟩

theorem classes_of_entries (h : next.entries = r.entries ++ [(cls, entry)]) :
    next.classes = r.classes ++ [cls] := by
  rw [classes, h, List.map_append]
  rfl

/-- What is entered behind the others counts for a class only if it is the first
for it. -/
theorem get?_of_entries (h : next.entries = r.entries ++ [(cls, entry)]) (other : EventClass) :
    next.get? other = (r.get? other).or ([(cls, entry)].lookup other) := by
  rw [get?, h, List.lookup_append]
  rfl

/-- A new entry changes what is found for exactly those lineages in which its
class comes before all others that are registered. -/
theorem lookup_of_entries (h : next.entries = r.entries ++ [(cls, entry)]) (hnew : cls ∉ r.classes)
    (lineage : List EventClass) :
    next.lookup lineage =
      if lineage.find? (· ∈ r.classes ++ [cls]) = some cls then some entry
      else r.lookup lineage := by
  have hself : next.get? cls = some entry := by
    rw [get?_of_entries h, get?_eq_none hnew, Option.none_or, List.lookup_cons_self]
  induction lineage with
  | nil => rfl
  | cons first ancestors ih =>
    rw [lookup, lookup, List.findSome?_cons, List.findSome?_cons]
    by_cases hfirst : first = cls
    · subst hfirst
      rw [List.find?_cons_of_pos (by simp), if_pos rfl, hself]
    · have hother : next.get? first = r.get? first := by
        rw [get?_of_entries h, List.lookup_cons, beq_eq_false_iff_ne.mpr hfirst, List.lookup_nil,
          Option.or_none]
      rw [hother]
      by_cases hmem : first ∈ r.classes
      · obtain ⟨found, hfound⟩ := Option.isSome_iff_exists.mp (isSome_get?_iff.mpr hmem)
        have hpast : ¬ some first = some cls := by simpa using hfirst
        rw [List.find?_cons_of_pos (by simp [hmem]), if_neg hpast, hfound]
      · rw [List.find?_cons_of_neg (by simp [hmem, hfirst]), get?_eq_none hmem]
        exact ih

end HeapChronicle.Registry
