import ScriptDoc.Text.Basic

/-! Entries under names. What is put under a name is found there and changes nothing under other
names, and no name comes to stand twice. As long as none does, to be an entry and to be found under
one's name are the same. -/
namespace ScriptDoc.Text

variable {α : Type} {name key : Text} {value : α} {entries : List (Text × α)}

theorem mem_of_lookup (h : entries.lookup name = some value) : (name, value) ∈ entries := by
  obtain ⟨before, after, rfl, _⟩ := List.lookup_eq_some_iff.mp h
  exact List.mem_append_right _ List.mem_cons_self

/-- No entry hides another one if all names differ. -/
theorem lookup_of_mem (hNodup : (entries.map Prod.fst).Nodup) (h : (name, value) ∈ entries) :
    entries.lookup name = some value := by
  obtain ⟨before, after, rfl⟩ := List.append_of_mem h
  refine List.lookup_eq_some_iff.mpr ⟨before, after, rfl, ?_⟩
  intro entry hMem
  rw [List.map_append, List.map_cons, List.nodup_append] at hNodup
  exact bne_iff_ne.mpr
    (hNodup.2.2 entry.1 (List.mem_map_of_mem hMem) name List.mem_cons_self).symm

/-- What is put under a name is found there, and under other names what was there before. -/
theorem lookup_putEntry (name key : Text) (value : α) (entries : List (Text × α)) :
    (putEntry name value entries).lookup key =
      if key = name then some value else entries.lookup key := by
  induction entries with
  | nil =>
      rw [putEntry, List.lookup_cons]
      by_cases hKey : key = name
      · simp [hKey]
      · simp [hKey, beq_false_of_ne hKey]
  | cons entry entries ih =>
      obtain ⟨first, old⟩ := entry
      rw [putEntry]
      by_cases hFirst : first = name
      · subst hFirst
        rw [if_pos rfl, List.lookup_cons, List.lookup_cons]
        by_cases hKey : key = first
        · simp [hKey]
        · simp [hKey, beq_false_of_ne hKey]
      · rw [if_neg hFirst, List.lookup_cons, List.lookup_cons, ih]
        by_cases hKey : key = first
        · simp [hKey, hFirst]
        · simp [beq_false_of_ne hKey]

/-- Nothing else gets in. -/
theorem mem_putEntry {entry : Text × α} (h : entry ∈ putEntry name value entries) :
    entry = (name, value) ∨ entry ∈ entries := by
  fun_induction putEntry name value entries with
  | case1 => exact .inl (List.mem_singleton.mp h)
  | case2 old rest =>
      rcases List.mem_cons.mp h with rfl | hMem
      · exact .inl rfl
      · exact .inr (List.mem_cons_of_mem _ hMem)
  | case3 key old rest _ ih =>
      rcases List.mem_cons.mp h with rfl | hMem
      · exact .inr List.mem_cons_self
      · exact (ih hMem).imp_right (List.mem_cons_of_mem _)

/-- Putting something under a name gives no name two entries. -/
theorem nodup_putEntry (h : (entries.map Prod.fst).Nodup) :
    ((putEntry name value entries).map Prod.fst).Nodup := by
  fun_induction putEntry name value entries with
  | case1 => simp
  | case2 old rest => exact h
  | case3 key old rest hOther ih =>
      obtain ⟨hFirst, hRest⟩ := List.nodup_cons.mp h
      refine List.nodup_cons.mpr ⟨?_, ih hRest⟩
      intro hMem
      obtain ⟨entry, hEntry, hKey⟩ := List.mem_map.mp hMem
      rcases mem_putEntry hEntry with rfl | hOld
      · exact hOther hKey.symm
      · exact hFirst (List.mem_map.mpr ⟨entry, hOld, hKey⟩)

/-- An entry of a new name comes last. -/
theorem putEntry_of_nodup {others : List (Text × α)}
    (h : ((entries ++ (name, value) :: others).map Prod.fst).Nodup) :
    putEntry name value entries = entries ++ [(name, value)] := by
  fun_induction putEntry name value entries with
  | case1 => rfl
  | case2 old rest => simp at h
  | case3 key old rest _ ih =>
      rw [List.cons_append, List.map_cons, List.nodup_cons] at h
      rw [ih h.2, List.cons_append]

end ScriptDoc.Text
