import Mathlib.Data.List.Induction
import Mathlib.Data.List.Nodup
import ScriptDoc.TagSet

/-! A set of tags as a view of the entries that were put into it: the names in the order in which
they first came, and for each name its values in the order of the entries. Adding and dropping tags
are operations on the entries. -/
namespace ScriptDoc.TagSet

variable {log other : List (Text × Text)} {name : Text}

/-- The values that some entries give to a name. -/
def valuesIn (log : List (Text × Text)) (name : Text) : List Text :=
  (log.filter (·.1 == name)).map Prod.snd

/-- Entries grouped by name. -/
def groupsOf (log : List (Text × Text)) : List (Text × List Text) :=
  (log.map Prod.fst).eraseDups.map fun name => (name, valuesIn log name)

theorem valuesIn_append (log more : List (Text × Text)) (name : Text) :
    valuesIn (log ++ more) name = valuesIn log name ++ valuesIn more name := by
  simp [valuesIn]

/-- A name that is not in the log has no values. -/
theorem valuesIn_eq_nil (h : name ∉ log.map Prod.fst) : valuesIn log name = [] := by
  simp only [valuesIn, List.map_eq_nil_iff, List.filter_eq_nil_iff, beq_iff_eq]
  rintro entry hMem rfl
  exact h (List.mem_map_of_mem hMem)

/-- A name at the end counts only if it is new. -/
theorem eraseDups_concat (names : List Text) (name : Text) :
    (names ++ [name]).eraseDups =
      if name ∈ names.eraseDups then names.eraseDups else names.eraseDups ++ [name] := by
  rw [List.eraseDups_append]
  by_cases hOld : name ∈ names
  · simp [List.removeAll, List.mem_eraseDups, hOld]
  · simp [List.removeAll, List.mem_eraseDups, hOld, List.eraseDups_cons]

/-- Adding to groups that are given by a function of the name changes that function in one place. -/
theorem addTo_map {names : List Text} (hDistinct : names.Nodup) {values : Text → List Text}
    {name : Text} (hNew : name ∉ names → values name = []) (value : Text) :
    addTo name value (names.map fun key => (key, values key)) =
      (if name ∈ names then names else names ++ [name]).map
        fun key => (key, values key ++ if name = key then [value] else []) := by
  induction names with
  | nil => simp [addTo, hNew]
  | cons key names ih =>
      obtain ⟨hKey, hOthers⟩ := List.nodup_cons.mp hDistinct
      by_cases hSame : key = name
      · subst hSame
        have hKept : ∀ other ∈ names, key ≠ other := fun other hMem hEq => hKey (hEq ▸ hMem)
        simp +contextual [addTo, hKept]
      · have hOther : name ≠ key := Ne.symm hSame
        have hLater : name ∉ names → values name = [] := by
          intro hNot
          exact hNew (by simp [hOther, hNot])
        rw [List.map_cons, addTo, if_neg hSame, ih hOthers hLater]
        by_cases hMem : name ∈ names
        · simp [hMem, hOther]
        · simp [hMem, hOther]

/-- Adding to the groups of a log gives the groups of the longer log. -/
theorem addTo_groupsOf (hDistinct : ((groupsOf log).map Prod.fst).Nodup) (name value : Text) :
    addTo name value (groupsOf log) = groupsOf (log ++ [(name, value)]) := by
  have hNames : (groupsOf log).map Prod.fst = (log.map Prod.fst).eraseDups := by
    simp [groupsOf, Function.comp_def]
  have hNew : name ∉ (log.map Prod.fst).eraseDups → valuesIn log name = [] := by
    rw [List.mem_eraseDups]
    exact valuesIn_eq_nil
  rw [hNames] at hDistinct
  rw [groupsOf, addTo_map hDistinct hNew, groupsOf, List.map_append, List.map_singleton,
    eraseDups_concat]
  refine List.map_congr_left fun key _ => ?_
  rw [valuesIn_append]
  by_cases hSame : name = key
  · simp [valuesIn, hSame]
  · simp [valuesIn, hSame]

theorem groups_add (tags : TagSet) (name value : Text) :
    (tags.add name value).groups = addTo name value tags.groups := rfl

theorem groups_drop (tags : TagSet) (name : Text) :
    (tags.drop name).groups = tags.groups.filter fun group => group.1 != name := rfl

/-- The set of a longer log is the set of the log with one more value. -/
theorem ofList_concat (log : List (Text × Text)) (entry : Text × Text) :
    ofList (log ++ [entry]) = (ofList log).add entry.1 entry.2 := by
  simp [ofList]

/-- A set that is made of entries groups them. -/
theorem groups_ofList (log : List (Text × Text)) : (ofList log).groups = groupsOf log := by
  induction log using List.reverseRecOn with
  | nil => rfl
  | append_singleton log entry ih =>
      have hDistinct := (ofList log).distinct
      rw [ih] at hDistinct
      rw [ofList_concat, groups_add, ih, addTo_groupsOf hDistinct]

/-! What a set shows of its entries. -/

theorem valuesIn_ne_nil_iff : valuesIn log name ≠ [] ↔ name ∈ log.map Prod.fst := by
  refine ⟨fun hFilled => by_contra fun hNot => hFilled (valuesIn_eq_nil hNot), fun hMem => ?_⟩
  obtain ⟨entry, hEntry, rfl⟩ := List.mem_map.mp hMem
  have hKept : entry ∈ log.filter (·.1 == entry.1) :=
    List.mem_filter.mpr ⟨hEntry, beq_self_eq_true _⟩
  exact List.ne_nil_of_mem (List.mem_map_of_mem hKept)

/-- The groups are those of the names that have values, with all their values. -/
theorem mem_groupsOf_iff {values : List Text} :
    (name, values) ∈ groupsOf log ↔ values ≠ [] ∧ values = valuesIn log name := by
  simp only [groupsOf, List.mem_map, List.mem_eraseDups, Prod.mk.injEq]
  constructor
  · rintro ⟨key, hKey, rfl, rfl⟩
    exact ⟨valuesIn_ne_nil_iff.mpr (List.mem_map.mpr hKey), rfl⟩
  · rintro ⟨hFilled, rfl⟩
    exact ⟨name, List.mem_map.mp (valuesIn_ne_nil_iff.mp hFilled), rfl, rfl⟩

/-- A set shows the values of a name in the order of the log. -/
theorem get_ofList (log : List (Text × Text)) (name : Text) :
    (ofList log).get name = valuesIn log name := by
  rw [get, groups_ofList]
  cases hLookup : (groupsOf log).lookup name with
  | none =>
      by_contra hFilled
      have hGroup := mem_groupsOf_iff.mpr ⟨Ne.symm hFilled, rfl⟩
      simpa using List.lookup_eq_none_iff.mp hLookup _ hGroup
  | some values =>
      obtain ⟨before, after, hGroups, -⟩ := List.lookup_eq_some_iff.mp hLookup
      have hGroup : (name, values) ∈ groupsOf log := by simp [hGroups]
      exact (mem_groupsOf_iff.mp hGroup).2

/-- A name is there exactly if the log has an entry of this name. -/
theorem has_ofList_iff : (ofList log).has name = true ↔ ∃ value, (name, value) ∈ log := by
  rw [has, get_ofList, Bool.not_eq_eq_eq_not, Bool.not_true, List.isEmpty_eq_false_iff,
    valuesIn_ne_nil_iff]
  simp

theorem length_flatMap_addTo (name value : Text) (groups : List (Text × List Text)) :
    ((addTo name value groups).flatMap Prod.snd).length =
      (groups.flatMap Prod.snd).length + 1 := by
  fun_induction addTo name value groups with
  | case1 => rfl
  | case2 values rest => simp +arith
  | case3 first values rest hOther ih =>
      rw [List.flatMap_cons, List.flatMap_cons, List.length_append, List.length_append, ih,
        Nat.add_assoc]

/-- A set has as many values as its log has entries. -/
theorem size_ofList (log : List (Text × Text)) : (ofList log).size = log.length := by
  induction log using List.reverseRecOn with
  | nil => rfl
  | append_singleton log entry ih =>
      rw [size] at ih ⊢
      rw [ofList_concat, groups_add, length_flatMap_addTo, ih, List.length_append,
        List.length_singleton]

theorem valuesIn_eq_of_groups
    (hThere : ∀ group ∈ groupsOf log, valuesIn other group.1 = group.2)
    (hBack : ∀ group ∈ groupsOf other, valuesIn log group.1 = group.2) (name : Text) :
    valuesIn log name = valuesIn other name := by
  by_cases hNone : valuesIn log name = []
  · by_cases hOther : valuesIn other name = []
    · rw [hNone, hOther]
    · exact hBack (name, _) (mem_groupsOf_iff.mpr ⟨hOther, rfl⟩)
  · exact (hThere (name, _) (mem_groupsOf_iff.mpr ⟨hNone, rfl⟩)).symm

/-- Sets are the same exactly if their logs have the same values for every name. -/
theorem same_ofList_iff : (ofList log).same (ofList other) = true ↔
    ∀ name, valuesIn log name = valuesIn other name := by
  simp only [same, groups_ofList, get_ofList, Bool.and_eq_true, List.all_eq_true, beq_iff_eq]
  refine ⟨fun hSame => valuesIn_eq_of_groups hSame.1 hSame.2, fun hSame => ⟨?_, ?_⟩⟩
  · intro group hGroup
    rw [← hSame, ← (mem_groupsOf_iff.mp hGroup).2]
  · intro group hGroup
    rw [hSame, ← (mem_groupsOf_iff.mp hGroup).2]

/-- The values of all names give the groups but for their order. This fails if a name may be kept
without values. -/
theorem groupsOf_perm_iff : (groupsOf log).Perm (groupsOf other) ↔
    ∀ name, valuesIn log name = valuesIn other name := by
  have hNodup (log : List (Text × Text)) : (groupsOf log).Nodup :=
    groups_ofList log ▸ List.Nodup.of_map Prod.fst (ofList log).distinct
  constructor
  · intro hPerm
    refine valuesIn_eq_of_groups (fun group hGroup => ?_) (fun group hGroup => ?_)
    · exact (mem_groupsOf_iff.mp (hPerm.mem_iff.mp hGroup)).2.symm
    · exact (mem_groupsOf_iff.mp (hPerm.mem_iff.mpr hGroup)).2.symm
  · intro hSame
    rw [List.perm_ext_iff_of_nodup (hNodup log) (hNodup other)]
    rintro ⟨name, values⟩
    rw [mem_groupsOf_iff, mem_groupsOf_iff, hSame]

/-! Taking entries out. -/

/-- A value of another name can be added before or after a name is taken out. -/
theorem filter_addTo (key value name : Text) (groups : List (Text × List Text)) :
    (addTo key value groups).filter (fun group => group.1 != name) =
      if key = name then groups.filter (fun group => group.1 != name)
      else addTo key value (groups.filter fun group => group.1 != name) := by
  fun_induction addTo key value groups with
  | case1 =>
      by_cases hName : key = name
      · simp [hName]
      · simp [hName, addTo]
  | case2 values rest =>
      by_cases hName : key = name
      · simp [hName]
      · simp [hName, addTo]
  | case3 first values rest hOther ih =>
      rw [List.filter_cons, List.filter_cons, ih]
      by_cases hFirst : first = name
      · simp [hFirst]
      · by_cases hName : key = name
        · simp [hFirst, hName]
        · simp [hFirst, hName, addTo, hOther]

theorem eq_of_groups_eq {a b : TagSet} (h : a.groups = b.groups) : a = b := by
  cases a
  cases b
  cases h
  rfl

/-- Dropping a name from a set drops its entries, so a name that is added again comes last. -/
theorem drop_ofList (log : List (Text × Text)) (name : Text) :
    (ofList log).drop name = ofList (log.filter fun entry => entry.1 != name) := by
  induction log using List.reverseRecOn with
  | nil => rfl
  | append_singleton log entry ih =>
      have hGroups := congrArg groups ih
      rw [groups_drop] at hGroups
      apply eq_of_groups_eq
      rw [groups_drop, ofList_concat, groups_add, filter_addTo, hGroups, List.filter_append]
      by_cases hName : entry.1 = name
      · simp [hName]
      · simp [hName, ofList_concat, groups_add]

end ScriptDoc.TagSet
