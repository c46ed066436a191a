import ScriptDoc.Text.Basic

/-! The tags of a doc comment: names with their values. A name may come more than once and then has
several values, in the order in which they came; names are kept in the order of their first value.
No name is kept twice, and none without a value. -/
namespace ScriptDoc

/-- Values grouped by tag name. -/
structure TagSet where
  groups : List (Text × List Text)
  distinct : (groups.map Prod.fst).Nodup
  filled : ∀ group ∈ groups, group.2 ≠ []
  deriving Repr

namespace TagSet

def empty : TagSet :=
  ⟨[], List.nodup_nil, nofun⟩

instance : Inhabited TagSet :=
  ⟨empty⟩

/-- Adds a value to the group of its name, or a new group at the end. -/
def addTo (name value : Text) : List (Text × List Text) → List (Text × List Text)
  | [] => [(name, [value])]
  | (key, values) :: rest =>
    if key = name then (key, values ++ [value]) :: rest else (key, values) :: addTo name value rest

/-- Adding a value brings in no name but its own. -/
theorem mem_keys_addTo {name value key : Text} {groups : List (Text × List Text)} :
    key ∈ (addTo name value groups).map Prod.fst ↔ key = name ∨ key ∈ groups.map Prod.fst := by
  fun_induction addTo name value groups with
  | case1 => simp
  | case2 values rest => simp
  | case3 first values rest hOther ih =>
      rw [List.map_cons, List.mem_cons, ih, List.map_cons, List.mem_cons]
      exact or_left_comm

/-- Adding a value keeps the names distinct. -/
theorem nodup_keys_addTo {name value : Text} {groups : List (Text × List Text)}
    (h : (groups.map Prod.fst).Nodup) : ((addTo name value groups).map Prod.fst).Nodup := by
  induction groups with
  | nil => simp [addTo]
  | cons group rest ih =>
    rw [List.map_cons, List.nodup_cons] at h
    by_cases hName : group.1 = name
    · simpa only [addTo, hName, ↓reduceIte, List.map_cons, List.nodup_cons] using h
    · have hKey : group.1 ∉ (addTo name value rest).map Prod.fst := fun hMem =>
        (mem_keys_addTo.mp hMem).elim hName h.1
      simpa only [addTo, hName, ↓reduceIte, List.map_cons] using
        List.nodup_cons.mpr ⟨hKey, ih h.2⟩

/-- Adding a value leaves no name without one. -/
theorem filled_addTo {name value : Text} {groups : List (Text × List Text)}
    (h : ∀ group ∈ groups, group.2 ≠ []) : ∀ group ∈ addTo name value groups, group.2 ≠ [] := by
  induction groups with
  | nil => simp [addTo]
  | cons first rest ih =>
    rw [List.forall_mem_cons] at h
    by_cases hName : first.1 = name
    · simpa only [addTo, hName, ↓reduceIte, List.forall_mem_cons] using
        And.intro (List.append_ne_nil_of_right_ne_nil _ (List.cons_ne_nil _ _)) h.2
    · simpa only [addTo, hName, ↓reduceIte, List.forall_mem_cons] using And.intro h.1 (ih h.2)

def add (tags : TagSet) (name value : Text) : TagSet :=
  ⟨addTo name value tags.groups, nodup_keys_addTo tags.distinct, filled_addTo tags.filled⟩

def ofList (entries : List (Text × Text)) : TagSet :=
  entries.foldl (fun tags entry => tags.add entry.1 entry.2) empty

/-- All values of a name, none if there is no such tag. -/
def get (tags : TagSet) (name : Text) : List Text :=
  (tags.groups.lookup name).getD []

def has (tags : TagSet) (name : Text) : Bool :=
  !(tags.get name).isEmpty

def drop (tags : TagSet) (name : Text) : TagSet :=
  ⟨tags.groups.filter fun group => group.1 != name,
    tags.distinct.sublist (List.filter_sublist.map Prod.fst),
    fun group hMem => tags.filled group (List.mem_filter.mp hMem).1⟩

def size (tags : TagSet) : Nat :=
  (tags.groups.flatMap Prod.snd).length

/-- Whether two sets have the same values for every name; the order of names does not count. -/
def same (a b : TagSet) : Bool :=
  a.groups.all (fun group => b.get group.1 == group.2) &&
    b.groups.all (fun group => a.get group.1 == group.2)

end TagSet
end ScriptDoc
