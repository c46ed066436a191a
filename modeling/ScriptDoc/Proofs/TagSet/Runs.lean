import Mathlib.Data.List.Forall2
import ScriptDoc.Document
import ScriptDoc.Proofs.TagSet.Log

/-! Several sets of tags side by side. They are made, copied and changed one at a time, in any
order, and beside each of them stands a plain list of entries to which the same is done. A set is at
all times the set made of its list, so what it shows can be read off that list.

Sets are values, and a copy is the same value at a place of its own. Lists of values in memory, and
whether a set and its copy share one, are not modelled: that an operation leaves all other sets alone
is a fact about places. -/
namespace ScriptDoc.TagSet

/-- What can be done with sets of tags. A set is known by its place among all that were made. -/
inductive Operation
  | make (entries : List (Text × Text))
  | add (place : Nat) (name value : Text)
  | drop (place : Nat) (name : Text)
  | copy (place : Nat)

namespace Operation

/-- The place of the set that changes. A new set and a copy change none that is there. -/
def target? : Operation → Option Nat
  | make _ => none
  | add place _ _ => some place
  | drop place _ => some place
  | copy _ => none

/-- The sets after an operation. A new set and a copy come last. -/
def onSets (sets : List TagSet) : Operation → List TagSet
  | make entries => sets ++ [ofList entries]
  | add place name value => sets.modify place (·.add name value)
  | drop place name => sets.modify place (·.drop name)
  | copy place => sets ++ sets[place]?.toList

/-- The lists of entries after an operation. -/
def onLogs (logs : List (List (Text × Text))) : Operation → List (List (Text × Text))
  | make entries => logs ++ [entries]
  | add place name value => logs.modify place (· ++ [(name, value)])
  | drop place name => logs.modify place (·.filter fun entry => entry.1 != name)
  | copy place => logs ++ logs[place]?.toList

end Operation

/-- All sets after some operations. -/
def setsAfter (operations : List Operation) : List TagSet :=
  operations.foldl Operation.onSets []

/-- All lists of entries after some operations. -/
def logsAfter (operations : List Operation) : List (List (Text × Text)) :=
  operations.foldl Operation.onLogs []

/-- What a set shows of its list of entries: the values of a name in their order, whether a name is
there, how many entries there are, and the names in the order in which they first came with the
values of each, of which there is at least one. -/
structure Shows (tags : TagSet) (log : List (Text × Text)) : Prop where
  get_eq : ∀ name, tags.get name = valuesIn log name
  has_iff : ∀ name, tags.has name = true ↔ ∃ value, (name, value) ∈ log
  size_eq : tags.size = log.length
  groups_eq : tags.groups = groupsOf log
  toJson_eq : tags.toJson = .obj ((groupsOf log).map fun group => (group.1, Json.texts group.2))
  filled : ∀ group ∈ groupsOf log, group.2 ≠ []

/-- A set shows what its log says. -/
theorem shows_ofList (log : List (Text × Text)) : Shows (ofList log) log where
  get_eq := get_ofList log
  has_iff _ := has_ofList_iff
  size_eq := size_ofList log
  groups_eq := groups_ofList log
  toJson_eq := by rw [toJson, groups_ofList]
  filled _ hGroup := (mem_groupsOf_iff.mp hGroup).1

/-- One operation does the same to the sets and to their lists. -/
theorem Operation.onSets_map (operation : Operation) (logs : List (List (Text × Text))) :
    operation.onSets (logs.map ofList) = (operation.onLogs logs).map ofList := by
  cases operation with
  | make entries => simp [onSets, onLogs]
  | add place name value =>
      simp only [onSets, onLogs, List.modify_eq_set_getElem?, List.getElem?_map]
      cases logs[place]? with
      | none => rfl
      | some log => simp [List.map_set, ofList_concat]
  | drop place name =>
      simp only [onSets, onLogs, List.modify_eq_set_getElem?, List.getElem?_map]
      cases logs[place]? with
      | none => rfl
      | some log => simp [List.map_set, drop_ofList]
  | copy place =>
      simp only [onSets, onLogs, List.getElem?_map, List.map_append]
      cases logs[place]? <;> rfl

/-- The induction is on the operations: each does the same to the sets as to their logs. -/
theorem setsAfter_eq (operations : List Operation) :
    setsAfter operations = (logsAfter operations).map ofList := by
  induction operations using List.reverseRecOn with
  | nil => rfl
  | append_singleton operations operation ih =>
      rw [setsAfter, logsAfter, List.foldl_concat, List.foldl_concat, ← operation.onSets_map]
      exact congrArg (Operation.onSets · operation) ih

section Apart

variable {sets : List TagSet} {tags : TagSet} {place : Nat}

/-- An operation leaves all sets alone but its target. -/
theorem Operation.getElem?_onSets {operation : Operation} (h : sets[place]? = some tags)
    (hOther : operation.target? ≠ some place) : (operation.onSets sets)[place]? = some tags := by
  rw [← h]
  have hPlace := (List.getElem?_eq_some_iff.mp h).1
  cases operation with
  | make entries => exact List.getElem?_append_left hPlace
  | add target name value =>
      exact List.getElem?_modify_ne _ _ fun hSame => hOther (congrArg some hSame)
  | drop target name =>
      exact List.getElem?_modify_ne _ _ fun hSame => hOther (congrArg some hSame)
  | copy source => exact List.getElem?_append_left hPlace

/-- A set that no operation is meant for stays as it is. -/
theorem getElem?_foldl_onSets {operations : List Operation} (h : sets[place]? = some tags)
    (hOther : ∀ operation ∈ operations, operation.target? ≠ some place) :
    (operations.foldl Operation.onSets sets)[place]? = some tags := by
  induction operations generalizing sets with
  | nil => exact h
  | cons operation operations ih =>
      obtain ⟨hFirst, hLater⟩ := List.forall_mem_cons.mp hOther
      exact ih (Operation.getElem?_onSets h hFirst) hLater

end Apart

/-- After any operations, each set shows its own list of entries and nothing else. Two sets are the
same exactly if every name has the same values in both, which is so exactly if they have the same
groups in whatever order. A set stays as it is, also as a copy or as what was copied, as long as no
operation has it for its target. -/
theorem sets_refine_logs (operations : List Operation) :
    List.Forall₂ Shows (setsAfter operations) (logsAfter operations) ∧
    (∀ a ∈ setsAfter operations, ∀ b ∈ setsAfter operations,
      (a.same b = true ↔ ∀ name, a.get name = b.get name) ∧
        (a.same b = true ↔ a.groups.Perm b.groups)) ∧
    ∀ (more : List Operation) (place : Nat) (tags : TagSet),
      (setsAfter operations)[place]? = some tags →
      (∀ operation ∈ more, operation.target? ≠ some place) →
        (setsAfter (operations ++ more))[place]? = some tags := by
  refine ⟨?_, ?_, ?_⟩
  · rw [setsAfter_eq, List.forall₂_map_left_iff, List.forall₂_same]
    exact fun log _ => shows_ofList log
  · intro a hFirst b hSecond
    rw [setsAfter_eq] at hFirst hSecond
    obtain ⟨log, -, rfl⟩ := List.mem_map.mp hFirst
    obtain ⟨other, -, rfl⟩ := List.mem_map.mp hSecond
    simp only [groups_ofList, get_ofList, groupsOf_perm_iff, same_ofList_iff, and_self]
  · intro more place tags hTags hOther
    rw [setsAfter, List.foldl_append]
    exact getElem?_foldl_onSets hTags hOther

/-- A set is copied; then a name is dropped from it and comes back. Another set gets the same tags
in another order. -/
def labelOperations : List Operation :=
  [.make [("param", "a"), ("return", "x"), ("param", "b")], .copy 0, .drop 0 "param",
    .add 0 "param" "c", .make [("param", "c"), ("return", "x")]]

theorem sets_refine_logs_labels :
    List.Forall₂ Shows (setsAfter labelOperations)
        [[("return", "x"), ("param", "c")], [("param", "a"), ("return", "x"), ("param", "b")],
          [("param", "c"), ("return", "x")]] ∧
      (∃ a ∈ setsAfter labelOperations, ∃ b ∈ setsAfter labelOperations,
        a.groups ≠ b.groups ∧ a.same b = true) ∧
      (setsAfter (labelOperations ++ [.drop 0 "param", .add 2 "see" "y"]))[1]? =
        some (ofList [("param", "a"), ("return", "x"), ("param", "b")]) := by
  obtain ⟨hShown, hSame, hApart⟩ := sets_refine_logs labelOperations
  have hFirst : ofList [("return", "x"), ("param", "c")] ∈ setsAfter labelOperations := by
    rw [setsAfter_eq]
    exact List.mem_map_of_mem (by decide)
  have hLast : ofList [("param", "c"), ("return", "x")] ∈ setsAfter labelOperations := by
    rw [setsAfter_eq]
    exact List.mem_map_of_mem (by decide)
  have hCopy : (setsAfter labelOperations)[1]? =
      some (ofList [("param", "a"), ("return", "x"), ("param", "b")]) := by
    rw [setsAfter_eq]
    rfl
  have hOther : ∀ operation ∈ [Operation.drop 0 "param", .add 2 "see" "y"],
      operation.target? ≠ some 1 := by decide
  exact ⟨hShown, ⟨_, hFirst, _, hLast, by decide, (hSame _ hFirst _ hLast).2.mpr (by decide)⟩,
    hApart _ 1 _ hCopy hOther⟩

end ScriptDoc.TagSet
