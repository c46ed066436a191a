import Mathlib.Data.List.TakeWhile
import ScriptDoc.Proofs.Resolution.Linking

/-! Names of resolved symbols. A path is cut at its last slash, and nothing that happens to a symbol
after that changes its names. -/
namespace ScriptDoc.Resolution

/-- Behind the last slash of a path stands its member, whatever stands before it. -/
theorem splitMember?_append_slash (parent : Text) {member : Text} (hSlash : .char '/' ∉ member) :
    splitMember? (parent ++ .char '/' :: member) =
      if member = [] ∨ parent = [] ∨ .char '\n' ∈ parent then none else some (parent, member) := by
  have hReverse : (parent ++ .char '/' :: member).reverse =
      member.reverse ++ .char '/' :: parent.reverse := by simp
  have hGoes : ∀ c ∈ member.reverse, (c != .char '/') = true := by
    intro c hMem
    rw [bne_iff_ne]
    rintro rfl
    exact hSlash (List.mem_reverse.mp hMem)
  have hTake : (member.reverse ++ .char '/' :: parent.reverse).takeWhile (· != .char '/') =
      member.reverse := by
    rw [List.takeWhile_append_of_pos hGoes]
    simp
  have hDrop : (member.reverse ++ .char '/' :: parent.reverse).dropWhile (· != .char '/') =
      .char '/' :: parent.reverse := by
    rw [List.dropWhile_append_of_pos hGoes]
    simp
  simp only [splitMember?, hReverse, hTake, hDrop, List.reverse_reverse, List.reverse_eq_nil_iff,
    List.mem_reverse]

/-- A path is cut where a member without slashes begins, if a parent on one line comes before it. -/
theorem splitMember?_eq_some_iff {path parent member : Text} :
    splitMember? path = some (parent, member) ↔
      path = parent ++ .char '/' :: member ∧ .char '/' ∉ member ∧ member ≠ [] ∧ parent ≠ [] ∧
        .char '\n' ∉ parent := by
  constructor
  · intro hSplit
    unfold splitMember? at hSplit
    dsimp only at hSplit
    split at hSplit
    · next before hBefore =>
        split at hSplit
        · cases hSplit
        · next hProper =>
            cases hSplit
            simp only [not_or] at hProper
            obtain ⟨hMember, hParent, hLine⟩ := hProper
            refine ⟨?_, ?_, hMember, by simpa using hParent, by simpa using hLine⟩
            · have hAll : _ ++ path.reverse.dropWhile (· != .char '/') = path.reverse :=
                List.takeWhile_append_dropWhile
              rw [hBefore] at hAll
              have hPath := congrArg List.reverse hAll
              simpa using hPath.symm
            · intro hSlash
              simpa using List.mem_takeWhile_imp (List.mem_reverse.mp hSlash)
    · cases hSplit
  · rintro ⟨rfl, hSlash, hMember, hParent, hLine⟩
    rw [splitMember?_append_slash parent hSlash, if_neg (by simp [hMember, hParent, hLine])]

/-- A path without slashes has no parent. -/
theorem splitMember?_eq_none_of_not_mem {path : Text} (h : .char '/' ∉ path) :
    splitMember? path = none := by
  apply Option.eq_none_iff_forall_ne_some.mpr
  rintro ⟨parent, member⟩ hSplit
  obtain ⟨rfl, _⟩ := splitMember?_eq_some_iff.mp hSplit
  exact h (by simp)

theorem dotted_of_not_mem {path : Text} (h : .char '/' ∉ path) : dotted path = path := by
  have hSame : ∀ c ∈ path, (if c = .char '/' then .char '.' else c) = id c := by
    intro c hMem
    rw [if_neg, id_eq]
    rintro rfl
    exact h hMem
  rw [dotted, Text.replace, List.map_congr_left hSame, List.map_id]

/-- A symbol without a parent in its path stays as it is. -/
theorem settle_of_none {s : Symbol} (h : splitMember? s.name = none) : settle s = s := by
  rw [settle, h]

/-- A symbol with a parent in its path gets its last part for a name. -/
theorem settle_of_some {s : Symbol} {parent member : Text}
    (h : splitMember? s.name = some (parent, member)) :
    settle s = { s with fullName := dotted s.name, name := member, memberOf := dotted parent } := by
  rw [settle, h]

/-- A member goes by a name without slashes. -/
theorem settle_name_of_memberOf {s : Symbol} (h : s.memberOf = [])
    (hMember : (settle s).memberOf ≠ []) : .char '/' ∉ (settle s).name := by
  cases hSplit : splitMember? s.name with
  | none =>
      rw [settle_of_none hSplit] at hMember
      exact absurd h hMember
  | some parts =>
      rw [settle_of_some hSplit]
      exact (splitMember?_eq_some_iff.mp hSplit).2.1

/-- What linking leaves alone is for every symbol what it was once its name was settled. -/
theorem map_linkAll {α : Type} (field : Symbol → α)
    (hMember : ∀ parent kind member, field (parent.addMember kind member) = field parent)
    (hLinked : ∀ symbols s, field (linked symbols s) = field (settle s))
    (symbols new : List Symbol) :
    (linkAll symbols new).1.map field = symbols.map field ++ new.map fun s => field (settle s) := by
  induction new generalizing symbols with
  | nil => simp [linkAll]
  | cons s rest ih =>
      change (linkAll (link symbols s).1 rest).1.map field = _
      have hJoined : (joined symbols s).map field = symbols.map field :=
        map_joinParent field hMember symbols _ _
      rw [ih, link_fst, List.map_append, hJoined, List.map_singleton, hLinked, List.append_assoc]
      rfl

end ScriptDoc.Resolution
