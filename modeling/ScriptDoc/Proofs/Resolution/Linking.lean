import Mathlib.Data.List.Basic
import ScriptDoc.Proofs.Resolution.Relations

/-! Linking puts into every symbol exactly the members and the inherited members that the relations
of the finished list give. The invariant holds after each symbol that is linked. A step changes
earlier symbols in their member lists only, so all that was said about them before stays true. -/
namespace ScriptDoc

namespace Symbol

/-- The kind of the symbols that a member list holds. -/
def MemberList.kind : MemberList → Kind
  | .methods => .function
  | .properties => .object

/-- A symbol's own members, by list. -/
def own (s : Symbol) : MemberList → List Ref
  | .methods => s.methods
  | .properties => s.properties

/-- The members that a symbol has from its bases, by list. -/
def inherited (s : Symbol) : MemberList → List Ref
  | .methods => s.inheritedMethods
  | .properties => s.inheritedProperties

/-- A symbol that belongs to no other one and has no members of any sort. -/
structure Unrelated (s : Symbol) : Prop where
  memberOf : s.memberOf = []
  own : ∀ list, s.own list = []
  inherited : ∀ list, s.inherited list = []

/-- A member comes last in the list for its kind, and in no other. -/
theorem own_addMember (parent : Symbol) (kind : Kind) (member : Ref) (list : MemberList) :
    (parent.addMember kind member).own list =
      parent.own list ++ if kind = list.kind then [member] else [] := by
  cases kind <;> cases list <;> simp [addMember, Kind.memberList?, own, MemberList.kind]

theorem inherited_addMember (parent : Symbol) (kind : Kind) (member : Ref) (list : MemberList) :
    (parent.addMember kind member).inherited list = parent.inherited list := by
  cases kind <;> cases list <;> rfl

end Symbol

namespace Resolution

/-- Members apart, a parent stays as it is. -/
theorem withoutMembers_addMember (parent : Symbol) (kind : Symbol.Kind) (member : Symbol.Ref) :
    withoutMembers (parent.addMember kind member) = withoutMembers parent := by
  cases kind <;> rfl

theorem inherits_addMember (parent : Symbol) (kind : Symbol.Kind) (member : Symbol.Ref) :
    (parent.addMember kind member).inherits = parent.inherits := by
  cases kind <;> rfl

/-- A path that splits has a parent, though its name may be made of dots alone. -/
theorem splitMember?_parent_ne_nil {path parent member : Text}
    (h : splitMember? path = some (parent, member)) : parent ≠ [] := by
  unfold splitMember? at h
  dsimp only at h
  split at h
  · split at h
    · cases h
    · next hEmpty =>
        cases h
        intro hParent
        exact hEmpty (Or.inr (Or.inl (List.reverse_eq_nil_iff.mp hParent)))
  · cases h

theorem settle_kind (s : Symbol) : (settle s).kind = s.kind := by
  unfold settle
  split <;> rfl

theorem settle_own (s : Symbol) (list : Symbol.MemberList) : (settle s).own list = s.own list := by
  unfold settle
  split <;> cases list <;> rfl

theorem settle_inherited (s : Symbol) (list : Symbol.MemberList) :
    (settle s).inherited list = s.inherited list := by
  unfold settle
  split <;> cases list <;> rfl

/-- Of symbols that belong to nothing yet, those with a path that splits come to name a parent. -/
theorem isMember_iff {s : Symbol} (h : s.memberOf = []) :
    isMember s = true ↔ (settle s).memberOf ≠ [] := by
  unfold isMember settle
  cases hSplit : splitMember? s.name with
  | none => simp [h]
  | some parts =>
      obtain ⟨parent, member⟩ := parts
      have hParent := splitMember?_parent_ne_nil hSplit
      simpa [dotted, Text.replace] using hParent

/-- The place of the parent that a settled symbol names, if the list has it. -/
def target? (symbols : List Symbol) (s : Symbol) : Option Nat :=
  if s.memberOf = [] then none else Symbol.indexOf? symbols s.memberOf

variable {symbols : List Symbol} {s : Symbol}

/-- Joining a parent leaves alone whatever of a symbol does not depend on its members. -/
theorem map_joinParent {α : Type} (field : Symbol → α)
    (hField : ∀ parent kind member, field (parent.addMember kind member) = field parent)
    (symbols : List Symbol) (member : Bool) (s : Symbol) :
    (joinParent symbols member s).1.map field = symbols.map field := by
  unfold joinParent
  split
  · split
    · apply List.ext_getElem?
      intro place
      simp only [List.getElem?_map, List.getElem?_modify, Option.map_eq_map, Option.map_map]
      congr 1
      funext p
      simp only [Function.comp_apply]
      split
      · exact hField _ _ _
      · rfl
    · rfl
  · rfl

/-- A symbol that belonged to nothing joins the parent that its settled name gives, or is reported
if it names one that is not there. -/
theorem joinParent_settle (h : s.memberOf = []) :
    joinParent symbols (isMember s) (settle s) =
      match target? symbols (settle s) with
      | some parent =>
        (symbols.modify parent fun p => p.addMember s.kind (.here symbols.length), [])
      | none =>
        (symbols, if (settle s).memberOf = [] then []
          else [unfoundParent (settle s).name (settle s).memberOf]) := by
  unfold joinParent target?
  by_cases hMember : isMember s = true
  · have hNamed := (isMember_iff h).mp hMember
    cases Symbol.indexOf? symbols (settle s).memberOf with
    | none => simp [hMember, hNamed]
    | some parent => simp [hMember, hNamed, settle_kind]
  · have hNamed : (settle s).memberOf = [] :=
      Decidable.not_not.mp fun hNot => hMember ((isMember_iff h).mpr hNot)
    rw [if_neg hMember, if_pos hNamed, if_pos hNamed]

/-- What is taken over from bases, by list. -/
def Inheritance.taken (i : Inheritance) : Symbol.MemberList → List Symbol.Ref
  | .methods => i.methods
  | .properties => i.properties

/-- Symbols are found by name at the first place with this name. -/
theorem find?_eq_bind_indexOf? (symbols : List Symbol) (name : Text) :
    (symbols.find? fun s => s.fullName == name) =
      (Symbol.indexOf? symbols name).bind (symbols[·]?) :=
  List.find?_eq_bind_findIdx?_getElem?

/-- What is taken over is what the bases have in their own lists, in the order of their names. -/
theorem inheritance_taken (bases : List Text) (list : Symbol.MemberList) :
    (inheritance symbols bases).taken list = bases.flatMap fun base =>
      match (Symbol.indexOf? symbols base).bind (symbols[·]?) with
      | some b => b.own list
      | none => [] := by
  induction bases with
  | nil => cases list <;> rfl
  | cons base bases ih =>
      rw [List.flatMap_cons, ← ih, inheritance, find?_eq_bind_indexOf?]
      cases (Symbol.indexOf? symbols base).bind (symbols[·]?) with
      | none => cases list <;> rfl
      | some b => cases list <;> rfl

/-- There is a message for each base that is not there. -/
theorem inheritance_messages (bases : List Text) :
    (inheritance symbols bases).messages =
      (bases.filter fun base => Symbol.indexOf? symbols base == none).map unfoundBase := by
  induction bases with
  | nil => rfl
  | cons base bases ih =>
      rw [inheritance, List.filter_cons, find?_eq_bind_indexOf?]
      cases hFound : Symbol.indexOf? symbols base with
      | none => simp [ih]
      | some place =>
          obtain ⟨hPlace, _⟩ := List.findIdx?_eq_some_iff_getElem.mp hFound
          simp [hPlace, ih]

/-- The earlier symbols while the bases of a new one are looked up: it has joined its parent but
is not among them yet. -/
def joined (symbols : List Symbol) (s : Symbol) : List Symbol :=
  (joinParent symbols (isMember s) (settle s)).1

/-- The symbol that linking appends. -/
def linked (symbols : List Symbol) (s : Symbol) : Symbol :=
  { settle s with
    inheritedMethods :=
      (settle s).inheritedMethods ++ (inheritance (joined symbols s) (settle s).inherits).methods
    inheritedProperties :=
      (settle s).inheritedProperties ++
        (inheritance (joined symbols s) (settle s).inherits).properties }

theorem link_fst (symbols : List Symbol) (s : Symbol) :
    (link symbols s).1 = joined symbols s ++ [linked symbols s] := rfl

theorem link_snd (symbols : List Symbol) (s : Symbol) :
    (link symbols s).2 = (joinParent symbols (isMember s) (settle s)).2 ++
      (inheritance (joined symbols s) (settle s).inherits).messages := rfl

/-- Joining a parent adds no symbol. -/
theorem joined_length (symbols : List Symbol) (s : Symbol) :
    (joined symbols s).length = symbols.length := by
  simpa [joined] using congrArg List.length
    (map_joinParent (fun _ => ()) (fun _ _ _ => rfl) symbols (isMember s) (settle s))

/-- Joining a parent appends to one of its member lists. -/
theorem joined_getElem? (h : s.memberOf = []) (place : Nat) :
    (joined symbols s)[place]? = symbols[place]?.map fun p =>
      if target? symbols (settle s) = some place then p.addMember s.kind (.here symbols.length)
      else p := by
  rw [joined, joinParent_settle h]
  cases target? symbols (settle s) with
  | none => simp
  | some parent => simp [List.getElem?_modify]

theorem link_length (symbols : List Symbol) (s : Symbol) :
    (link symbols s).1.length = symbols.length + 1 := by
  rw [link_fst, List.length_append, joined_length, List.length_singleton]

theorem linked_own (symbols : List Symbol) (s : Symbol) (list : Symbol.MemberList) :
    (linked symbols s).own list = s.own list := by
  rw [← settle_own s list]
  cases list <;> rfl

/-- A symbol inherits what its bases have when it is linked. -/
theorem linked_inherited (symbols : List Symbol) (s : Symbol) (list : Symbol.MemberList) :
    (linked symbols s).inherited list = s.inherited list ++
      (inheritance (joined symbols s) (settle s).inherits).taken list := by
  rw [← settle_inherited s list]
  cases list <;> rfl

/-- Linking keeps the earlier symbols, apart from the members of one of them. -/
theorem link_agreeBefore (symbols : List Symbol) (s : Symbol) :
    AgreeBefore symbols.length symbols (link symbols s).1 := by
  intro place hPlace
  rw [link_fst, List.getElem?_append_left (by rwa [joined_length]), ← List.getElem?_map,
    ← List.getElem?_map, joined, map_joinParent withoutMembers withoutMembers_addMember]

theorem link_getElem?_length (symbols : List Symbol) (s : Symbol) :
    (link symbols s).1[symbols.length]? = some (linked symbols s) := by
  rw [link_fst, ← joined_length symbols s, List.getElem?_concat_length]

/-- Names looked up while a symbol is linked are looked up before its place in the result. -/
theorem placeBefore?_link (symbols : List Symbol) (s : Symbol) (name : Text) :
    placeBefore? (link symbols s).1 symbols.length name = Symbol.indexOf? symbols name := by
  rw [← (link_agreeBefore symbols s).placeBefore?_eq, placeBefore?_length]

/-- The names that a symbol can refer to are those before it. -/
theorem indexOf?_joined (symbols : List Symbol) (s : Symbol) (name : Text) :
    Symbol.indexOf? (joined symbols s) name =
      placeBefore? (link symbols s).1 symbols.length name := by
  rw [← placeBefore?_length, joined_length, link_fst]
  apply AgreeBefore.placeBefore?_eq
  intro place hPlace
  rw [List.getElem?_append_left (by rwa [joined_length])]

/-- The parent of a symbol is looked for among those before it. -/
theorem parent?_link (symbols : List Symbol) (s : Symbol) :
    parent? (link symbols s).1 symbols.length = target? symbols (settle s) := by
  rw [parent?, link_getElem?_length, Option.bind_some, placeBefore?_link]
  rfl

/-- Every symbol has the members and the inherited members that the relations of the list give. -/
structure Linked (symbols : List Symbol) : Prop where
  own : ∀ list place s, symbols[place]? = some s →
    s.own list = (members symbols list.kind symbols.length place).map .here
  inherited : ∀ list place s, symbols[place]? = some s →
    s.inherited list = (baseMembers symbols list.kind place s.inherits).map .here

theorem Linked.nil : Linked [] where
  own := nofun
  inherited := nofun

/-- The members up to a new symbol are those before it, and itself under its parent. -/
theorem members_link (symbols : List Symbol) (s : Symbol) (kind : Symbol.Kind) (place : Nat) :
    members (link symbols s).1 kind (symbols.length + 1) place =
      members symbols kind symbols.length place ++
        if target? symbols (settle s) = some place ∧ s.kind = kind then [symbols.length]
        else [] := by
  rw [members_succ, ← (link_agreeBefore symbols s).members_eq, parent?_link, link_getElem?_length]
  simp only [Option.map_some, Option.some.injEq, and_comm]
  rw [show (linked symbols s).kind = s.kind from settle_kind s]

/-- A place of the result is that of an earlier symbol, perhaps with one more member, or the last
one. -/
theorem link_getElem?_cases (h : s.memberOf = []) {place : Nat} {t : Symbol}
    (hAt : (link symbols s).1[place]? = some t) :
    (∃ p, symbols[place]? = some p ∧ t =
      if target? symbols (settle s) = some place then p.addMember s.kind (.here symbols.length)
      else p) ∨ (place = symbols.length ∧ t = linked symbols s) := by
  by_cases hPlace : place < symbols.length
  · rw [link_fst, List.getElem?_append_left (by rwa [joined_length]), joined_getElem? h,
      Option.map_eq_some_iff] at hAt
    obtain ⟨p, hp, ht⟩ := hAt
    exact Or.inl ⟨p, hp, ht.symm⟩
  · have hLast : place = symbols.length := by
      have hLt := (List.getElem?_eq_some_iff.mp hAt).1
      rw [link_length] at hLt
      omega
    rw [hLast, link_getElem?_length] at hAt
    exact Or.inr ⟨hLast, (Option.some.inj hAt).symm⟩

/-- The own lists are right after one more symbol. -/
theorem Linked.own_link (h : Linked symbols) (hNew : s.Unrelated) (list : Symbol.MemberList)
    (place : Nat) (t : Symbol) (hAt : (link symbols s).1[place]? = some t) :
    t.own list = (members (link symbols s).1 list.kind (symbols.length + 1) place).map .here := by
  obtain ⟨p, hp, rfl⟩ | ⟨rfl, rfl⟩ := link_getElem?_cases hNew.memberOf hAt
  · rw [members_link, List.map_append, ← h.own list place p hp]
    by_cases hTarget : target? symbols (settle s) = some place
    · rw [if_pos hTarget, Symbol.own_addMember]
      simp only [hTarget, true_and]
      split <;> rfl
    · simp [hTarget]
  · rw [linked_own, hNew.own, members_eq_nil_of_le (Nat.le_refl _), List.map_nil]

/-- The snapshot that a symbol takes of its bases: at that moment a base lists the members before
the symbol, and the symbol itself if the base is its parent. -/
theorem Linked.inherited_link_length (h : Linked symbols) (hNew : s.Unrelated)
    (list : Symbol.MemberList) :
    (linked symbols s).inherited list =
      (baseMembers (link symbols s).1 list.kind symbols.length (settle s).inherits).map .here := by
  rw [linked_inherited, hNew.inherited, List.nil_append, inheritance_taken, baseMembers,
    List.map_flatMap]
  congr 1
  funext base
  rw [indexOf?_joined]
  cases hFound : placeBefore? (link symbols s).1 symbols.length base with
  | none => rfl
  | some place =>
      obtain ⟨hPlace, _⟩ := placeBefore?_eq_some_iff.mp hFound
      have hLt : place < (joined symbols s).length := by rwa [joined_length]
      -- The base is not the new symbol, so it has its final place already.
      rw [Option.bind_some, List.getElem?_eq_getElem hLt]
      apply h.own_link hNew
      rw [link_fst, List.getElem?_append_left hLt, List.getElem?_eq_getElem hLt]

/-- One more symbol keeps the invariant. -/
theorem Linked.link (h : Linked symbols) (hNew : s.Unrelated) : Linked (link symbols s).1 where
  own := by
    intro list place t hAt
    rw [link_length]
    exact h.own_link hNew list place t hAt
  inherited := by
    intro list place t hAt
    obtain ⟨p, hp, rfl⟩ | ⟨rfl, rfl⟩ := link_getElem?_cases hNew.memberOf hAt
    · have hPlace := (List.getElem?_eq_some_iff.mp hp).1
      rw [← (link_agreeBefore symbols s).baseMembers_eq hPlace]
      split
      · rw [Symbol.inherited_addMember, inherits_addMember, h.inherited list place p hp]
      · exact h.inherited list place p hp
    · exact h.inherited_link_length hNew list

/-- Whether there is word of a parent is settled when the symbol is linked. -/
theorem parentWarnings_link (h : s.memberOf = []) :
    parentWarnings (link symbols s).1 symbols.length =
      (joinParent symbols (isMember s) (settle s)).2 := by
  rw [parentWarnings, link_getElem?_length]
  change (if (settle s).memberOf ≠ [] ∧
      placeBefore? (Resolution.link symbols s).1 symbols.length (settle s).memberOf = none then
    [unfoundParent (settle s).name (settle s).memberOf] else []) = _
  rw [placeBefore?_link, joinParent_settle h, target?]
  by_cases hNamed : (settle s).memberOf = []
  · simp [hNamed]
  · cases hParent : Symbol.indexOf? symbols (settle s).memberOf with
    | none => simp [hNamed]
    | some parent => simp [hNamed]

/-- Whether there is word of a base is settled when the symbol is linked. -/
theorem baseWarnings_link (symbols : List Symbol) (s : Symbol) :
    baseWarnings (link symbols s).1 symbols.length =
      (inheritance (joined symbols s) (settle s).inherits).messages := by
  rw [baseWarnings, link_getElem?_length, inheritance_messages]
  simp only [indexOf?_joined]
  rfl

/-- The warnings about all symbols of a list, in their order. -/
def allWarnings (symbols : List Symbol) : List Log.Message :=
  (List.range symbols.length).flatMap (warnings symbols)

/-- What is said about earlier symbols stays, and the messages of a step are the warnings about its
symbol. -/
theorem allWarnings_link (h : s.memberOf = []) :
    allWarnings (link symbols s).1 = allWarnings symbols ++ (link symbols s).2 := by
  have hEarlier : (List.range symbols.length).flatMap (warnings (link symbols s).1) =
      (List.range symbols.length).flatMap (warnings symbols) := by
    apply List.flatMap_congr
    intro place hMem
    exact ((link_agreeBefore symbols s).warnings_eq (List.mem_range.mp hMem)).symm
  rw [allWarnings, link_length, List.range_succ, List.flatMap_append, hEarlier,
    List.flatMap_singleton, warnings, parentWarnings_link h, baseWarnings_link, link_snd]
  rfl

/-- A whole run keeps the invariant, and its messages are the warnings about the symbols it adds. -/
theorem Linked.linkAll {new : List Symbol} (h : Linked symbols) (hNew : ∀ s ∈ new, s.Unrelated) :
    Linked (linkAll symbols new).1 ∧
      allWarnings (linkAll symbols new).1 = allWarnings symbols ++ (linkAll symbols new).2 := by
  induction new generalizing symbols with
  | nil => exact ⟨h, (List.append_nil _).symm⟩
  | cons s rest ih =>
      have hFirst := hNew s List.mem_cons_self
      have hRest : ∀ t ∈ rest, t.Unrelated := fun t ht => hNew t (List.mem_cons_of_mem _ ht)
      obtain ⟨hLinked, hWarnings⟩ := ih (h.link hFirst) hRest
      refine ⟨hLinked, ?_⟩
      change allWarnings (Resolution.linkAll (Resolution.link symbols s).1 rest).1 =
        allWarnings symbols ++ ((Resolution.link symbols s).2 ++
          (Resolution.linkAll (Resolution.link symbols s).1 rest).2)
      rw [hWarnings, allWarnings_link hFirst.memberOf, List.append_assoc]

end Resolution
end ScriptDoc
