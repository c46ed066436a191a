import Mathlib.Data.List.Nodup
import ScriptDoc.Proofs.Resolution.Linking

/-! Members and inherited members in the document of a file. For raw symbols as they are first made,
the lists of every symbol and the log are determined by the relations of the finished list. -/
namespace ScriptDoc

/-- A symbol as it is first made: known by its name alone, and related to no other. -/
structure Symbol.IsFresh (s : Symbol) : Prop extends Symbol.Unrelated s where
  fullName : s.fullName = s.name

theorem Symbol.isFresh_fresh (path : Text) (kind : Symbol.Kind) (description : Text) (tags : TagSet)
    (params inherits : List Text) (line : Int) :
    (Symbol.fresh path kind description tags params inherits line).IsFresh where
  memberOf := rfl
  own := by intro list; cases list <;> rfl
  inherited := by intro list; cases list <;> rfl
  fullName := rfl

namespace Resolution

/-- Folding a tag into the name relates a symbol to no other one. -/
theorem foldMemberOf_unrelated {s : Symbol} (h : s.Unrelated) : (foldMemberOf s).Unrelated := by
  unfold foldMemberOf
  split
  · exact ⟨h.memberOf, fun list => by rw [← h.own list]; cases list <;> rfl,
      fun list => by rw [← h.inherited list]; cases list <;> rfl⟩
  · exact h

/-- Admitting a symbol gives it no relations. -/
theorem unrelated_of_admitted? {v : Visibility} {raw s : Symbol} (h : raw.Unrelated)
    (hAdmitted : admitted? v raw = some s) : s.Unrelated := by
  unfold admitted? at hAdmitted
  split at hAdmitted
  · cases hAdmitted
    exact foldMemberOf_unrelated h
  · cases hAdmitted

/-- The symbols of a document and its messages, for raw symbols as they are first made. -/
theorem document_linked (v : Visibility) (path : Text) (overview : Option Text) {raw : List Symbol}
    (hFresh : ∀ s ∈ raw, s.IsFresh) :
    Linked (document v path raw overview).1.symbols ∧
      allWarnings (document v path raw overview).1.symbols =
        (document v path raw overview).2 := by
  have hNew : ∀ s ∈ raw.filterMap (admitted? v), s.Unrelated := by
    intro s hMem
    obtain ⟨first, hRaw, hAdmitted⟩ := List.mem_filterMap.mp hMem
    exact unrelated_of_admitted? (hFresh first hRaw).toUnrelated hAdmitted
  exact Linked.nil.linkAll hNew

variable {symbols : List Symbol}

/-- Whoever is listed as a member comes later than the symbol that lists it, and has the kind that
goes with the list. -/
theorem Linked.lt_of_mem_own (h : Linked symbols) {list : Symbol.MemberList} {place member : Nat}
    {s : Symbol} (hAt : symbols[place]? = some s) (hMem : .here member ∈ s.own list) :
    place < member ∧ symbols[member]?.map Symbol.kind = some list.kind := by
  rw [h.own list place s hAt, List.mem_map] at hMem
  obtain ⟨found, hFound, hSame⟩ := hMem
  cases hSame
  obtain ⟨_, hKind, hParent⟩ := mem_members_iff.mp hFound
  exact ⟨lt_of_parent? hParent, hKind⟩

/-- No symbol is a member twice. -/
theorem members_nodup (symbols : List Symbol) (kind : Symbol.Kind) (bound parent : Nat) :
    (members symbols kind bound parent).Nodup :=
  List.nodup_range.filter _

/-- Members of different parents or of different kinds are different. -/
theorem members_disjoint {kind kind' : Symbol.Kind} {bound parent parent' : Nat}
    (h : kind ≠ kind' ∨ parent ≠ parent') :
    (members symbols kind bound parent).Disjoint (members symbols kind' bound parent') := by
  intro place hFirst hSecond
  obtain ⟨_, hKind, hParent⟩ := mem_members_iff.mp hFirst
  obtain ⟨_, hKind', hParent'⟩ := mem_members_iff.mp hSecond
  rcases h with hNe | hNe
  · exact hNe (Option.some.inj (hKind.symm.trans hKind'))
  · exact hNe (Option.some.inj (hParent.symm.trans hParent'))

/-- The places of all methods and properties of the symbol at a place. -/
def allMembers (symbols : List Symbol) (place : Nat) : List Nat :=
  members symbols .function symbols.length place ++ members symbols .object symbols.length place

/-- No symbol is a member of two parents. -/
theorem allMembers_nodup (symbols : List Symbol) :
    ((List.range symbols.length).flatMap (allMembers symbols)).Nodup := by
  rw [List.nodup_flatMap]
  refine ⟨fun place _ => ?_, List.pairwise_lt_range.imp fun {first second} hLt => ?_⟩
  · rw [allMembers, List.nodup_append']
    exact ⟨members_nodup .., members_nodup .., members_disjoint (Or.inl (by decide))⟩
  · have hNe : first ≠ second := Nat.ne_of_lt hLt
    simp only [Function.onFun, allMembers, List.disjoint_append_left, List.disjoint_append_right]
    exact ⟨⟨members_disjoint (Or.inr hNe), members_disjoint (Or.inr hNe)⟩,
      members_disjoint (Or.inr hNe), members_disjoint (Or.inr hNe)⟩

/-- No symbol is listed twice, be it in one list or in the lists of two symbols. -/
theorem Linked.nodup_own (h : Linked symbols) :
    (symbols.flatMap fun s => s.methods ++ s.properties).Nodup := by
  have hLists : (symbols.flatMap fun s => s.methods ++ s.properties) =
      ((List.range symbols.length).flatMap (allMembers symbols)).map .here := by
    rw [List.map_flatMap, List.flatMap_def, List.flatMap_def]
    congr 1
    apply List.ext_getElem (by simp)
    intro place hLeft hRight
    have hPlace : place < symbols.length := by simpa using hLeft
    have hAt := List.getElem?_eq_getElem hPlace
    have hMethods := h.own .methods place _ hAt
    have hProperties := h.own .properties place _ hAt
    simp only [Symbol.own, Symbol.MemberList.kind] at hMethods hProperties
    simp [hMethods, hProperties, allMembers]
  rw [hLists]
  exact (allMembers_nodup symbols).map fun _ _ hSame => by cases hSame; rfl

/-- Whether a message is about a parent that is not there. -/
def concernsParent (m : Log.Message) : Bool :=
  (Text.ofString "Member '").isPrefixOf m.text

theorem concernsParent_unfoundParent (member parent : Text) :
    concernsParent (unfoundParent member parent) = true := by
  simp only [concernsParent, unfoundParent, Log.warning, List.append_assoc]
  exact List.isPrefixOf_iff_prefix.mpr (List.prefix_append _ _)

theorem concernsParent_unfoundBase (base : Text) : concernsParent (unfoundBase base) = false := by
  rfl

/-- Of the warnings about a symbol the filter keeps the one about its parent. -/
theorem filter_concernsParent_warnings (symbols : List Symbol) (place : Nat) :
    (warnings symbols place).filter concernsParent = parentWarnings symbols place := by
  have hParent : ∀ m ∈ parentWarnings symbols place, concernsParent m = true := by
    intro m hMem
    unfold parentWarnings at hMem
    split at hMem
    · split at hMem
      · rw [List.mem_singleton.mp hMem]
        exact concernsParent_unfoundParent _ _
      · cases hMem
    · cases hMem
  have hBases : ∀ m ∈ baseWarnings symbols place, ¬ concernsParent m = true := by
    intro m hMem
    unfold baseWarnings at hMem
    split at hMem
    · obtain ⟨base, _, rfl⟩ := List.mem_map.mp hMem
      simp [concernsParent_unfoundBase]
    · cases hMem
  rw [warnings, List.filter_append, List.filter_eq_self.mpr hParent,
    List.filter_eq_nil_iff.mpr hBases, List.append_nil]

/-- The messages about parents are those of all symbols, in their order. -/
theorem filter_concernsParent_allWarnings (symbols : List Symbol) :
    (allWarnings symbols).filter concernsParent =
      (List.range symbols.length).flatMap (parentWarnings symbols) := by
  rw [allWarnings, List.filter_flatMap]
  simp only [filter_concernsParent_warnings]

/-- Member lists are exact. Every symbol lists, in the order of the file, the later functions and
objects that have it for a parent, where a parent is the first earlier symbol of the name. So no
symbol is listed twice, and constructors and files never. A warning about a missing parent is given
for each symbol that names one, in the order of the file. -/
theorem document_members_exact (o : Options) (path : Text) (overview : Option Text)
    (raw : List Symbol) (hFresh : ∀ s ∈ raw, s.IsFresh) :
    let symbols := (document o.visibility path raw overview).1.symbols
    let messages := (document o.visibility path raw overview).2
    (∀ place s, symbols[place]? = some s →
      s.methods = (members symbols .function symbols.length place).map .here ∧
        s.properties = (members symbols .object symbols.length place).map .here) ∧
    (symbols.flatMap fun s => s.methods ++ s.properties).Nodup ∧
    (∀ (place member : Nat) (s : Symbol), symbols[place]? = some s →
      .here member ∈ s.methods ++ s.properties →
        place < member ∧ ∃ t : Symbol,
          symbols[member]? = some t ∧ t.kind ≠ .constructor ∧ t.kind ≠ .file) ∧
    messages.filter concernsParent =
      (List.range symbols.length).flatMap (parentWarnings symbols) := by
  intro symbols messages
  obtain ⟨hLinked, hMessages⟩ : Linked symbols ∧ allWarnings symbols = messages :=
    document_linked o.visibility path overview hFresh
  refine ⟨?_, hLinked.nodup_own, ?_, ?_⟩
  · intro place s hAt
    exact ⟨hLinked.own .methods place s hAt, hLinked.own .properties place s hAt⟩
  · intro place member s hAt hMem
    have hList : ∃ list : Symbol.MemberList, .here member ∈ s.own list :=
      (List.mem_append.mp hMem).elim (fun h => ⟨.methods, h⟩) (fun h => ⟨.properties, h⟩)
    obtain ⟨list, hOwn⟩ := hList
    obtain ⟨hLt, hKind⟩ := hLinked.lt_of_mem_own hAt hOwn
    obtain ⟨t, hMember, hSame⟩ := Option.map_eq_some_iff.mp hKind
    refine ⟨hLt, t, hMember, ?_⟩
    rw [hSame]
    cases list <;> decide
  · rw [← hMessages]
    exact filter_concernsParent_allWarnings symbols

/-- Symbols of a file in which a name comes twice, a member comes before its parent, and a member of
a symbol has that very symbol for a base. -/
def boxSymbols : List Symbol :=
  List.map (fun (part : Text × Symbol.Kind × List Text) =>
      Symbol.fresh part.1 part.2.1 "Part of a box." .empty [] part.2.2 0)
    [("Box/early", .function, []), ("Box", .constructor, []), ("Box", .object, []),
      ("Box/open", .function, []), ("Box/size", .object, []),
      ("Box/Lid", .function, ["Box", "Crate", "Box"]), ("Box/late", .function, [])]

theorem boxSymbols_isFresh : ∀ s ∈ boxSymbols, s.IsFresh := by
  intro s hMem
  obtain ⟨part, _, rfl⟩ := List.mem_map.mp hMem
  exact Symbol.isFresh_fresh ..

/-- The first of two symbols of one name has all members that come after it. -/
theorem document_members_exact_box :
    (∀ s ∈ boxSymbols, s.IsFresh) ∧
      (∃ s, (document ({} : Options).visibility "box.js" boxSymbols none).1.symbols[1]? = some s ∧
        s.methods = [.here 3, .here 5, .here 6] ∧ s.properties = [.here 4]) ∧
      (document ({} : Options).visibility "box.js" boxSymbols none).2.filter concernsParent =
        [unfoundParent "early" "Box"] := by
  obtain ⟨hLists, _, _, hWarnings⟩ :=
    document_members_exact {} "box.js" none boxSymbols boxSymbols_isFresh
  refine ⟨boxSymbols_isFresh, ⟨_, List.getElem?_eq_getElem (by decide +kernel), ?_⟩, ?_⟩
  · obtain ⟨hMethods, hProperties⟩ := hLists 1 _ (List.getElem?_eq_getElem (by decide +kernel))
    rw [hMethods, hProperties]
    decide +kernel
  · rw [hWarnings]
    decide +kernel

/-- What a symbol has from its bases is also among their own members. -/
theorem Linked.mem_own_of_mem_inherited (h : Linked symbols) (list : Symbol.MemberList)
    {place : Nat} {s : Symbol} {ref : Symbol.Ref} (hAt : symbols[place]? = some s)
    (hMem : ref ∈ s.inherited list) :
    ∃ base ∈ s.inherits, ∃ found b, placeBefore? symbols place base = some found ∧
      symbols[found]? = some b ∧ ref ∈ b.own list := by
  rw [h.inherited list place s hAt, List.mem_map] at hMem
  obtain ⟨member, hMember, rfl⟩ := hMem
  obtain ⟨base, hBase, hFrom⟩ := List.mem_flatMap.mp hMember
  cases hFound : placeBefore? symbols place base with
  | none => simp [hFound] at hFrom
  | some found =>
      obtain ⟨hBefore, hName, _⟩ := placeBefore?_eq_some_iff.mp hFound
      obtain ⟨b, hb, _⟩ := Option.map_eq_some_iff.mp hName
      rw [hFound] at hFrom
      obtain ⟨hBound, hKind, hParent⟩ := mem_members_iff.mp hFrom
      have hPlace := (List.getElem?_eq_some_iff.mp hAt).1
      refine ⟨base, hBase, found, b, hFound, hb, ?_⟩
      rw [h.own list found b hb]
      exact List.mem_map_of_mem (mem_members_iff.mpr ⟨by omega, hKind, hParent⟩)

/-- Inherited members are a snapshot of the members of direct bases. Base by base, a symbol has what
the first earlier symbol of that name lists among the symbols up to and including this one. Nothing
comes from what a base has inherited itself. The log gives, symbol by symbol, the warning about its
parent and then those about its bases. -/
theorem document_inherited_exact (o : Options) (path : Text) (overview : Option Text)
    (raw : List Symbol) (hFresh : ∀ s ∈ raw, s.IsFresh) :
    let symbols := (document o.visibility path raw overview).1.symbols
    let messages := (document o.visibility path raw overview).2
    (∀ place s, symbols[place]? = some s →
      s.inheritedMethods = (baseMembers symbols .function place s.inherits).map .here ∧
        s.inheritedProperties = (baseMembers symbols .object place s.inherits).map .here) ∧
    (∀ (place : Nat) (s : Symbol) (ref : Symbol.Ref), symbols[place]? = some s →
      ref ∈ s.inheritedMethods ++ s.inheritedProperties →
        ∃ base ∈ s.inherits, ∃ (found : Nat) (b : Symbol),
          placeBefore? symbols place base = some found ∧ symbols[found]? = some b ∧
            ref ∈ b.methods ++ b.properties) ∧
    messages = (List.range symbols.length).flatMap fun place =>
      parentWarnings symbols place ++ baseWarnings symbols place := by
  intro symbols messages
  obtain ⟨hLinked, hMessages⟩ : Linked symbols ∧ allWarnings symbols = messages :=
    document_linked o.visibility path overview hFresh
  refine ⟨?_, ?_, hMessages.symm⟩
  · intro place s hAt
    exact ⟨hLinked.inherited .methods place s hAt, hLinked.inherited .properties place s hAt⟩
  · intro place s ref hAt hMem
    rcases List.mem_append.mp hMem with hMethod | hProperty
    · obtain ⟨base, hBase, found, b, hFound, hb, hOwn⟩ :=
        hLinked.mem_own_of_mem_inherited .methods hAt hMethod
      exact ⟨base, hBase, found, b, hFound, hb, List.mem_append_left _ hOwn⟩
    · obtain ⟨base, hBase, found, b, hFound, hb, hOwn⟩ :=
        hLinked.mem_own_of_mem_inherited .properties hAt hProperty
      exact ⟨base, hBase, found, b, hFound, hb, List.mem_append_right _ hOwn⟩

/-- A symbol is among what it takes over from its own parent, once for each time that the parent is
named as a base, and later members are not. -/
theorem document_inherited_exact_box :
    (∀ s ∈ boxSymbols, s.IsFresh) ∧
      (∃ s, (document ({} : Options).visibility "box.js" boxSymbols none).1.symbols[5]? = some s ∧
        s.inheritedMethods = [.here 3, .here 5, .here 3, .here 5] ∧
          s.inheritedProperties = [.here 4, .here 4]) ∧
      (document ({} : Options).visibility "box.js" boxSymbols none).2 =
        [unfoundParent "early" "Box", unfoundBase "Crate"] := by
  obtain ⟨hLists, _, hMessages⟩ :=
    document_inherited_exact {} "box.js" none boxSymbols boxSymbols_isFresh
  refine ⟨boxSymbols_isFresh, ⟨_, List.getElem?_eq_getElem (by decide +kernel), ?_⟩, ?_⟩
  · obtain ⟨hMethods, hProperties⟩ := hLists 5 _ (List.getElem?_eq_getElem (by decide +kernel))
    rw [hMethods, hProperties]
    decide +kernel
  · rw [hMessages]
    decide +kernel

end Resolution
end ScriptDoc
