import ScriptDoc.Resolution

/-! Relations between symbols, read off a finished list. A name stands for the first symbol of that
full name among the symbols before the one that uses it. Nothing here looks at member lists, so
these relations say what linking should have put there. -/
namespace ScriptDoc.Resolution

/-- The first place before a bound that has the given full name. -/
def placeBefore? (symbols : List Symbol) (bound : Nat) (name : Text) : Option Nat :=
  (List.range bound).find? fun place => symbols[place]?.map Symbol.fullName == some name

/-- The place of the parent of the symbol at a place. A symbol without `memberOf` has none. -/
def parent? (symbols : List Symbol) (place : Nat) : Option Nat :=
  symbols[place]?.bind fun s =>
    if s.memberOf = [] then none else placeBefore? symbols place s.memberOf

/-- The places before a bound, in ascending order, of the symbols of one kind that have the symbol
at `parent` for a parent. -/
def members (symbols : List Symbol) (kind : Symbol.Kind) (bound parent : Nat) : List Nat :=
  (List.range bound).filter fun place =>
    symbols[place]?.map Symbol.kind == some kind && parent? symbols place == some parent

/-- The members of the bases of the symbol at a place, base by base, as far as they stand at or
before that place. A base that is not found before the place gives none. -/
def baseMembers (symbols : List Symbol) (kind : Symbol.Kind) (place : Nat) (bases : List Text) :
    List Nat :=
  bases.flatMap fun base =>
    match placeBefore? symbols place base with
    | some found => members symbols kind (place + 1) found
    | none => []

/-- The warning about the symbol at a place if it names a parent that is not before it. -/
def parentWarnings (symbols : List Symbol) (place : Nat) : List Log.Message :=
  match symbols[place]? with
  | some s =>
    if s.memberOf ≠ [] ∧ placeBefore? symbols place s.memberOf = none then
      [unfoundParent s.name s.memberOf]
    else []
  | none => []

/-- The warnings about the bases of the symbol at a place that are not before it. -/
def baseWarnings (symbols : List Symbol) (place : Nat) : List Log.Message :=
  match symbols[place]? with
  | some s =>
    (s.inherits.filter fun base => placeBefore? symbols place base == none).map unfoundBase
  | none => []

/-- The warnings about the symbol at a place, the one about its parent first. -/
def warnings (symbols : List Symbol) (place : Nat) : List Log.Message :=
  parentWarnings symbols place ++ baseWarnings symbols place

/-- A name means the first symbol that has it. -/
theorem placeBefore?_eq_some_iff {symbols : List Symbol} {bound place : Nat} {name : Text} :
    placeBefore? symbols bound name = some place ↔
      place < bound ∧ symbols[place]?.map Symbol.fullName = some name ∧
        ∀ m < place, symbols[m]?.map Symbol.fullName ≠ some name := by
  simp only [placeBefore?, List.find?_range_eq_some, List.mem_range, beq_iff_eq,
    Bool.not_eq_eq_eq_not, Bool.not_true, beq_eq_false_iff_ne]
  constructor
  · rintro ⟨hName, hBound, hFirst⟩
    exact ⟨hBound, hName, hFirst⟩
  · rintro ⟨hBound, hName, hFirst⟩
    exact ⟨hName, hBound, hFirst⟩

/-- The look-up that linking makes in the list so far is the look-up before its end. -/
theorem placeBefore?_length (symbols : List Symbol) (name : Text) :
    placeBefore? symbols symbols.length name = Symbol.indexOf? symbols name := by
  apply Option.ext
  intro place
  rw [placeBefore?_eq_some_iff, Symbol.indexOf?, List.findIdx?_eq_some_iff_getElem]
  constructor
  · rintro ⟨hBound, hName, hFirst⟩
    refine ⟨hBound, by simpa [hBound] using hName, ?_⟩
    intro m hm
    have hLt : m < symbols.length := Nat.lt_trans hm hBound
    simpa [hLt] using hFirst m hm
  · rintro ⟨hBound, hName, hFirst⟩
    refine ⟨hBound, by simpa [hBound] using hName, ?_⟩
    intro m hm
    have hLt : m < symbols.length := Nat.lt_trans hm hBound
    simpa [hLt] using hFirst m hm

/-- The parent of a symbol is the first symbol before it that has the name of its parent. -/
theorem parent?_eq_some_iff {symbols : List Symbol} {place parent : Nat} :
    parent? symbols place = some parent ↔
      ∃ s, symbols[place]? = some s ∧ s.memberOf ≠ [] ∧
        placeBefore? symbols place s.memberOf = some parent := by
  simp only [parent?, Option.bind_eq_some_iff]
  constructor
  · rintro ⟨s, hAt, hParent⟩
    split at hParent
    · cases hParent
    · next hMember => exact ⟨s, hAt, hMember, hParent⟩
  · rintro ⟨s, hAt, hMember, hParent⟩
    exact ⟨s, hAt, by simpa only [hMember, ↓reduceIte] using hParent⟩

/-- A parent stands before its members. -/
theorem lt_of_parent? {symbols : List Symbol} {place parent : Nat}
    (h : parent? symbols place = some parent) : parent < place := by
  obtain ⟨s, _, _, hParent⟩ := parent?_eq_some_iff.mp h
  exact (placeBefore?_eq_some_iff.mp hParent).1

/-- Members are told by their kind and their parent. -/
theorem mem_members_iff {symbols : List Symbol} {kind : Symbol.Kind} {bound parent place : Nat} :
    place ∈ members symbols kind bound parent ↔
      place < bound ∧ symbols[place]?.map Symbol.kind = some kind ∧
        parent? symbols place = some parent := by
  simp [members]

/-- One more symbol is a member if its parent is this one. -/
theorem members_succ (symbols : List Symbol) (kind : Symbol.Kind) (bound parent : Nat) :
    members symbols kind (bound + 1) parent =
      members symbols kind bound parent ++
        if symbols[bound]?.map Symbol.kind = some kind ∧ parent? symbols bound = some parent then
          [bound]
        else [] := by
  simp only [members, List.range_succ, List.filter_append, List.filter_cons, List.filter_nil,
    Bool.and_eq_true, beq_iff_eq]

/-- No member stands at or before its parent, so the lists are empty up to there. -/
theorem members_eq_nil_of_le {symbols : List Symbol} {kind : Symbol.Kind} {bound parent : Nat}
    (h : bound ≤ parent + 1) : members symbols kind bound parent = [] := by
  apply List.eq_nil_iff_forall_not_mem.mpr
  intro place hMem
  obtain ⟨hBound, _, hParent⟩ := mem_members_iff.mp hMem
  have hLt := lt_of_parent? hParent
  omega

/-- A symbol as far as its relations to others are not concerned with who its members are. -/
def withoutMembers (s : Symbol) : Symbol :=
  { s with methods := [], properties := [] }

/-- Two lists agree before a bound on all but the members of their symbols. -/
def AgreeBefore (bound : Nat) (before after : List Symbol) : Prop :=
  ∀ place < bound, before[place]?.map withoutMembers = after[place]?.map withoutMembers

namespace AgreeBefore

variable {bound place : Nat} {before after : List Symbol}

/-- Symbols agree in everything but their members. -/
theorem map_eq {α : Type} (h : AgreeBefore bound before after) (hPlace : place < bound)
    (field : Symbol → α) (hField : ∀ s, field (withoutMembers s) = field s) :
    before[place]?.map field = after[place]?.map field := by
  have hSame := congrArg (Option.map field) (h place hPlace)
  simpa only [Option.map_map, Function.comp_def, hField] using hSame

theorem mono {smaller : Nat} (h : AgreeBefore bound before after) (hLe : smaller ≤ bound) :
    AgreeBefore smaller before after :=
  fun place hPlace => h place (Nat.lt_of_lt_of_le hPlace hLe)

/-- Names mean the same where symbols agree. -/
theorem placeBefore?_eq (h : AgreeBefore bound before after) (name : Text) :
    placeBefore? before bound name = placeBefore? after bound name := by
  apply Option.ext
  intro place
  simp only [placeBefore?_eq_some_iff]
  refine and_congr_right fun hPlace => ?_
  rw [h.map_eq hPlace Symbol.fullName fun _ => rfl]
  refine and_congr_right fun _ => forall_congr' fun m => imp_congr_right fun hm => ?_
  rw [h.map_eq (Nat.lt_trans hm hPlace) Symbol.fullName fun _ => rfl]

/-- Below the bound both lists end at once, or have symbols that differ in their members only. -/
theorem getElem?_cases (h : AgreeBefore bound before after) (hPlace : place < bound) :
    (before[place]? = none ∧ after[place]? = none) ∨
      ∃ s t, before[place]? = some s ∧ after[place]? = some t ∧
        withoutMembers s = withoutMembers t := by
  have hAt := h place hPlace
  cases hBefore : before[place]? with
  | none =>
      rw [hBefore, Option.map_none, eq_comm, Option.map_eq_none_iff] at hAt
      exact Or.inl ⟨rfl, hAt⟩
  | some s =>
      rw [hBefore, Option.map_some, eq_comm, Option.map_eq_some_iff] at hAt
      obtain ⟨t, hAfter, hSame⟩ := hAt
      exact Or.inr ⟨s, t, rfl, hAfter, hSame.symm⟩

/-- Parents are the same where symbols agree. -/
theorem parent?_eq (h : AgreeBefore bound before after) (hPlace : place < bound) :
    parent? before place = parent? after place := by
  unfold parent?
  obtain ⟨hBefore, hAfter⟩ | ⟨s, t, hBefore, hAfter, hSame⟩ := h.getElem?_cases hPlace
  · rw [hBefore, hAfter]
    rfl
  · have hMember : s.memberOf = t.memberOf := (congrArg Symbol.memberOf hSame :)
    rw [hBefore, hAfter]
    simp only [Option.bind_some, hMember, (h.mono (Nat.le_of_lt hPlace)).placeBefore?_eq]

/-- Members are the same where symbols agree. -/
theorem members_eq (h : AgreeBefore bound before after) (kind : Symbol.Kind) (parent : Nat) :
    members before kind bound parent = members after kind bound parent := by
  apply List.filter_congr
  intro place hMem
  have hPlace := List.mem_range.mp hMem
  rw [h.map_eq hPlace Symbol.kind fun _ => rfl, h.parent?_eq hPlace]

theorem baseMembers_eq (h : AgreeBefore bound before after) (hPlace : place < bound)
    (kind : Symbol.Kind) (bases : List Text) :
    baseMembers before kind place bases = baseMembers after kind place bases := by
  simp only [baseMembers, (h.mono (Nat.le_of_lt hPlace)).placeBefore?_eq,
    (h.mono (Nat.succ_le_of_lt hPlace)).members_eq]

/-- The warnings about a symbol read its name, its `memberOf` and its bases, none of its members. -/
theorem warnings_eq (h : AgreeBefore bound before after) (hPlace : place < bound) :
    warnings before place = warnings after place := by
  unfold warnings parentWarnings baseWarnings
  obtain ⟨hBefore, hAfter⟩ | ⟨s, t, hBefore, hAfter, hSame⟩ := h.getElem?_cases hPlace
  · rw [hBefore, hAfter]
  · have hName : s.name = t.name := (congrArg Symbol.name hSame :)
    have hMember : s.memberOf = t.memberOf := (congrArg Symbol.memberOf hSame :)
    have hBases : s.inherits = t.inherits := (congrArg Symbol.inherits hSame :)
    rw [hBefore, hAfter]
    simp only [hName, hMember, hBases, (h.mono (Nat.le_of_lt hPlace)).placeBefore?_eq]

end AgreeBefore

end ScriptDoc.Resolution
