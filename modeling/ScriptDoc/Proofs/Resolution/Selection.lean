import Mathlib.Data.List.Forall2
import ScriptDoc.Proofs.Resolution.Linking

/-! Which raw symbols a document has, and what stays of each of them. The choice is one predicate on
a raw symbol and the options, although it is made in two stages with a change of name between. -/
namespace ScriptDoc

namespace TagSet

variable {tags : TagSet} {name : Text}

/-- The names of tags, each once, in the order in which they were first given. -/
def names (tags : TagSet) : List Text :=
  tags.groups.map Prod.fst

/-- A tag is there exactly if it has a value. -/
theorem get_ne_nil_iff : tags.get name ≠ [] ↔ name ∈ tags.names := by
  unfold get names
  cases hLookup : tags.groups.lookup name with
  | none =>
      have hAbsent := List.lookup_eq_none_iff.mp hLookup
      simp only [Option.getD_none, ne_eq, not_true_eq_false, List.mem_map, false_iff]
      rintro ⟨group, hMem, rfl⟩
      simpa using hAbsent group hMem
  | some values =>
      obtain ⟨front, back, hGroups, _⟩ := List.lookup_eq_some_iff.mp hLookup
      have hMem : (name, values) ∈ tags.groups := by simp [hGroups]
      -- A group without values would look absent; the set has none.
      exact iff_of_true (tags.filled _ hMem) (List.mem_map_of_mem hMem)

theorem has_iff (tags : TagSet) (name : Text) : tags.has name = true ↔ name ∈ tags.names := by
  rw [← get_ne_nil_iff, has, Bool.not_eq_eq_eq_not, Bool.not_true, List.isEmpty_eq_false_iff]

/-- Taking out a tag that is not there changes nothing. -/
theorem groups_filter_of_get_eq_nil (h : tags.get name = []) :
    (tags.groups.filter fun group => group.1 != name) = tags.groups := by
  apply List.filter_eq_self.mpr
  intro group hMem
  rw [bne_iff_ne]
  rintro rfl
  exact get_ne_nil_iff.mpr (List.mem_map_of_mem hMem) h

end TagSet

namespace Resolution

/-- The name by which a symbol without a description is judged: its own, behind the first parent
that a tag gives it. -/
def foldedName (s : Symbol) : Text :=
  match (s.tags.get "memberof").head? with
  | some parent => parent ++ "/" ++ s.name
  | none => s.name

/-- The pieces of a name between slashes and dots. -/
def segments (name : Text) : List Text :=
  name.splitOnP fun c => c == '/' || c == '.'

/-- Whether a raw symbol is documented under some options. -/
def IsShown (o : Options) (s : Symbol) : Prop :=
  ("ignore" : Text) ∉ s.tags.names ∧
    (("private" : Text) ∈ s.tags.names → o.includePrivate.truthy = true) ∧
    (s.description ≠ "undocumented" ∨ o.allFunctionsUnderscored.truthy = true ∨
      (o.allFunctions.truthy = true ∧
        ∀ segment ∈ segments (foldedName s), segment.head? ≠ some (.char '_')))

instance (o : Options) : DecidablePred (IsShown o) := fun _ =>
  inferInstanceAs (Decidable (_ ∧ _ ∧ _))

/-- What a documented symbol keeps of the raw one. All tags but one stay, in their order. -/
structure Retains (raw s : Symbol) : Prop where
  kind : s.kind = raw.kind
  description : s.description = raw.description
  params : s.params = raw.params
  inherits : s.inherits = raw.inherits
  line : s.line = raw.line
  tags : s.tags.groups = raw.tags.groups.filter fun group => group.1 != ("memberof" : Text)

/-- The walk over a name looks at the first code point of every segment. Inside a segment it has
passed that one already. -/
theorem underscoredAfter_eq (boundary : Bool) (name : Text) :
    underscoredAfter boundary name =
      (if boundary then segments name else (segments name).tail).any
        fun segment => segment.head? == some (.char '_') := by
  induction name generalizing boundary with
  | nil => cases boundary <;> rfl
  | cons c rest ih =>
      obtain ⟨piece, pieces, hPieces⟩ : ∃ piece pieces, segments rest = piece :: pieces :=
        List.exists_cons_of_ne_nil (List.splitOnP_ne_nil _ rest)
      have hNext : segments (c :: rest) = if c == '/' || c == '.' then [] :: segments rest
          else (segments rest).modifyHead (c :: ·) :=
        List.splitOnP_cons_eq_if_modifyHead c rest
      rw [underscoredAfter, ih, hNext, hPieces]
      by_cases hSlash : c = '/'
      · subst hSlash
        cases boundary <;> simp
      · by_cases hDot : c = '.'
        · subst hDot
          cases boundary <;> simp
        · cases boundary <;> simp [hSlash, hDot]

/-- A name is free of low lines if no segment begins with one. -/
theorem isUnderscored_eq_false_iff (name : Text) :
    isUnderscored name = false ↔ ∀ segment ∈ segments name, segment.head? ≠ some (.char '_') := by
  rw [isUnderscored, underscoredAfter_eq]
  simp

/-- A tag that names a parent puts it before the name. -/
theorem foldMemberOf_name (s : Symbol) : (foldMemberOf s).name = foldedName s := by
  unfold foldMemberOf foldedName
  cases s.tags.get "memberof" with
  | nil => rfl
  | cons parent others => rfl

/-- Folding changes the name and takes the folded tag away. -/
theorem foldMemberOf_retains (s : Symbol) : Retains s (foldMemberOf s) := by
  unfold foldMemberOf
  cases hParents : s.tags.get "memberof" with
  | nil => exact ⟨rfl, rfl, rfl, rfl, rfl, (TagSet.groups_filter_of_get_eq_nil hParents).symm⟩
  | cons parent others => exact ⟨rfl, rfl, rfl, rfl, rfl, rfl⟩

/-- Ignored symbols are left out, and private ones unless they are asked for. -/
theorem passesTags_iff (o : Options) (s : Symbol) :
    passesTags o.visibility s = true ↔
      ("ignore" : Text) ∉ s.tags.names ∧
        (("private" : Text) ∈ s.tags.names → o.includePrivate.truthy = true) := by
  rw [← TagSet.has_iff, ← TagSet.has_iff]
  simp only [passesTags, Options.visibility]
  cases s.tags.has "ignore" <;> cases s.tags.has "private" <;> simp

/-- A symbol without a description is shown only if the options say so. -/
theorem passesDescription_iff (o : Options) (s : Symbol) :
    passesDescription o.visibility s = true ↔
      s.description ≠ "undocumented" ∨ o.allFunctionsUnderscored.truthy = true ∨
        (o.allFunctions.truthy = true ∧ ∀ segment ∈ segments s.name, segment.head? ≠ some (.char '_')) := by
  rw [← isUnderscored_eq_false_iff]
  simp [passesDescription, Options.visibility, Symbol.isDocumented, Symbol.undocumented, or_assoc]

/-- Both stages together choose what is to be shown. -/
theorem admitted?_eq (o : Options) (s : Symbol) :
    admitted? o.visibility s = if IsShown o s then some (foldMemberOf s) else none := by
  have hPasses :
      (passesTags o.visibility s && passesDescription o.visibility (foldMemberOf s)) = true ↔
        IsShown o s := by
    rw [Bool.and_eq_true, passesTags_iff, passesDescription_iff, foldMemberOf_name,
      (foldMemberOf_retains s).description, and_assoc]
    rfl
  simp only [admitted?, hPasses]

/-- Admitted are the symbols that are shown, under their folded names. -/
theorem filterMap_admitted? (o : Options) (raw : List Symbol) :
    raw.filterMap (admitted? o.visibility) =
      (raw.filter fun s => IsShown o s).map foldMemberOf := by
  induction raw with
  | nil => rfl
  | cons s rest ih =>
      rw [List.filterMap_cons, admitted?_eq, List.filter_cons]
      by_cases hShown : IsShown o s
      · simp [hShown, ih]
      · simp [hShown, ih]

/-- What linking keeps of a symbol: all but its names and its relations to others. -/
def declared (s : Symbol) : Symbol :=
  Symbol.fresh [] s.kind s.description s.tags s.params s.inherits s.line

theorem declared_settle (s : Symbol) : declared (settle s) = declared s := by
  unfold settle
  split <;> rfl

theorem declared_addMember (parent : Symbol) (kind : Symbol.Kind) (member : Symbol.Ref) :
    declared (parent.addMember kind member) = declared parent := by
  cases kind <;> rfl

/-- Linking keeps what symbols were declared with. -/
theorem map_declared_link (symbols : List Symbol) (s : Symbol) :
    (link symbols s).1.map declared = symbols.map declared ++ [declared s] := by
  unfold link
  rw [List.map_append, map_joinParent declared declared_addMember, List.map_singleton,
    ← declared_settle s]
  rfl

/-- A run of linking appends its symbols in order, and keeps what each of them declares. -/
theorem map_declared_linkAll (symbols new : List Symbol) :
    (linkAll symbols new).1.map declared = symbols.map declared ++ new.map declared := by
  induction new generalizing symbols with
  | nil => simp [linkAll]
  | cons s rest ih =>
      change (linkAll (link symbols s).1 rest).1.map declared = _
      rw [ih, map_declared_link, List.append_assoc]
      rfl

/-- Whatever keeps its declaration retains what was read. -/
theorem Retains.of_declared_eq {raw s t : Symbol} (h : Retains raw s)
    (hSame : declared s = declared t) : Retains raw t where
  kind := (congrArg Symbol.kind hSame).symm.trans h.kind
  description := (congrArg Symbol.description hSame).symm.trans h.description
  params := (congrArg Symbol.params hSame).symm.trans h.params
  inherits := (congrArg Symbol.inherits hSame).symm.trans h.inherits
  line := (congrArg Symbol.line hSame).symm.trans h.line
  tags := (congrArg (fun u => u.tags.groups) hSame).symm.trans h.tags

/-- The symbols of a document are the raw symbols that are to be shown, one for one and in their
order. Each keeps its kind, description, parameters, bases and line, and its tags apart from the one
that was folded into its name. -/
theorem document_selection_exact (o : Options) (path : Text) (overview : Option Text)
    (raw : List Symbol) :
    List.Forall₂ Retains (raw.filter fun s => IsShown o s)
      (document o.visibility path raw overview).1.symbols := by
  have hDeclared : ((raw.filter fun s => IsShown o s).map foldMemberOf).map declared =
      (document o.visibility path raw overview).1.symbols.map declared := by
    rw [← filterMap_admitted?]
    exact (map_declared_linkAll [] _).symm
  rw [← List.forall₂_eq_eq_eq, List.map_map, List.forall₂_map_left_iff,
    List.forall₂_map_right_iff] at hDeclared
  exact hDeclared.imp fun first _ hSame => (foldMemberOf_retains first).of_declared_eq hSame

end Resolution
end ScriptDoc
