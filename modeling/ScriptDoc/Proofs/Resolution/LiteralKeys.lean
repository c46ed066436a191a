import ScriptDoc.Proofs.Outline.Literals
import ScriptDoc.Proofs.Resolution.Files
import ScriptDoc.Proofs.Resolution.Members
import ScriptDoc.Proofs.Resolution.Names
import ScriptDoc.Proofs.Token.Pieces

/-! Keys of an object literal. The outline puts a key behind a slash into the path of its member,
and resolution cuts that path at its last slash. The member comes back to its object under its key
exactly if the key has no slash of its own. -/
namespace ScriptDoc

/-- The symbol that a reference stands for within a list of symbols. -/
def Symbol.Ref.symbol? (symbols : List Symbol) : Symbol.Ref → Option Symbol
  | .here index => symbols[index]?
  | .named _ => none

/-- The symbol of a full name has exactly the methods of the given names, in their order, and each
of them knows it as its parent. -/
def Document.HasMethods (d : Document) (fullName : Text) (names : List Text) : Prop :=
  ∃ (object : Symbol) (methods : List Symbol), d.find? fullName = some object ∧
    object.methods.map (Symbol.Ref.symbol? d.symbols) = methods.map some ∧
    methods.map Symbol.name = names ∧ ∀ m ∈ methods, m.memberOf = fullName

namespace Resolution

/-- A documented function under a key in quotes. -/
def keyEntry (key : Text) : Text :=
  "/** M. */ \"" ++ key ++ "\": function() {}"

/-- The entries of keys, with commas between them. -/
def keyEntries : List Text → Text
  | [] => []
  | [key] => keyEntry key
  | key :: keys => keyEntry key ++ ", " ++ keyEntries keys

/-- A documented object with documented functions under keys in quotes. -/
def keyScript (name : Text) (keys : List Text) : Text :=
  "/** D. */ var " ++ name ++ " = \x7b " ++ keyEntries keys ++ " \x7d;"

/-- A key that can be written in quotes as it is. -/
structure IsPlainKey (key : Text) : Prop where
  filled : key ≠ []
  unquoted : ∀ c ∈ key, c ≠ '"' ∧ c ≠ '\'' ∧ c ≠ '\\' ∧ c ≠ '\n'

/-! Tokens. -/

section Tokens

open Token

def entryTokens (key : Text) : List Token :=
  [⟨.comment, "/** M. */", 1⟩, ⟨.string, .char '"' :: (key ++ [.char '"']), 1⟩,
    ⟨.punctuation, ":", 1⟩, ⟨.name, "function", 1⟩, ⟨.punctuation, "(", 1⟩,
    ⟨.punctuation, ")", 1⟩, ⟨.punctuation, ['{'], 1⟩, ⟨.punctuation, ['}'], 1⟩]

def entriesTokens : List Text → List Token
  | [] => []
  | [key] => entryTokens key
  | key :: keys => entryTokens key ++ ⟨.punctuation, ",", 1⟩ :: entriesTokens keys

def scriptTokens (name : Text) (keys : List Text) : List Token :=
  ⟨.comment, "/** D. */", 1⟩ :: ⟨.name, "var", 1⟩ :: ⟨.name, name, 1⟩ :: ⟨.punctuation, "=", 1⟩ ::
    ⟨.punctuation, ['{'], 1⟩ :: (entriesTokens keys ++
      [⟨.punctuation, ['}'], 1⟩, ⟨.punctuation, ";", 1⟩])

variable {c : CodePoint} {more : Text} {others : List Token}

/-- The text of an entry has the tokens of the entry. -/
theorem readsAs_keyEntry {key : Text} (hKey : IsPlainKey key) (hEnds : EndsWords c)
    (hMore : ReadsAs (c :: more) others) :
    ReadsAs (keyEntry key ++ c :: more) (entryTokens key ++ others) := by
  have hDoc : IsPiece "/** M. */" ((entryTokens []).take 1) := by decide +kernel
  have hFunction : IsPiece ": function() {}" ((entryTokens []).drop 2) := by decide +kernel
  have hValue := ReadsAs.append hFunction hEnds hMore
  have hUnescaped : ∀ d ∈ key, d ≠ '"' ∧ d ≠ '\\' ∧ d ≠ '\n' := fun d hMem =>
    ⟨(hKey.unquoted d hMem).1, (hKey.unquoted d hMem).2.2⟩
  have hString := ReadsAs.string hUnescaped hValue
  have hEntry := ReadsAs.append hDoc (c := ' ') (by decide +kernel) hString.space
  simpa [keyEntry, entryTokens, Text.ofString, Text.ofChars] using hEntry

/-- The text of all entries has their tokens. -/
theorem readsAs_keyEntries {keys : List Text} (hKeys : ∀ key ∈ keys, IsPlainKey key)
    (hMore : ReadsAs (.char ' ' :: more) others) :
    ReadsAs (keyEntries keys ++ .char ' ' :: more) (entriesTokens keys ++ others) := by
  induction keys with
  | nil => exact hMore
  | cons key keys ih =>
      obtain ⟨hFirst, hOthers⟩ := List.forall_mem_cons.mp hKeys
      cases keys with
      | nil => exact readsAs_keyEntry hFirst (by decide +kernel) hMore
      | cons next keys =>
          have hPiece : IsPiece "," [⟨.punctuation, ",", 1⟩] := by decide +kernel
          have hComma := ReadsAs.append hPiece (c := ' ') (by decide +kernel) (ih hOthers).space
          have hEntry := readsAs_keyEntry (c := ',') hFirst (by decide +kernel) hComma
          simpa [keyEntries, entriesTokens, Text.ofString, Text.ofChars] using hEntry

/-- The script has the tokens of the assignment and of all its entries. -/
theorem tokenize_keyScript {name : Text} {keys : List Text} (hName : IsIdentifier name)
    (hKeys : ∀ key ∈ keys, IsPlainKey key) :
    tokenize (keyScript name keys) = .ok (scriptTokens name keys) := by
  have hVar : IsPiece "/** D. */ var" ((scriptTokens [] []).take 2) := by decide +kernel
  have hEquals : IsPiece "= \x7b" (((scriptTokens [] []).drop 3).take 2) := by decide +kernel
  have hEnd : IsPiece "\x7d;" ((scriptTokens [] []).drop 5) := by decide +kernel
  have hEntries := readsAs_keyEntries hKeys (ReadsAs.of_isPiece hEnd).space
  have hOpen := ReadsAs.append hEquals (c := ' ') (by decide +kernel) hEntries.space
  have hAssign := ReadsAs.name (c := ' ') hName (by decide +kernel) hOpen.space
  have hScript := ReadsAs.append hVar (c := ' ') (by decide +kernel) hAssign.space
  simpa [keyScript, scriptTokens, entriesTokens, Text.ofString, Text.ofChars] using
    hScript.tokenize_eq

end Tokens

/-! Raw symbols. -/

section Symbols

open Outline

def objectSymbol (name : Text) : Symbol :=
  documented name .object (DocComment.parse "/** D. */") [] 1

def methodSymbol (name key : Text) : Symbol :=
  documented (name ++ "/" ++ key) .function (DocComment.parse "/** M. */") [] 1

theorem objectSymbol_eq (name : Text) :
    objectSymbol name = Symbol.fresh name .object "D." .empty [] [] 1 := by
  have hDoc : DocComment.parse "/** D. */" = { description := "D." } := rfl
  rw [objectSymbol, hDoc]
  rfl

theorem methodSymbol_eq (name key : Text) :
    methodSymbol name key = Symbol.fresh (name ++ "/" ++ key) .function "M." .empty [] [] 1 := by
  have hDoc : DocComment.parse "/** M. */" = { description := "M." } := rfl
  rw [methodSymbol, hDoc]
  rfl

/-- Between two entries of the literal. -/
def inLiteral (name : Text) : State :=
  { scopes := [⟨name, 1, false⟩], depth := 1 }

/-- An entry gives the symbol of its function, and leaves the state as it was. -/
theorem events_entryTokens {key : Text} (hKey : IsPlainKey key) (name : Text) (rest : List Token) :
    events (inLiteral name) (entryTokens key ++ rest) =
      .symbol (methodSymbol name key) :: events (inLiteral name) rest := by
  let doc : Token := ⟨.comment, "/** M. */", 1⟩
  let inBody (path : Text) (depth : Int) : State :=
    { scopes := [⟨path, 2, true⟩, ⟨name, 1, false⟩], depth }
  have hDoc : ∀ ahead, step (inLiteral name) doc ahead =
      ⟨none, { inLiteral name with doc := some doc }, ahead⟩ := fun _ => rfl
  have hFunction : ∀ text ahead, step { inLiteral name with doc := some doc } ⟨.string, text, 1⟩
      (⟨.punctuation, ":", 1⟩ :: ⟨.name, "function", 1⟩ :: ⟨.punctuation, "(", 1⟩ ::
        ⟨.punctuation, ")", 1⟩ :: ⟨.punctuation, ['{'], 1⟩ :: ahead) =
      ⟨some (.symbol (methodSymbol name (keyText text))), inBody (name ++ "/" ++ keyText text) 1,
        ⟨.punctuation, ['{'], 1⟩ :: ahead⟩ := fun _ _ => rfl
  have hOpen : ∀ path ahead, step (inBody path 1) ⟨.punctuation, ['{'], 1⟩ ahead =
      ⟨none, inBody path 2, ahead⟩ := fun _ _ => rfl
  have hClose : ∀ path ahead, step (inBody path 2) ⟨.punctuation, ['}'], 1⟩ ahead =
      ⟨none, inLiteral name, ahead⟩ := fun _ _ => rfl
  have hText := keyText_quoted (Or.inr rfl) fun c hMem =>
    ⟨(hKey.unquoted c hMem).1, (hKey.unquoted c hMem).2.1⟩
  -- The body of the function has a scope of its own, which the two braces open and leave.
  simp only [entryTokens, List.cons_append, List.nil_append]
  rw [events, hDoc, events, hFunction, events, hOpen, events, hClose, hText]
  rfl

/-- Every entry gives the symbol of a method. -/
theorem events_entriesTokens {keys : List Text} (hKeys : ∀ key ∈ keys, IsPlainKey key)
    (name : Text) (rest : List Token) :
    events (inLiteral name) (entriesTokens keys ++ rest) =
      keys.map (fun key => .symbol (methodSymbol name key)) ++ events (inLiteral name) rest := by
  induction keys with
  | nil => rfl
  | cons key keys ih =>
      obtain ⟨hFirst, hOthers⟩ := List.forall_mem_cons.mp hKeys
      cases keys with
      | nil => exact events_entryTokens hFirst name rest
      | cons next keys =>
          have hComma : ∀ ahead, step (inLiteral name) ⟨.punctuation, ",", 1⟩ ahead =
              ⟨none, inLiteral name, ahead⟩ := fun ahead => by cases ahead <;> rfl
          rw [entriesTokens, List.append_assoc, List.cons_append, events_entryTokens hFirst, events,
            hComma, ih hOthers]
          · rfl
          · exact List.cons_ne_nil _ _

/-- The name of the object gives its symbol, and its scope begins. -/
theorem step_objectName {name : Text} (hName : Token.IsIdentifier name)
    (hFree : name ≠ "var" ∧ name ≠ "let" ∧ name ≠ "const") (ahead : List Token) :
    step { doc := some ⟨.comment, "/** D. */", 1⟩ } ⟨.name, name, 1⟩
        (⟨.punctuation, "=", 1⟩ :: ⟨.punctuation, ['{'], 1⟩ :: ahead) =
      ⟨some (.symbol (objectSymbol name)), { scopes := [⟨name, 1, false⟩] },
        ⟨.punctuation, ['{'], 1⟩ :: ahead⟩ := by
  have hWord : Literal.isDeclarator ⟨.name, name, 1⟩ = false := by
    simp [Literal.isDeclarator, Token.isNamed, hFree]
  exact Literal.step_assigned hName hWord rfl ⟨⟨.punctuation, "=", 1⟩, rfl⟩
    ⟨⟨.punctuation, ['{'], 1⟩, rfl⟩ ahead

/-- The script gives the symbol of the object and then those of the methods. -/
theorem events_scriptTokens {name : Text} {keys : List Text} (hName : Token.IsIdentifier name)
    (hFree : name ≠ "var" ∧ name ≠ "let" ∧ name ≠ "const")
    (hKeys : ∀ key ∈ keys, IsPlainKey key) :
    events {} (scriptTokens name keys) =
      .symbol (objectSymbol name) :: keys.map fun key => .symbol (methodSymbol name key) := by
  let doc : Token := ⟨.comment, "/** D. */", 1⟩
  have hDoc : ∀ ahead, step {} doc ahead = ⟨none, { doc := some doc }, ahead⟩ := fun _ => rfl
  have hVar : ∀ t ahead, step { doc := some doc } ⟨.name, "var", 1⟩ (t :: ahead) =
      ⟨none, { doc := some doc }, t :: ahead⟩ := fun _ _ => rfl
  have hOpen : ∀ ahead, step { scopes := [⟨name, 1, false⟩] } ⟨.punctuation, ['{'], 1⟩ ahead =
      ⟨none, inLiteral name, ahead⟩ := fun _ => rfl
  have hClose : ∀ ahead, step (inLiteral name) ⟨.punctuation, ['}'], 1⟩ ahead =
      ⟨none, {}, ahead⟩ := fun _ => rfl
  have hEnd : step {} ⟨.punctuation, ";", 1⟩ [] = ⟨none, {}, []⟩ := rfl
  rw [scriptTokens, events, hDoc, events, hVar, events, step_objectName hName hFree, events, hOpen,
    events_entriesTokens hKeys, events, hClose, events, hEnd, events]
  simp

/-- The outline of the script has the object and its methods. -/
theorem ofTokens_scriptTokens {name : Text} {keys : List Text} (hName : Token.IsIdentifier name)
    (hFree : name ≠ "var" ∧ name ≠ "let" ∧ name ≠ "const")
    (hKeys : ∀ key ∈ keys, IsPlainKey key) :
    ofTokens (scriptTokens name keys) =
      ⟨none, objectSymbol name :: keys.map (methodSymbol name)⟩ := by
  rw [ofTokens, events_scriptTokens hName hFree hKeys, ofEvents]
  simp [Event.overview?, Event.symbol?, List.filterMap_map, Function.comp_def]

end Symbols

/-! The document. -/

/-- What is known of a resolved symbol apart from its relations to others. -/
def header (s : Symbol) : Text × Text × Text × Symbol.Kind × List Text :=
  (s.name, s.fullName, s.memberOf, s.kind, s.inherits)

/-- The object is known by its name. -/
theorem header_settle_objectSymbol {name : Text} (hName : Token.IsIdentifier name) :
    header (settle (objectSymbol name)) = (name, name, [], .object, []) := by
  have hSlash : .char '/' ∉ name := fun hMem => (hName.ne_of_mem hMem).2.1 rfl
  rw [objectSymbol_eq, settle_of_none (splitMember?_eq_none_of_not_mem hSlash)]
  rfl

/-- A method whose key has no slash is known by the object and the key. -/
theorem header_settle_methodSymbol {name key : Text} (hName : Token.IsIdentifier name)
    (hKey : IsPlainKey key) (hSlash : .char '/' ∉ key) :
    header (settle (methodSymbol name key)) =
      (key, dotted (name ++ "/" ++ key), name, .function, []) := by
  have hSplit : splitMember? (name ++ "/" ++ key) = some (name, key) := by
    apply splitMember?_eq_some_iff.mpr
    refine ⟨List.append_assoc _ _ _, hSlash, hKey.filled, hName.ne_nil, ?_⟩
    exact fun hMem => (hName.ne_of_mem hMem).2.2 rfl
  have hDotted : dotted name = name :=
    dotted_of_not_mem fun hMem => (hName.ne_of_mem hMem).2.1 rfl
  rw [methodSymbol_eq, settle_of_some hSplit, hDotted]
  rfl

/-- The symbols of the document, apart from their relations: the object and then its members. -/
theorem document_keyScript_header (o : Options) (path name : Text) (keys : List Text) :
    (document o.visibility path
        (objectSymbol name :: keys.map (methodSymbol name)) none).1.symbols.map header =
      (objectSymbol name :: keys.map (methodSymbol name)).map fun s => header (settle s) := by
  have hAdmitted : (objectSymbol name :: keys.map (methodSymbol name)).filterMap
      (admitted? o.visibility) = objectSymbol name :: keys.map (methodSymbol name) := by
    rw [List.filterMap_cons, List.filterMap_map, objectSymbol_eq]
    have hMethod : admitted? o.visibility ∘ methodSymbol name = some ∘ methodSymbol name := by
      funext key
      rw [Function.comp_apply, Function.comp_apply, methodSymbol_eq]
      rfl
    rw [hMethod, ← List.filterMap_map, List.filterMap_some]
    rfl
  have hSymbols : (document o.visibility path (objectSymbol name :: keys.map (methodSymbol name))
      none).1.symbols = (linkAll [] ((objectSymbol name :: keys.map (methodSymbol name)).filterMap
        (admitted? o.visibility))).1 := rfl
  rw [hSymbols, hAdmitted, map_linkAll header]
  · simp
  · intro parent kind member
    cases kind <;> rfl
  · intro symbols s
    rfl

section Methods

variable {name : Text} {keys : List Text} {object : Symbol} {methods : List Symbol}

/-- All symbols behind the first one are functions whose parent it is. -/
theorem parent?_of_memberOf (hName : name ≠ []) (hObject : object.fullName = name)
    (hMethods : ∀ m ∈ methods, m.memberOf = name) {place : Nat} (hPlace : place < methods.length) :
    parent? (object :: methods) (place + 1) = some 0 := by
  have hMember : methods[place].memberOf = name := hMethods _ (List.getElem_mem hPlace)
  apply parent?_eq_some_iff.mpr
  refine ⟨methods[place], by simp, hMember ▸ hName, placeBefore?_eq_some_iff.mpr ?_⟩
  exact ⟨Nat.succ_pos _, by simp [hObject, hMember], by simp⟩

/-- All methods are members of the object. -/
theorem members_of_memberOf (hName : name ≠ []) (hObject : object.fullName = name)
    (hMethods : ∀ m ∈ methods, m.memberOf = name) (hKind : ∀ m ∈ methods, m.kind = .function)
    (hFirst : object.kind = .object) :
    members (object :: methods) .function (object :: methods).length 0 =
      (List.range methods.length).map Nat.succ := by
  rw [members, List.length_cons, List.range_succ_eq_map, List.filter_cons_of_neg (by simp [hFirst])]
  apply List.filter_eq_self.mpr
  intro place hMem
  obtain ⟨before, hBefore, rfl⟩ := List.mem_map.mp hMem
  have hPlace := List.mem_range.mp hBefore
  have hFunction : methods[before].kind = .function := hKind _ (List.getElem_mem hPlace)
  simp [parent?_of_memberOf hName hObject hMethods hPlace, hPlace, hFunction]

/-- There is no word of a parent or a base that is not there. -/
theorem allWarnings_of_memberOf (hName : name ≠ []) (hObject : object.fullName = name)
    (hFirst : object.memberOf = []) (hMethods : ∀ m ∈ methods, m.memberOf = name)
    (hBases : ∀ s ∈ object :: methods, s.inherits = []) : allWarnings (object :: methods) = [] := by
  rw [allWarnings, List.flatMap_eq_nil_iff]
  intro place hMem
  have hPlace := List.mem_range.mp hMem
  have hAt := List.getElem?_eq_getElem hPlace
  have hNoBases : baseWarnings (object :: methods) place = [] := by
    simp [baseWarnings, hAt, hBases _ (List.getElem_mem hPlace)]
  have hNoParent : parentWarnings (object :: methods) place = [] := by
    cases place with
    | zero => simp [parentWarnings, hFirst]
    | succ place =>
        have hParent := parent?_of_memberOf hName hObject hMethods (Nat.lt_of_succ_lt_succ hPlace)
        obtain ⟨s, hs, _, hBefore⟩ := parent?_eq_some_iff.mp hParent
        simp [parentWarnings, hs, hBefore]
  rw [warnings, hNoParent, hNoBases, List.append_nil]

end Methods

theorem isFresh_of_mem_keySymbols {name : Text} {keys : List Text} :
    ∀ s ∈ objectSymbol name :: keys.map (methodSymbol name), s.IsFresh := by
  refine List.forall_mem_cons.mpr ⟨Symbol.isFresh_fresh .., ?_⟩
  intro s hMem
  obtain ⟨key, _, rfl⟩ := List.mem_map.mp hMem
  exact Symbol.isFresh_fresh ..

/-- Keys without slashes come back as the names of the methods of their object, and nothing is
missed. -/
theorem hasMethods_of_no_slash (o : Options) (path : Text) {name : Text} {keys : List Text}
    (hName : Token.IsIdentifier name) (hKeys : ∀ key ∈ keys, IsPlainKey key)
    (hSlash : ∀ key ∈ keys, .char '/' ∉ key) :
    let found := document o.visibility path (objectSymbol name :: keys.map (methodSymbol name)) none
    found.1.HasMethods name keys ∧ found.2 = [] := by
  intro found
  obtain ⟨hLinked, hWarnings⟩ : Linked found.1.symbols ∧ allWarnings found.1.symbols = found.2 :=
    document_linked o.visibility path none isFresh_of_mem_keySymbols
  have hHeaders : found.1.symbols.map header = _ := document_keyScript_header o path name keys
  have hMembers : keys.map ((fun s => header (settle s)) ∘ methodSymbol name) =
      keys.map fun key => (key, dotted (name ++ "/" ++ key), name, .function, []) :=
    List.map_congr_left fun key hMem =>
      header_settle_methodSymbol hName (hKeys key hMem) (hSlash key hMem)
  rw [List.map_cons, header_settle_objectSymbol hName, List.map_map, hMembers] at hHeaders
  obtain ⟨object, methods, hSymbols, hObject, hMethods⟩ := List.map_eq_cons_iff.mp hHeaders
  simp only [header, Prod.mk.injEq] at hObject
  obtain ⟨_, hFullName, hFirst, hKind, hBases⟩ := hObject
  have hNames : methods.map Symbol.name = keys := by
    simpa [header, Function.comp_def] using congrArg (List.map Prod.fst) hMethods
  have hEach : ∀ m ∈ methods, m.memberOf = name ∧ m.kind = .function ∧ m.inherits = [] := by
    intro m hMem
    have hHeader : header m ∈ methods.map header := List.mem_map_of_mem hMem
    rw [hMethods] at hHeader
    obtain ⟨key, _, hSame⟩ := List.mem_map.mp hHeader
    simp only [header, Prod.mk.injEq] at hSame
    obtain ⟨_, _, hMember, hFunction, hNone⟩ := hSame
    exact ⟨hMember.symm, hFunction.symm, hNone.symm⟩
  rw [hSymbols] at hLinked hWarnings
  have hOwn : object.methods = _ := hLinked.own .methods 0 object rfl
  rw [Symbol.MemberList.kind, members_of_memberOf hName.ne_nil hFullName
    (fun m hm => (hEach m hm).1) (fun m hm => (hEach m hm).2.1) hKind] at hOwn
  refine ⟨⟨object, methods, ?_, ?_, hNames, fun m hm => (hEach m hm).1⟩, ?_⟩
  · simp [Document.find?, hSymbols, hFullName]
  · rw [hOwn, hSymbols]
    apply List.ext_getElem (by simp)
    intro place hLeft hRight
    have hPlace : place < methods.length := by simpa using hRight
    simp [Symbol.Ref.symbol?, hPlace]
  · rw [← hWarnings]
    refine allWarnings_of_memberOf hName.ne_nil hFullName hFirst (fun m hm => (hEach m hm).1) ?_
    exact List.forall_mem_cons.mpr ⟨hBases, fun m hm => (hEach m hm).2.2⟩

/-- A key that came back as the name of a method has no slash. -/
theorem no_slash_of_hasMethods (o : Options) (path : Text) {name : Text} {keys : List Text}
    (hName : name ≠ [])
    (h : (document o.visibility path (objectSymbol name :: keys.map (methodSymbol name))
      none).1.HasMethods name keys) : ∀ key ∈ keys, .char '/' ∉ key := by
  obtain ⟨object, methods, _, hRefs, hNames, hMembers⟩ := h
  intro key hKey
  rw [← hNames] at hKey
  obtain ⟨m, hMethod, rfl⟩ := List.mem_map.mp hKey
  have hListed : some m ∈ methods.map some := List.mem_map_of_mem hMethod
  rw [← hRefs] at hListed
  obtain ⟨ref, _, hRef⟩ := List.mem_map.mp hListed
  cases ref with
  | named fullName => cases hRef
  | here place =>
      -- The method is a raw symbol whose path was cut, or else it would have no parent.
      have hHeader := List.mem_map_of_mem (f := header) (List.mem_of_getElem? hRef)
      rw [document_keyScript_header] at hHeader
      obtain ⟨raw, hRaw, hSame⟩ := List.mem_map.mp hHeader
      have hUnrelated := (isFresh_of_mem_keySymbols raw hRaw).memberOf
      simp only [header, Prod.mk.injEq] at hSame
      obtain ⟨hRawName, _, hRawMember, _⟩ := hSame
      have hMember : (settle raw).memberOf ≠ [] := by
        rw [hRawMember, hMembers m hMethod]
        exact hName
      rw [← hRawName]
      exact settle_name_of_memberOf hUnrelated hMember

/-- Documented keys reach their object unless they have slashes. For every identifier and all keys
that can be written in quotes, the script has a document; in it the object has the keys for the
names of its methods, in their order, and no warning is given, exactly if no key has a slash. -/
theorem documents_keyScript_exact {ε : Type} (o : Options) (path name : Text) (keys : List Text)
    (hName : Token.IsIdentifier name) (hFree : name ≠ "var" ∧ name ≠ "let" ∧ name ≠ "const")
    (hKeys : ∀ key ∈ keys, IsPlainKey key) :
    let run := documents o.visibility (fun _ => (.ok (keyScript name keys) : Except ε Text)) [path]
    ∃ d, run.result = .ok [d] ∧
      ((d.HasMethods name keys ∧ ∀ m ∈ run.messages, m.level ≠ .warning) ↔
        ∀ key ∈ keys, .char '/' ∉ key) := by
  intro run
  have hRun : run = _ := documents_of_tokens (tokenize_keyScript hName hKeys) o.visibility path
  rw [ofTokens_scriptTokens hName hFree hKeys] at hRun
  dsimp only at hRun
  refine ⟨_, congrArg Logged.result hRun, ?_, ?_⟩
  · rintro ⟨hMethods, _⟩
    exact no_slash_of_hasMethods o path hName.ne_nil hMethods
  · intro hSlash
    obtain ⟨hMethods, hNone⟩ := hasMethods_of_no_slash o path hName hKeys hSlash
    refine ⟨hMethods, ?_⟩
    rw [hRun, hNone]
    simp [begun, Log.info, Log.debug]

/-- Two keys with dots and blanks, which are not cut. -/
theorem documents_keyScript_exact_lamp :
    (∀ key ∈ (["on.off", "a b"] : List Text), IsPlainKey key ∧ .char '/' ∉ key) ∧
      ∃ d, (documents ({} : Options).visibility
          (fun _ => (.ok (keyScript "Lamp" ["on.off", "a b"]) : Except Unit Text))
          ["lamp.js"]).result = .ok [d] ∧
        d.HasMethods "Lamp" ["on.off", "a b"] := by
  have hPlain : ∀ key ∈ (["on.off", "a b"] : List Text), IsPlainKey key :=
    List.forall_mem_cons.mpr ⟨⟨by decide, by decide⟩, List.forall_mem_cons.mpr
      ⟨⟨by decide, by decide⟩, nofun⟩⟩
  have hSlash : ∀ key ∈ (["on.off", "a b"] : List Text), .char '/' ∉ key := by decide
  obtain ⟨d, hResult, hExact⟩ := documents_keyScript_exact {} "lamp.js" "Lamp" ["on.off", "a b"]
    ⟨⟨'L', rfl, by decide⟩, by decide +kernel⟩ (by decide) hPlain
  exact ⟨fun key hMem => ⟨hPlain key hMem, hSlash key hMem⟩, d, hResult, (hExact.mpr hSlash).1⟩

/-- A key with a slash is cut in two: its object has no method, and a warning is given about a
parent that the script does not name. -/
theorem documents_keyScript_slash :
    IsPlainKey "a/b" ∧
      ∃ d, (documents ({} : Options).visibility (fun _ => (.ok (keyScript "Lamp" ["a/b"]) :
          Except Unit Text)) ["lamp.js"]).result = .ok [d] ∧
        ¬ d.HasMethods "Lamp" ["a/b"] ∧
        unfoundParent "b" "Lamp.a" ∈ (documents ({} : Options).visibility
          (fun _ => (.ok (keyScript "Lamp" ["a/b"]) : Except Unit Text)) ["lamp.js"]).messages := by
  have hName : Token.IsIdentifier "Lamp" := ⟨⟨'L', rfl, by decide⟩, by decide +kernel⟩
  have hKey : IsPlainKey "a/b" := ⟨by decide, by decide⟩
  have hKeys : ∀ key ∈ (["a/b"] : List Text), IsPlainKey key := List.forall_mem_singleton.mpr hKey
  have hWarning : unfoundParent "b" "Lamp.a" ∈ (document ({} : Options).visibility "lamp.js"
      [objectSymbol "Lamp", methodSymbol "Lamp" "a/b"] none).2 := by decide +kernel
  rw [documents_of_tokens (tokenize_keyScript hName hKeys),
    ofTokens_scriptTokens hName (by decide) hKeys]
  refine ⟨hKey, _, rfl, ?_, ?_⟩
  · intro hMethods
    exact no_slash_of_hasMethods {} "lamp.js" hName.ne_nil hMethods "a/b" (by decide) (by decide)
  · iterate 4 apply List.mem_cons_of_mem
    exact hWarning

end Resolution
end ScriptDoc
