import ScriptDoc.Proofs.Outline.Lines
import ScriptDoc.Proofs.Resolution.Files
import ScriptDoc.Proofs.Token.BlankLines

/-! Blank lines do not change the documentation. A line feed more between tokens moves the lines of
tokens and nothing else; the outline depends on lines only in the lines of its symbols, and neither
links nor messages nor the written form of a document depend on these. -/
namespace ScriptDoc

namespace Resolution

/-- Lines have no part in the parent that a tag names. -/
theorem foldMemberOf_unlined (s : Symbol) : foldMemberOf s.unlined = (foldMemberOf s).unlined := by
  have hTags : s.unlined.tags = s.tags := rfl
  unfold foldMemberOf
  rw [hTags]
  split <;> rfl

/-- Lines have no part in what is documented. -/
theorem admitted?_unlined (v : Visibility) (s : Symbol) :
    admitted? v s.unlined = (admitted? v s).map Symbol.unlined := by
  have hTags : passesTags v s.unlined = passesTags v s := rfl
  have hDescription : passesDescription v (foldMemberOf s).unlined =
      passesDescription v (foldMemberOf s) := rfl
  simp only [admitted?, foldMemberOf_unlined, hTags, hDescription]
  cases passesTags v s && passesDescription v (foldMemberOf s) <;> rfl

theorem settle_unlined (s : Symbol) : settle s.unlined = (settle s).unlined := by
  have hName : s.unlined.name = s.name := rfl
  unfold settle
  rw [hName]
  split <;> rfl

theorem addMember_unlined (parent : Symbol) (kind : Symbol.Kind) (member : Symbol.Ref) :
    parent.unlined.addMember kind member = (parent.addMember kind member).unlined := by
  cases kind <;> rfl

theorem modify_addMember_unlined (symbols : List Symbol) (place : Nat) (kind : Symbol.Kind)
    (member : Symbol.Ref) :
    ((symbols.map Symbol.unlined).modify place fun p => p.addMember kind member) =
      (symbols.modify place fun p => p.addMember kind member).map Symbol.unlined := by
  apply List.ext_getElem?
  intro other
  simp only [List.getElem?_map, List.getElem?_modify, Option.map_eq_map, Option.map_map]
  congr 1
  funext p
  by_cases hPlace : place = other
  · simp [hPlace, addMember_unlined]
  · simp [hPlace]

theorem indexOf?_unlined (symbols : List Symbol) (fullName : Text) :
    Symbol.indexOf? (symbols.map Symbol.unlined) fullName = Symbol.indexOf? symbols fullName := by
  unfold Symbol.indexOf?
  rw [List.findIdx?_map]
  rfl

/-- Lines have no part in who joins whom. -/
theorem joinParent_unlined (symbols : List Symbol) (member : Bool) (s : Symbol) :
    joinParent (symbols.map Symbol.unlined) member s.unlined =
      (joinParent symbols member s).map (List.map Symbol.unlined) id := by
  have hParent : s.unlined.memberOf = s.memberOf := rfl
  cases member with
  | false => rfl
  | true =>
      simp only [joinParent, ↓reduceIte, hParent, indexOf?_unlined, List.length_map]
      cases Symbol.indexOf? symbols s.memberOf with
      | some parent =>
          have hKind : s.unlined.kind = s.kind := rfl
          simp only [hKind, modify_addMember_unlined]
          rfl
      | none => rfl

/-- Lines have no part in what is inherited. -/
theorem inheritance_unlined (symbols : List Symbol) (bases : List Text) :
    inheritance (symbols.map Symbol.unlined) bases = inheritance symbols bases := by
  induction bases with
  | nil => rfl
  | cons base bases ih =>
      have hFind : (symbols.map Symbol.unlined).find? (fun s => s.fullName == base) =
          (symbols.find? fun s => s.fullName == base).map Symbol.unlined := by
        rw [List.find?_map]
        rfl
      simp only [inheritance, ih, hFind]
      cases symbols.find? fun s => s.fullName == base <;> rfl

/-- A symbol is linked the same without lines. -/
theorem link_unlined (symbols : List Symbol) (s : Symbol) :
    link (symbols.map Symbol.unlined) s.unlined =
      (link symbols s).map (List.map Symbol.unlined) id := by
  have hMember : isMember s.unlined = isMember s := rfl
  have hBases : (settle s).unlined.inherits = (settle s).inherits := rfl
  simp only [link, settle_unlined, hMember, joinParent_unlined, Prod.map_fst, Prod.map_snd, hBases,
    inheritance_unlined]
  simp [Symbol.unlined]

/-- All symbols are linked the same without lines. -/
theorem linkAll_unlined (symbols raw : List Symbol) :
    linkAll (symbols.map Symbol.unlined) (raw.map Symbol.unlined) =
      (linkAll symbols raw).map (List.map Symbol.unlined) id := by
  induction raw generalizing symbols with
  | nil => rfl
  | cons s rest ih =>
      simp only [List.map_cons, linkAll, link_unlined, Prod.map_fst, Prod.map_snd, ih]
      rfl

end Resolution

def Document.unlined (d : Document) : Document :=
  { d with symbols := d.symbols.map Symbol.unlined }

theorem Symbol.Ref.fullNameIn_unlined (symbols : List Symbol) :
    Symbol.Ref.fullNameIn (symbols.map Symbol.unlined) = Symbol.Ref.fullNameIn symbols := by
  funext ref
  cases ref with
  | here index =>
      simp only [Symbol.Ref.fullNameIn, List.getElem?_map, Option.map_map]
      rfl
  | named fullName => rfl

/-- The line of a symbol is not published. -/
theorem Symbol.toJson_unlined (symbols : List Symbol) (s : Symbol) :
    Symbol.toJson (symbols.map Symbol.unlined) s.unlined = Symbol.toJson symbols s := by
  simp only [Symbol.toJson, Symbol.Ref.fullNameIn_unlined]
  rfl

/-- Lines are not written. -/
theorem Document.toJson_unlined (d : Document) : d.unlined.toJson = d.toJson := by
  have hOverview : d.overview.toJson (d.symbols.map Symbol.unlined) = d.overview.toJson d.symbols := by
    simp only [Symbol.toJson, Symbol.Ref.fullNameIn_unlined]
  simp only [Document.toJson, Document.unlined, hOverview, List.map_map, Function.comp_def,
    Symbol.toJson_unlined]

namespace Resolution

/-- A document is the same without lines. -/
theorem document_unlined (v : Visibility) (path : Text) (raw : List Symbol)
    (overview : Option Text) :
    document v path (raw.map Symbol.unlined) overview =
      (document v path raw overview).map Document.unlined id := by
  have hAdmitted : (raw.map Symbol.unlined).filterMap (admitted? v) =
      (raw.filterMap (admitted? v)).map Symbol.unlined := by
    rw [List.filterMap_map, List.map_filterMap]
    congr 1
    funext s
    exact admitted?_unlined v s
  have hLinked := linkAll_unlined [] (raw.filterMap (admitted? v))
  simp only [document, hAdmitted]
  rw [List.map_nil] at hLinked
  rw [hLinked]
  rfl

/-- Texts whose tokens differ in their lines alone have the same documentation. -/
theorem ofText_eq_of_unlined {ε : Type} {source other : Text} {tokens moved : List Token}
    (h : Token.tokenize source = .ok tokens) (hOther : Token.tokenize other = .ok moved)
    (hSame : moved.map Token.unlined = tokens.map Token.unlined)
    (v : Visibility) (reader : Outline.Reader) (index : Nat) (path : Text) :
    ∃ d d' r r', (ofText v reader index path (.ok source : Except ε Text)).result = .ok (d, r) ∧
      (ofText v reader index path (.ok other : Except ε Text)).result = .ok (d', r') ∧
      d'.toJson = d.toJson ∧
      (ofText v reader index path (.ok other : Except ε Text)).messages =
        (ofText v reader index path (.ok source : Except ε Text)).messages := by
  have hCount := congrArg List.length hSame
  have hOutline := congrArg Outline.ofTokens hSame
  rw [Outline.ofTokens_unlined, Outline.ofTokens_unlined] at hOutline
  injection hOutline with hOverview hSymbols
  have hSymbolCount := congrArg List.length hSymbols
  rw [List.length_map, List.length_map] at hCount hSymbolCount
  have hFound := congrArg (document v path · (Outline.ofTokens tokens).overview) hSymbols
  simp only [document_unlined] at hFound
  obtain ⟨hDocument, hMessages⟩ := Prod.ext_iff.mp hFound
  rw [ofText_of_tokens h, ofText_of_tokens hOther]
  refine ⟨_, _, _, _, rfl, rfl, ?_, ?_⟩
  · rw [hOverview, ← Document.toJson_unlined]
    exact (congrArg Document.toJson hDocument).trans (Document.toJson_unlined _)
  · have hSameMessages : (document v path (Outline.ofTokens moved).symbols
        (Outline.ofTokens tokens).overview).2 = (document v path (Outline.ofTokens tokens).symbols
        (Outline.ofTokens tokens).overview).2 := hMessages
    simp only [hOverview, hCount, hSymbolCount, hSameMessages]

/-- Blank lines do not change the documentation. Let spans place the tokens of a text, and put a line
feed behind a character that belongs to none of them; the last one of a run of white space is such a
character. The longer text has the same tokens, those behind the line feed one line further down.
For every path and all options it has a document that is written the same way, and gives the same
messages. -/
theorem ofText_newline (before after : Text) (c : CodePoint) (spans : List Token.Span)
    (hTokens : Token.tokenize (before ++ c :: after) = .ok (spans.map Token.Span.token))
    (hPlaced : Token.Placed (before ++ c :: after) 0 spans)
    (hGap : Token.IsGap spans before.length) :
    Token.tokenize (before ++ c :: .char '\n' :: after) =
        .ok (spans.map (Token.Span.moved before.length)) ∧
      ∀ (ε : Type) (o : Options) (reader : Outline.Reader) (index : Nat) (path : Text),
        ∃ d d' r r',
          (ofText o.visibility reader index path
            (.ok (before ++ c :: after) : Except ε Text)).result = .ok (d, r) ∧
          (ofText o.visibility reader index path
            (.ok (before ++ c :: .char '\n' :: after) : Except ε Text)).result = .ok (d', r') ∧
          d'.toJson = d.toJson ∧
          (ofText o.visibility reader index path
            (.ok (before ++ c :: .char '\n' :: after) : Except ε Text)).messages =
          (ofText o.visibility reader index path
            (.ok (before ++ c :: after) : Except ε Text)).messages := by
  have hNewline := Token.tokenize_newline hTokens hPlaced hGap
  refine ⟨hNewline, ?_⟩
  intro ε o reader index path
  apply ofText_eq_of_unlined hTokens hNewline
  rw [List.map_map, List.map_map]
  apply List.map_congr_left
  intro span _
  unfold Function.comp Token.Span.moved
  split <;> rfl

/-- The tokens of `/** Half. */` and, on the next line, of `half = a / 2 / c;`. -/
def halfSpans : List Token.Span :=
  [⟨0, .comment, "/** Half. */", 1⟩, ⟨13, .name, "half", 2⟩, ⟨18, .punctuation, "=", 2⟩,
    ⟨20, .name, "a", 2⟩, ⟨22, .punctuation, "/", 2⟩, ⟨24, .number, "2", 2⟩,
    ⟨26, .punctuation, "/", 2⟩, ⟨28, .name, "c", 2⟩, ⟨29, .punctuation, ";", 2⟩]

theorem ofText_newline_half :
    Token.Placed "/** Half. */\nhalf = a / 2 / c;" 0 halfSpans ∧
      Token.tokenize "/** Half. */\nhalf = a / \n2 / c;" =
        .ok ((halfSpans.take 5).map Token.Span.token ++
          [⟨.number, "2", 3⟩, ⟨.punctuation, "/", 3⟩, ⟨.name, "c", 3⟩, ⟨.punctuation, ";", 3⟩]) ∧
      ∃ d d' r r',
        (ofText ({} : Options).visibility {} 1 "a.js"
          (.ok "/** Half. */\nhalf = a / 2 / c;" : Except Unit Text)).result = .ok (d, r) ∧
        (ofText ({} : Options).visibility {} 1 "a.js"
          (.ok "/** Half. */\nhalf = a / \n2 / c;" : Except Unit Text)).result = .ok (d', r') ∧
        d'.toJson = d.toJson := by
  have hPlaced : Token.Placed "/** Half. */\nhalf = a / 2 / c;" 0 halfSpans := by decide +kernel
  obtain ⟨hTokens, hDocuments⟩ :=
    ofText_newline "/** Half. */\nhalf = a /" "2 / c;" ' ' halfSpans (by decide +kernel) hPlaced
      (by decide +kernel)
  obtain ⟨d, d', r, r', hShort, hLong, hJson, _⟩ := hDocuments Unit {} {} 1 "a.js"
  exact ⟨hPlaced, hTokens, d, d', r, r', hShort, hLong, hJson⟩

end Resolution
end ScriptDoc
