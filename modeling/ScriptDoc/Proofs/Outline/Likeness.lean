import ScriptDoc.Outline.Reader
import ScriptDoc.Proofs.Token.LineEnds

/-! Tokens that are alike have the same outline. Of a comment a reader takes what it says, and of a
string its text only where it is a key. So each reader gives the same result for both lists and
leaves lists that are alike, and so does a step, and so does a run. -/
namespace ScriptDoc

namespace Token

namespace Similar

variable {t other : Token} (h : Similar t other)

include h

/-- Similar tokens differ only in comments and strings. -/
theorem is_eq {kind : Kind} (hComment : kind ≠ .comment) (hString : kind ≠ .string) (text : Text) :
    (other.kind == kind && other.text == text) = (t.kind == kind && t.text == text) := by
  rw [h.kind]
  rcases h.text with hText | hKind | hKind
  · rw [hText]
  · rw [hKind, beq_eq_false_iff_ne.mpr hComment.symm, Bool.false_and, Bool.false_and]
  · rw [hKind.1, beq_eq_false_iff_ne.mpr hString.symm, Bool.false_and, Bool.false_and]

theorem isPunctuation (text : Text) : other.isPunctuation text = t.isPunctuation text :=
  h.is_eq (by decide) (by decide) text

theorem isNamed (text : Text) : other.isNamed text = t.isNamed text :=
  h.is_eq (by decide) (by decide) text

theorem isName : other.isName = t.isName := by
  unfold Token.isName
  rw [h.kind]

theorem opens : Outline.opens other = Outline.opens t := by
  simp only [Outline.opens, h.isPunctuation]

theorem closes : Outline.closes other = Outline.closes t := by
  simp only [Outline.closes, h.isPunctuation]

theorem text_of_isName (hName : t.isName = true) : other.text = t.text := by
  have hKind : t.kind = .name := by simpa [Token.isName] using hName
  simpa [hKind] using h.text

/-- A string on one line is the same. -/
theorem text_of_line (hString : t.kind = .string) (hLine : .char '\n' ∉ t.text) :
    other.text = t.text := by
  simpa [hString, hLine] using h.text

end Similar

/-- Lists of similar tokens. -/
abbrev Alike (tokens others : List Token) : Prop :=
  List.Forall₂ Similar tokens others

end Token

namespace Outline

open Token (Similar Alike)

/-! Readers of token lists. -/

section Readers

variable {tokens others : List Token} (h : Alike tokens others)

include h

/-- Parameters are names, which are the same. -/
theorem paramsFrom_alike (nesting : Nat) (expecting : Bool) :
    (paramsFrom nesting expecting others).1 = (paramsFrom nesting expecting tokens).1 ∧
      Alike (paramsFrom nesting expecting tokens).2 (paramsFrom nesting expecting others).2 := by
  induction h generalizing nesting expecting with
  | nil => exact ⟨rfl, .nil⟩
  | @cons t other tokens others hFirst hRest ih =>
      simp only [paramsFrom, hFirst.opens, hFirst.closes, hFirst.isPunctuation, hFirst.isName]
      split
      · exact ih _ _
      · split
        · cases nesting with
          | zero => exact ⟨rfl, hRest⟩
          | succ n => exact ih _ _
        · split
          · exact ih _ _
          · split
            · next hName =>
                simp only [Bool.and_eq_true] at hName
                have hText := hFirst.text_of_isName hName.1.2
                obtain ⟨hParams, hAfter⟩ := ih nesting false
                exact ⟨by rw [hText, hParams], hAfter⟩
            · exact ih _ _

theorem readParams_alike :
    (readParams others).1 = (readParams tokens).1 ∧
      Alike (readParams tokens).2 (readParams others).2 := by
  cases h with
  | nil => exact ⟨rfl, .nil⟩
  | cons hFirst hRest =>
      simp only [readParams, hFirst.isPunctuation]
      split
      · exact paramsFrom_alike hRest 0 true
      · exact ⟨rfl, .cons hFirst hRest⟩

/-- A value ends at the same place. -/
theorem skipFrom_alike (nesting : Nat) :
    Alike (skipFrom nesting tokens) (skipFrom nesting others) := by
  induction h generalizing nesting with
  | nil => exact .nil
  | cons hFirst hRest ih =>
      simp only [skipFrom, hFirst.opens, hFirst.closes, hFirst.isPunctuation]
      split
      · exact ih _
      · split
        · cases nesting with
          | zero => exact .cons hFirst hRest
          | succ n => exact ih _
        · split
          · exact .cons hFirst hRest
          · exact ih _

theorem skipPlain_alike {rest after : List Token} (hRest : Alike rest after) :
    Alike (skipPlain tokens rest) (skipPlain others after) := by
  cases h with
  | nil => exact hRest
  | cons hFirst _ =>
      simp only [skipPlain, hFirst.isNamed, hFirst.isPunctuation]
      split
      · exact hRest
      · exact skipFrom_alike hRest 0

theorem dropName_alike : Alike (dropName tokens) (dropName others) := by
  cases h with
  | nil => exact .nil
  | cons hFirst hRest =>
      simp only [dropName, hFirst.isName]
      split
      · exact hRest
      · exact .cons hFirst hRest

end Readers

theorem afterAssign?_alike {tokens others : List Token} (h : Alike tokens others) :
    Option.Rel Alike (afterAssign? tokens) (afterAssign? others) := by
  cases h with
  | nil => exact .none
  | cons hFirst hRest =>
      simp only [afterAssign?, hFirst.isPunctuation]
      split
      · cases hRest with
        | nil => exact .some .nil
        | cons hNext hOthers =>
            simp only [hNext.isPunctuation]
            split
            · exact .none
            · exact .some (.cons hNext hOthers)
      · exact .none

/-- The tokens of a function's name are similar, and those after it alike. -/
theorem functionName?_alike {t other : Token} {rest others : List Token} (h : Similar t other)
    (hRest : Alike rest others) :
    Option.Rel (fun found found' => found'.1.text = found.1.text ∧ found'.1.line = found.1.line ∧
      Alike found.2 found'.2) (functionName? t rest) (functionName? other others) := by
  cases hRest with
  | nil => exact .none
  | cons hName hAfter =>
      simp only [functionName?, h.isNamed, hName.isName]
      split
      · next hBoth =>
          rw [Bool.and_eq_true] at hBoth
          exact .some ⟨hName.text_of_isName hBoth.2, hName.line, hAfter⟩
      · exact .none

/-! States and steps. -/

/-- What a waiting comment says. -/
def State.waiting (s : State) : Option DocComment :=
  s.doc.map fun t => DocComment.parse t.text

/-- States that differ at most in the text of the comment that waits, which says the same. -/
structure State.Like (s other : State) : Prop where
  scopes : other.scopes = s.scopes
  depth : other.depth = s.depth
  waiting : other.waiting = s.waiting

/-- What the comment of an overview says, or the one that stands for it. -/
def overviewOf (comment : Option Text) : DocComment :=
  DocComment.parse <| match comment with
    | none | some [] => Symbol.defaultOverview
    | some text => text

/-- Of an overview comment only what it says matters. -/
theorem ofOverview_eq (path : Text) (comment : Option Text) :
    Symbol.ofOverview path comment =
      match Symbol.overviewTags.find? (overviewOf comment).tags.has with
      | some tag => Symbol.fresh path .file (((overviewOf comment).tags.get tag).headD [])
          ((overviewOf comment).tags.drop tag) [] [] 0
      | none => Symbol.fresh path .file (overviewOf comment).description (overviewOf comment).tags
          [] [] 0 := rfl

/-- An event without the text of the comment. -/
def Event.content : Event → DocComment ⊕ Symbol
  | .overview comment => .inl (overviewOf (some comment))
  | .symbol s => .inr s

structure Step.Like (step other : Step) : Prop where
  event : other.event.map Event.content = step.event.map Event.content
  state : step.state.Like other.state
  rest : Alike step.rest other.rest

section States

variable {s other : State} (h : s.Like other)

include h

theorem State.Like.forget : s.forget.Like other.forget :=
  ⟨h.scopes, h.depth, rfl⟩

theorem State.Like.openBrace : s.openBrace.Like other.openBrace where
  scopes := h.scopes
  depth := by simp only [State.openBrace, h.depth]
  waiting := rfl

theorem State.Like.closeBrace : s.closeBrace.Like other.closeBrace where
  scopes := by simp only [State.closeBrace, h.scopes, h.depth]
  depth := by simp only [State.closeBrace, h.depth]
  waiting := rfl

theorem State.Like.inFunction : other.inFunction = s.inFunction := by
  simp only [State.inFunction, h.scopes]

theorem State.Like.qualify (name : Text) : other.qualify name = s.qualify name := by
  simp only [State.qualify, h.scopes]

/-- The same scope is opened. -/
theorem State.Like.enter {tokens others : List Token} (hTokens : Alike tokens others) (path : Text)
    (isFunction : Bool) :
    (s.enter path isFunction tokens).Like (other.enter path isFunction others) := by
  cases hTokens with
  | nil => exact h
  | cons hFirst _ =>
      simp only [State.enter, hFirst.isPunctuation]
      split
      · exact ⟨by simp only [h.scopes, h.depth], h.depth, h.waiting⟩
      · exact h

end States

/-- A key is told by the colon behind it. -/
theorem afterKey?_alike {s other : State} {tokens others : List Token} (h : s.Like other)
    (hTokens : Alike tokens others) :
    Option.Rel (fun found found' => found'.1 = found.1 ∧ Alike found.2 found'.2)
      (afterKey? s tokens) (afterKey? other others) := by
  unfold afterKey?
  rw [h.scopes, h.depth]
  cases s.scopes with
  | nil => exact .none
  | cons scope outer =>
      cases hTokens with
      | nil => exact .none
      | cons hFirst hRest =>
          simp only [hFirst.isPunctuation]
          split
          · exact .some ⟨rfl, hRest⟩
          · exact .none

section Steps

variable {s other : State} (h : s.Like other) {tokens others : List Token}
  (hTokens : Alike tokens others)

include h hTokens

/-- Functions are read alike. -/
theorem readFunction_alike (path : Text) (line : Nat) :
    (readFunction s path line tokens).Like (readFunction other path line others) := by
  have hEvent : ∀ (s : State) (tokens : List Token),
      (readFunction s path line tokens).event = match s.waiting with
        | some doc => some (.symbol (documented path .function doc (readParams tokens).1 line))
        | none => if s.inFunction then none
          else some (.symbol (bare path (readParams tokens).1 line)) := by
    intro s tokens
    unfold readFunction State.waiting
    cases s.doc <;> rfl
  obtain ⟨hParams, hRest⟩ := readParams_alike hTokens
  refine ⟨?_, (h.enter hRest path true).forget, hRest⟩
  rw [hEvent, hEvent, h.waiting, h.inFunction, hParams]

theorem readOther_alike (path : Text) (line : Nat) :
    (readValue.readOther s path line tokens).Like (readValue.readOther other path line others) := by
  have hEvent : ∀ (s : State) (tokens : List Token),
      (readValue.readOther s path line tokens).event =
        s.waiting.map fun doc => .symbol (documented path .object doc [] line) := by
    intro s tokens
    unfold readValue.readOther State.waiting
    rw [Option.map_map]
    rfl
  refine ⟨?_, (h.enter hTokens path false).forget, hTokens⟩
  rw [hEvent, hEvent, h.waiting]

/-- Values are read alike. -/
theorem readValue_alike (path : Text) (line : Nat) :
    (readValue s path line tokens).Like (readValue other path line others) := by
  have hOther := readOther_alike h hTokens path line
  cases hTokens with
  | nil => exact hOther
  | cons hFirst hRest =>
      simp only [readValue, hFirst.isNamed]
      split
      · exact readFunction_alike h (dropName_alike hRest) path line
      · exact hOther

/-- Doc comments are read alike, since they say the same. -/
theorem readDoc_alike {t t' : Token} (hFirst : Similar t t') (hDoc : t.isDocComment = true) :
    (readDoc s t tokens).Like (readDoc other t' others) := by
  have hParse := hFirst.parse hDoc
  have hOverview : ∀ t : Token, t.isDocComment = true →
      overviewOf (some t.text) = DocComment.parse t.text := by
    intro t hDoc
    unfold overviewOf
    cases hText : t.text with
    | nil => simp [Token.isDocComment, hText, Text.ofString, Text.ofChars] at hDoc
    | cons c text => rfl
  simp only [readDoc, hParse, hFirst.line]
  split
  · refine ⟨?_, h.forget, hTokens⟩
    simp only [Option.map_some, Event.content, hOverview t hDoc,
      hOverview t' (hFirst.doc.trans hDoc), hParse]
  · split
    · exact ⟨rfl, h.forget, hTokens⟩
    · refine ⟨rfl, ⟨h.scopes, h.depth, ?_⟩, hTokens⟩
      simp only [State.waiting, Option.map_some, hParse]

omit h in
theorem assigned_alike {t t' : Token} (hFirst : Similar t t') :
    Option.Rel (fun value value' => t'.text = t.text ∧ Alike value value')
      (if t.isName then afterAssign? tokens else none)
      (if t'.isName then afterAssign? others else none) := by
  rw [hFirst.isName]
  split
  · next hName =>
      have hAssigned := afterAssign?_alike hTokens
      generalize afterAssign? tokens = value at hAssigned ⊢
      generalize afterAssign? others = value' at hAssigned ⊢
      cases hAssigned with
      | none => exact .none
      | some hValue => exact .some ⟨hFirst.text_of_isName hName, hValue⟩
  · exact .none

/-- A key is the same if it is a name, or a string on one line. -/
theorem keyed_alike {t t' : Token} (hFirst : Similar t t')
    (hKey : t.kind = .string → (afterKey? s tokens).isSome = true → .char '\n' ∉ t.text) :
    Option.Rel (fun found found' => t'.text = t.text ∧ found'.1 = found.1 ∧ Alike found.2 found'.2)
      (if t.isName || t.kind == .string then afterKey? s tokens else none)
      (if t'.isName || t'.kind == .string then afterKey? other others else none) := by
  rw [hFirst.isName, hFirst.kind]
  split
  · next hKeyKind =>
      have hText : ∀ found, afterKey? s tokens = some found → t'.text = t.text := by
        intro found hFound
        rcases (Bool.or_eq_true _ _).mp hKeyKind with hName | hString
        · exact hFirst.text_of_isName hName
        · have hString : t.kind = .string := by simpa using hString
          exact hFirst.text_of_line hString (hKey hString (by rw [hFound]; rfl))
      have hFound := afterKey?_alike h hTokens
      generalize afterKey? s tokens = found at hFound hText ⊢
      generalize afterKey? other others = found' at hFound ⊢
      cases hFound with
      | none => exact .none
      | some hSame => exact .some ⟨hText _ rfl, hSame⟩
  · exact .none

/-- Other tokens are read alike. -/
theorem readPlain_alike {t t' : Token} (hFirst : Similar t t')
    (hKey : t.kind = .string → (afterKey? s tokens).isSome = true → .char '\n' ∉ t.text) :
    (readPlain s t tokens).Like (readPlain other t' others) := by
  have hFunction := functionName?_alike hFirst hTokens
  have hAssigned := assigned_alike hTokens hFirst
  have hKeyed := keyed_alike h hTokens hFirst hKey
  simp only [readPlain, hFirst.isNamed, h.qualify, hFirst.line]
  -- Both readers ask the same three questions. With the answers in place of the questions, the
  -- relations between the answers can be taken apart.
  revert hFunction hAssigned hKeyed
  generalize functionName? t tokens = found
  generalize functionName? t' others = found'
  generalize (if t.isName then afterAssign? tokens else none) = assigned
  generalize (if t'.isName then afterAssign? others else none) = assigned'
  generalize (if t.isName || t.kind == .string then afterKey? s tokens else none) = keyed
  generalize (if t'.isName || t'.kind == .string then afterKey? other others else none) = keyed'
  intro hFunction hAssigned hKeyed
  cases hFunction with
  | some hFound =>
      obtain ⟨hText, hLine, hAfter⟩ := hFound
      simp only [hText, hLine]
      exact readFunction_alike h hAfter _ _
  | none =>
      dsimp only
      cases t.isNamed "var" || t.isNamed "let" || t.isNamed "const" with
      | true => exact ⟨rfl, h, hTokens⟩
      | false =>
          cases hAssigned with
          | some hValue =>
              obtain ⟨hText, hValue⟩ := hValue
              simp only [hText, Bool.false_eq_true, ↓reduceIte]
              split
              · exact ⟨rfl, (h.enter hValue _ _).forget, hValue⟩
              · exact readValue_alike h hValue _ _
          | none =>
              cases hKeyed with
              | some hFound =>
                  obtain ⟨hText, hScope, hValue⟩ := hFound
                  simp only [hText, hScope]
                  have hStep := readValue_alike h hValue
                  exact ⟨(hStep _ _).event, (hStep _ _).state,
                    skipPlain_alike hValue (hStep _ _).rest⟩
              | none => exact ⟨rfl, h.forget, hTokens⟩

/-- One step finds out the same and goes on alike. -/
theorem step_alike {t t' : Token} (hFirst : Similar t t')
    (hKey : t.kind = .string → (afterKey? s tokens).isSome = true → .char '\n' ∉ t.text) :
    (step s t tokens).Like (step other t' others) := by
  simp only [step, hFirst.kind, hFirst.doc, hFirst.isPunctuation]
  split
  · split
    · next hDoc => exact readDoc_alike h hTokens hFirst hDoc
    · exact ⟨rfl, h, hTokens⟩
  · split
    · exact ⟨rfl, h.openBrace, hTokens⟩
    · split
      · exact ⟨rfl, h.closeBrace, hTokens⟩
      · exact readPlain_alike h hTokens hFirst hKey

end Steps

/-- The strings that are read as keys from some state on. -/
def stringKeys (s : State) : List Token → List Text
  | [] => []
  | t :: rest =>
    (if t.kind = .string ∧ (afterKey? s rest).isSome = true then [t.text] else []) ++
      stringKeys (step s t rest).state (step s t rest).rest
termination_by tokens => tokens.length
decreasing_by
  have hLe := step_length_le s t rest
  simp only [List.length_cons]
  omega

/-- All steps find out the same. The induction is on the number of tokens. -/
theorem events_alike {s other : State} {tokens others : List Token} (h : s.Like other)
    (hTokens : Alike tokens others) (hKeys : ∀ key ∈ stringKeys s tokens, .char '\n' ∉ key) :
    (events other others).map Event.content = (events s tokens).map Event.content := by
  fun_induction events s tokens generalizing other others with
  | case1 s =>
      cases hTokens
      rw [events]
  | case2 s t rest ih =>
      rw [stringKeys, List.forall_mem_append] at hKeys
      cases hTokens with
      | cons hFirst hRest =>
          have hStep := step_alike h hRest hFirst fun hString hKey =>
            hKeys.1 t.text (by simp [hString, hKey])
          rw [events, List.map_append, List.map_append, ih hStep.state hStep.rest hKeys.2,
            ← Option.toList_map, ← Option.toList_map, hStep.event]

theorem overviewOf_eq (comment : Option Text) :
    overviewOf comment =
      (comment.map fun text => overviewOf (some text)).getD (overviewOf none) := by
  cases comment <;> rfl

/-- Tokens that are alike have the same symbols, and overviews that say the same, if every key is on
one line. -/
theorem ofTokens_alike {tokens others : List Token} (h : Alike tokens others)
    (hKeys : ∀ key ∈ stringKeys {} tokens, .char '\n' ∉ key) :
    (ofTokens others).symbols = (ofTokens tokens).symbols ∧
      overviewOf (ofTokens others).overview = overviewOf (ofTokens tokens).overview := by
  have hStart : State.Like {} {} := ⟨rfl, rfl, rfl⟩
  have hContent := events_alike hStart h hKeys
  have hSymbols : ∀ found : List Event, found.filterMap Event.symbol? =
      (found.map Event.content).filterMap Sum.getRight? := by
    intro found
    rw [List.filterMap_map]
    congr 1
    funext event
    cases event <;> rfl
  have hOverviews : ∀ found : List Event,
      (found.filterMap Event.overview?).map (fun text => overviewOf (some text)) =
        (found.map Event.content).filterMap Sum.getLeft? := by
    intro found
    rw [List.filterMap_map, List.map_filterMap]
    congr 1
    funext event
    cases event <;> rfl
  constructor
  · simp only [ofTokens, ofEvents, hSymbols, hContent]
  · rw [overviewOf_eq (ofTokens others).overview, overviewOf_eq (ofTokens tokens).overview]
    simp only [ofTokens, ofEvents, ← List.getLast?_map, hOverviews, hContent]

end Outline
end ScriptDoc
