import ScriptDoc.Outline.Reader

/-! Lines of tokens have no influence on the outline. Reading tokens whose lines have been erased
gives what reading the tokens gives, with the lines of symbols erased; each reader commutes with the
erasure, and so does a step, and so does a run. -/
namespace ScriptDoc

/-- The same token, on no line. -/
def Token.unlined (t : Token) : Token :=
  { t with line := 0 }

/-- The same symbol, on no line. -/
def Symbol.unlined (s : Symbol) : Symbol :=
  { s with line := 0 }

namespace Outline

def Event.unlined : Event → Event
  | .overview comment => .overview comment
  | .symbol s => .symbol s.unlined

def State.unlined (s : State) : State :=
  { s with doc := s.doc.map Token.unlined }

def Step.unlined (step : Step) : Step :=
  ⟨step.event.map Event.unlined, step.state.unlined, step.rest.map Token.unlined⟩

/-! Questions that are asked about one token. -/

@[simp] theorem isPunctuation_unlined (t : Token) (text : Text) :
    t.unlined.isPunctuation text = t.isPunctuation text := rfl

@[simp] theorem isNamed_unlined (t : Token) (text : Text) :
    t.unlined.isNamed text = t.isNamed text := rfl

@[simp] theorem isName_unlined (t : Token) : t.unlined.isName = t.isName := rfl

@[simp] theorem opens_unlined (t : Token) : opens t.unlined = opens t := rfl

@[simp] theorem closes_unlined (t : Token) : closes t.unlined = closes t := rfl

@[simp] theorem text_unlined (t : Token) : t.unlined.text = t.text := rfl

/-! Readers. -/

/-- Lines have no part in parameters. -/
theorem paramsFrom_unlined (nesting : Nat) (expecting : Bool) (tokens : List Token) :
    paramsFrom nesting expecting (tokens.map Token.unlined) =
      (paramsFrom nesting expecting tokens).map id (List.map Token.unlined) := by
  fun_induction paramsFrom nesting expecting tokens <;> simp_all [paramsFrom]
  grind

theorem readParams_unlined (tokens : List Token) :
    readParams (tokens.map Token.unlined) =
      (readParams tokens).map id (List.map Token.unlined) := by
  cases tokens with
  | nil => rfl
  | cons t rest =>
      by_cases hList : t.isPunctuation "(" = true
      · simp [readParams, hList, paramsFrom_unlined]
      · simp [readParams, hList]

/-- Lines have no part in where a value ends. -/
theorem skipFrom_unlined (nesting : Nat) (tokens : List Token) :
    skipFrom nesting (tokens.map Token.unlined) = (skipFrom nesting tokens).map Token.unlined := by
  fun_induction skipFrom nesting tokens <;> simp_all [skipFrom]

theorem skipPlain_unlined (value rest : List Token) :
    skipPlain (value.map Token.unlined) (rest.map Token.unlined) =
      (skipPlain value rest).map Token.unlined := by
  cases value with
  | nil => rfl
  | cons t others =>
      by_cases hRead : (t.isNamed "function" || t.isPunctuation ['{']) = true
      · simp [skipPlain, hRead]
      · simp [skipPlain, hRead, skipValue, skipFrom_unlined]

theorem dropName_unlined (tokens : List Token) :
    dropName (tokens.map Token.unlined) = (dropName tokens).map Token.unlined := by
  cases tokens with
  | nil => rfl
  | cons t rest => by_cases hName : t.isName = true <;> simp [dropName, hName]

theorem afterAssign?_unlined (tokens : List Token) :
    afterAssign? (tokens.map Token.unlined) =
      (afterAssign? tokens).map (List.map Token.unlined) := by
  cases tokens with
  | nil => rfl
  | cons t rest =>
      by_cases hEquals : t.isPunctuation "=" = true
      · cases rest with
        | nil => simp [afterAssign?, hEquals]
        | cons next others =>
            by_cases hNext : (next.isPunctuation "=" || next.isPunctuation ">") = true
            · simp [afterAssign?, hEquals, hNext]
            · simp [afterAssign?, hEquals, hNext]
      · simp [afterAssign?, hEquals]

/-- Lines have no part in what is a key. -/
theorem afterKey?_unlined (s : State) (tokens : List Token) :
    afterKey? s.unlined (tokens.map Token.unlined) =
      (afterKey? s tokens).map (Prod.map id (List.map Token.unlined)) := by
  obtain ⟨scopes, depth, doc⟩ := s
  cases scopes with
  | nil => rfl
  | cons scope outer =>
      cases tokens with
      | nil => rfl
      | cons t rest =>
          by_cases hKey : scope.isFunction = false ∧ scope.depth = depth ∧ t.isPunctuation ":"
          · simp [afterKey?, State.unlined, hKey]
          · simp [afterKey?, State.unlined, hKey]

theorem functionName?_unlined (t : Token) (rest : List Token) :
    functionName? t.unlined (rest.map Token.unlined) =
      (functionName? t rest).map (Prod.map Token.unlined (List.map Token.unlined)) := by
  cases rest with
  | nil => rfl
  | cons name after =>
      by_cases hFunction : (t.isNamed "function" && name.isName) = true
      · simp [functionName?, hFunction]
      · simp [functionName?, hFunction]

theorem enter_unlined (s : State) (path : Text) (isFunction : Bool) (ahead : List Token) :
    s.unlined.enter path isFunction (ahead.map Token.unlined) =
      (s.enter path isFunction ahead).unlined := by
  cases ahead with
  | nil => rfl
  | cons t rest =>
      by_cases hBrace : t.isPunctuation ['{'] = true
      · simp [State.enter, State.unlined, hBrace]
      · simp [State.enter, State.unlined, hBrace]

/-- A function without its lines is read as without its lines. -/
theorem readFunction_unlined (s : State) (path : Text) (line : Nat) (tokens : List Token) :
    readFunction s.unlined path 0 (tokens.map Token.unlined) =
      (readFunction s path line tokens).unlined := by
  have hEnter := enter_unlined s path true (readParams tokens).2
  have hDoc : s.unlined.doc = s.doc.map Token.unlined := rfl
  simp only [readFunction, readParams_unlined, Prod.map_fst, Prod.map_snd, hEnter, hDoc]
  cases s.doc with
  | some doc => rfl
  | none =>
      have hInside : s.unlined.inFunction = s.inFunction := rfl
      simp only [Option.map_none, hInside]
      cases s.inFunction <;> rfl

/-- A value without its lines is read as without its lines. -/
theorem readValue_unlined (s : State) (path : Text) (line : Nat) (tokens : List Token) :
    readValue s.unlined path 0 (tokens.map Token.unlined) =
      (readValue s path line tokens).unlined := by
  have hOther : readValue.readOther s.unlined path 0 (tokens.map Token.unlined) =
      (readValue.readOther s path line tokens).unlined := by
    simp only [readValue.readOther, enter_unlined]
    obtain ⟨scopes, depth, doc⟩ := s
    cases doc <;> rfl
  cases tokens with
  | nil => exact hOther
  | cons t rest =>
      by_cases hFunction : t.isNamed "function" = true
      · simp [readValue, hFunction, dropName_unlined, readFunction_unlined s path line]
      · rw [List.map_cons] at hOther ⊢
        simp [readValue, hFunction, hOther]

theorem virtual?_unlined (comment : DocComment) (line : Nat) :
    virtual? comment 0 = (virtual? comment line).map Symbol.unlined := by
  simp only [virtual?, Option.map_bind, Function.comp_def, Option.map_map]
  rfl

/-- A doc comment without its lines is read as without its lines. -/
theorem readDoc_unlined (s : State) (t : Token) (rest : List Token) :
    readDoc s.unlined t.unlined (rest.map Token.unlined) = (readDoc s t rest).unlined := by
  have hVirtual : virtual? (DocComment.parse t.text) t.unlined.line = _ :=
    virtual?_unlined (DocComment.parse t.text) t.line
  by_cases hOverview : Symbol.overviewTags.any (DocComment.parse t.text).tags.has = true
  · simp [readDoc, hOverview, Step.unlined, Event.unlined, State.forget, State.unlined]
  · cases hSymbol : virtual? (DocComment.parse t.text) t.line with
    | some symbol =>
        simp [readDoc, hOverview, hVirtual, hSymbol, Step.unlined, Event.unlined, State.forget,
          State.unlined]
    | none =>
        simp [readDoc, hOverview, hVirtual, hSymbol, Step.unlined, State.unlined]

theorem readPlain_unlined (s : State) (t : Token) (rest : List Token) :
    readPlain s.unlined t.unlined (rest.map Token.unlined) = (readPlain s t rest).unlined := by
  have hQualify : ∀ name, s.unlined.qualify name = s.qualify name := fun _ => rfl
  have hKind : t.unlined.kind = t.kind := rfl
  have hLine : t.unlined.line = 0 := rfl
  have hAssigned : (if t.isName then (afterAssign? rest).map (List.map Token.unlined) else none) =
      (if t.isName then afterAssign? rest else none).map (List.map Token.unlined) := by
    cases t.isName <;> rfl
  have hKeyed : (if t.isName || t.kind == .string then
        (afterKey? s rest).map (Prod.map id (List.map Token.unlined)) else none) =
      (if t.isName || t.kind == .string then afterKey? s rest else none).map
        (Prod.map id (List.map Token.unlined)) := by
    cases t.isName || t.kind == .string <;> rfl
  simp only [readPlain, functionName?_unlined, isNamed_unlined, isName_unlined, text_unlined,
    afterAssign?_unlined, afterKey?_unlined, hKind, hLine, hQualify, hAssigned, hKeyed]
  cases functionName? t rest with
  | some found => exact readFunction_unlined s _ found.1.line found.2
  | none =>
      simp only [Option.map_none]
      cases t.isNamed "var" || t.isNamed "let" || t.isNamed "const" with
      | true => rfl
      | false =>
          simp only [Bool.false_eq_true, ↓reduceIte]
          cases (if t.isName then afterAssign? rest else none) with
          | some value =>
              simp only [Option.map_some]
              cases isPrototype t.text with
              | true =>
                  simp only [↓reduceIte, enter_unlined]
                  rfl
              | false => exact readValue_unlined s _ t.line value
          | none =>
              simp only [Option.map_none]
              cases (if t.isName || t.kind == .string then afterKey? s rest else none) with
              | some found =>
                  simp only [Option.map_some, Prod.map, id_eq]
                  rw [readValue_unlined s _ t.line]
                  simp only [Step.unlined, skipPlain_unlined]
              | none => rfl

/-- One step, without lines. -/
theorem step_unlined (s : State) (t : Token) (rest : List Token) :
    step s.unlined t.unlined (rest.map Token.unlined) = (step s t rest).unlined := by
  have hKind : t.unlined.kind = t.kind := rfl
  have hDoc : t.unlined.isDocComment = t.isDocComment := rfl
  simp only [step, hKind, hDoc, isPunctuation_unlined, readDoc_unlined, readPlain_unlined]
  by_cases hComment : t.kind = .comment
  · simp only [hComment, ↓reduceIte]
    cases t.isDocComment <;> rfl
  · simp only [hComment, ↓reduceIte]
    cases t.isPunctuation ['{'] with
    | true => rfl
    | false => cases t.isPunctuation ['}'] <;> rfl

theorem toList_map_unlined (event : Option Event) :
    (event.map Event.unlined).toList = event.toList.map Event.unlined := by
  cases event <;> rfl

/-- Whatever is found out, its lines apart, does not depend on lines. -/
theorem events_unlined (s : State) (tokens : List Token) :
    events s.unlined (tokens.map Token.unlined) = (events s tokens).map Event.unlined := by
  fun_induction events s tokens with
  | case1 s => rw [List.map_nil, events, List.map_nil]
  | case2 s t rest ih =>
      rw [List.map_cons, events, step_unlined, List.map_append, ← ih, ← toList_map_unlined]
      rfl

/-- Tokens that differ in their lines alone give outlines that differ in the lines of symbols
alone. -/
theorem ofTokens_unlined (tokens : List Token) :
    ofTokens (tokens.map Token.unlined) =
      ⟨(ofTokens tokens).overview, (ofTokens tokens).symbols.map Symbol.unlined⟩ := by
  have hEvents := events_unlined {} tokens
  have hOverview : Event.overview? ∘ Event.unlined = Event.overview? := by
    funext event
    cases event <;> rfl
  have hSymbol : Event.symbol? ∘ Event.unlined = Option.map Symbol.unlined ∘ Event.symbol? := by
    funext event
    cases event <;> rfl
  change ofEvents (events (State.unlined {}) (tokens.map Token.unlined)) = _
  rw [hEvents]
  simp only [ofTokens, ofEvents, List.filterMap_map, hOverview, hSymbol, List.map_filterMap]
  rfl

end Outline
end ScriptDoc
