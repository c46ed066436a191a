import ScriptDoc.Outline.Scope

/-! The outline of a script: its raw symbols in source order and the comment about the file as a
whole. Declarations are named functions, assignments to dotted names and keys of object literals;
a doc comment belongs to the declaration right after it, and one with a name tag is a symbol of
its own. One step goes over a comment, a brace, a whole head of a declaration, or any other token.
A reader of outlines is used for one script after another. Between two scripts it holds what it
found in the last one, and the scopes and the depth that the last one ended with; a script whose
braces do not match leaves some of them open. -/
namespace ScriptDoc

/-- The raw symbols of a script, and the last comment about the file as a whole. -/
structure Outline where
  overview : Option Text := none
  symbols : List Symbol := []
  deriving Repr, Inhabited

namespace Outline

/-! One step. -/

inductive Event
  | overview (comment : Text)
  | symbol (s : Symbol)
  deriving Repr

/-- What one step gives: an event or none, and the state and the tokens that the next step goes on
with. -/
structure Step where
  event : Option Event
  state : State
  rest : List Token

/-- A doc comment: it is about the file, a symbol of its own, or waits for the next declaration.
-/
def readDoc (s : State) (t : Token) (rest : List Token) : Step :=
  let comment := DocComment.parse t.text
  if Symbol.overviewTags.any comment.tags.has then ⟨some (.overview t.text), s.forget, rest⟩
  else
    match virtual? comment t.line with
    | some symbol => ⟨some (.symbol symbol), s.forget, rest⟩
    | none => ⟨none, { s with doc := some t }, rest⟩

/-- A function from its parameters on. Without a comment it counts only outside of function
bodies. -/
def readFunction (s : State) (path : Text) (line : Nat) (tokens : List Token) : Step :=
  let (params, rest) := readParams tokens
  let event :=
    match s.doc with
    | some doc => some (.symbol (documented path .function (DocComment.parse doc.text) params line))
    | none => if s.inFunction then none else some (.symbol (bare path params line))
  ⟨event, (s.enter path true rest).forget, rest⟩

def dropName : List Token → List Token
  | t :: rest => if t.isName then rest else t :: rest
  | [] => []

/-- The value that is given to a path: a function, or anything else, which counts only with a
comment. -/
def readValue (s : State) (path : Text) (line : Nat) (tokens : List Token) : Step :=
  match tokens with
  | t :: rest =>
    if t.isNamed "function" then readFunction s path line (dropName rest)
    else readOther
  | [] => readOther
where
  /-- A value that is no function. -/
  readOther : Step :=
    let event := s.doc.map fun doc =>
      .symbol (documented path .object (DocComment.parse doc.text) [] line)
    ⟨event, (s.enter path false tokens).forget, tokens⟩

/-- The tokens after an equals sign that assigns: one that is not part of a comparison or an
arrow. -/
def afterAssign? (tokens : List Token) : Option (List Token) :=
  match tokens with
  | t :: rest =>
    if t.isPunctuation "=" then
      match rest with
      | next :: _ =>
        if next.isPunctuation "=" || next.isPunctuation ">" then none else some rest
      | [] => some rest
    else none
  | [] => none

/-- The object literal that a key directly belongs to, and the tokens after the colon. -/
def afterKey? (s : State) (tokens : List Token) : Option (Scope × List Token) :=
  match s.scopes, tokens with
  | scope :: _, t :: rest =>
    if scope.isFunction = false ∧ scope.depth = s.depth ∧ t.isPunctuation ":" then
      some (scope, rest)
    else none
  | _, _ => none

def keyText (text : Text) : Text :=
  Text.trimWhile (fun c => c == '\'' || c == '"') text

/-- Passes over a value unless it is a function or an object literal, whose members are read. -/
def skipPlain (value rest : List Token) : List Token :=
  match value with
  | t :: _ => if t.isNamed "function" || t.isPunctuation ['{'] then rest else skipValue rest
  | [] => rest

def functionName? (t : Token) (rest : List Token) : Option (Token × List Token) :=
  match rest with
  | name :: after => if t.isNamed "function" && name.isName then some (name, after) else none
  | [] => none

def isPrototype (name : Text) : Bool :=
  (Text.ofString ".prototype").isSuffixOf name

/-- A token that is neither comment nor brace. -/
def readPlain (s : State) (t : Token) (rest : List Token) : Step :=
  match functionName? t rest with
  | some (name, after) => readFunction s (s.qualify name.text) name.line after
  | none =>
    if t.isNamed "var" || t.isNamed "let" || t.isNamed "const" then ⟨none, s, rest⟩
    else
      match (if t.isName then afterAssign? rest else none) with
      | some value =>
        if isPrototype t.text then
          ⟨none, (s.enter (s.qualify t.text) false value).forget, value⟩
        else readValue s (s.qualify t.text) t.line value
      | none =>
        match (if t.isName || t.kind == .string then afterKey? s rest else none) with
        | some (scope, value) =>
          let step := readValue s (scope.path ++ "/" ++ keyText t.text) t.line value
          { step with rest := skipPlain value step.rest }
        | none => ⟨none, s.forget, rest⟩

def step (s : State) (t : Token) (rest : List Token) : Step :=
  if t.kind = .comment then
    if t.isDocComment then readDoc s t rest else ⟨none, s, rest⟩
  else if t.isPunctuation ['{'] then ⟨none, s.openBrace, rest⟩
  else if t.isPunctuation ['}'] then ⟨none, s.closeBrace, rest⟩
  else readPlain s t rest

theorem readDoc_suffix (s : State) (t : Token) (rest : List Token) :
    (readDoc s t rest).rest <:+ rest := by
  unfold readDoc
  dsimp only
  split
  · exact List.suffix_rfl
  · split <;> exact List.suffix_rfl

theorem dropName_suffix (tokens : List Token) : dropName tokens <:+ tokens := by
  unfold dropName
  split
  · split
    · exact List.suffix_cons _ _
    · exact List.suffix_rfl
  · exact List.suffix_rfl

/-- What is left after a value is an end of the tokens. -/
theorem readValue_suffix (s : State) (path : Text) (line : Nat) (tokens : List Token) :
    (readValue s path line tokens).rest <:+ tokens := by
  unfold readValue
  split
  · next t rest =>
    split
    · have hParams : (readParams (dropName rest)).2 <:+ dropName rest := readParams_suffix _
      exact hParams.trans ((dropName_suffix rest).trans (List.suffix_cons t rest))
    · exact List.suffix_rfl
  · exact List.suffix_rfl

theorem afterAssign?_suffix {tokens value : List Token} (h : afterAssign? tokens = some value) :
    value <:+ tokens := by
  unfold afterAssign? at h
  grind

theorem afterKey?_suffix {s : State} {tokens value : List Token} {scope : Scope}
    (h : afterKey? s tokens = some (scope, value)) : value <:+ tokens := by
  unfold afterKey? at h
  grind

/-- A function declaration begins with the word for it and its name. -/
theorem functionName?_eq_some {t name : Token} {rest after : List Token}
    (h : functionName? t rest = some (name, after)) :
    rest = name :: after ∧ t.isNamed "function" = true := by
  unfold functionName? at h
  grind

theorem skipPlain_suffix (value rest : List Token) : skipPlain value rest <:+ rest := by
  unfold skipPlain
  split
  · split
    · exact List.suffix_rfl
    · exact skipFrom_suffix 0 rest
  · exact List.suffix_rfl

theorem readPlain_suffix (s : State) (t : Token) (rest : List Token) :
    (readPlain s t rest).rest <:+ rest := by
  unfold readPlain
  split
  · next name after hName =>
    obtain ⟨rfl, _⟩ := functionName?_eq_some hName
    exact (readParams_suffix after).trans (List.suffix_cons name after)
  · split
    · exact List.suffix_rfl
    · split
      · next value hAssign =>
        have hValue : value <:+ rest := by
          split at hAssign
          · exact afterAssign?_suffix hAssign
          · cases hAssign
        split
        · exact hValue
        · exact (readValue_suffix _ _ _ _).trans hValue
      · split
        · next scope value hKey =>
          have hValue : value <:+ rest := by
            split at hKey
            · exact afterKey?_suffix hKey
            · cases hKey
          exact (skipPlain_suffix _ _).trans ((readValue_suffix _ _ _ _).trans hValue)
        · exact List.suffix_rfl

/-- A step leaves an end of the tokens. -/
theorem step_suffix (s : State) (t : Token) (rest : List Token) :
    (step s t rest).rest <:+ rest := by
  unfold step
  split
  · split
    · exact readDoc_suffix s t rest
    · exact List.suffix_rfl
  · split
    · exact List.suffix_rfl
    · split
      · exact List.suffix_rfl
      · exact readPlain_suffix s t rest

/-- A step never gives back more tokens than it was given, so reading ends. -/
theorem step_length_le (s : State) (t : Token) (rest : List Token) :
    (step s t rest).rest.length ≤ rest.length :=
  (step_suffix s t rest).length_le

/-! All steps. -/

/-- What is found out from some state on. -/
def events (s : State) : List Token → List Event
  | [] => []
  | t :: rest => (step s t rest).event.toList ++ events (step s t rest).state (step s t rest).rest
termination_by tokens => tokens.length
decreasing_by
  have hLe := step_length_le s t rest
  simp only [List.length_cons]
  omega

def Event.symbol? : Event → Option Symbol
  | .symbol s => some s
  | .overview _ => none

def Event.overview? : Event → Option Text
  | .overview comment => some comment
  | .symbol _ => none

def ofEvents (found : List Event) : Outline :=
  ⟨(found.filterMap Event.overview?).getLast?, found.filterMap Event.symbol?⟩

def ofTokens (tokens : List Token) : Outline :=
  ofEvents (events {} tokens)

/-! One script after another. -/

/-- Takes in what a step found out. A later overview replaces an earlier one. -/
def add (o : Outline) : Option Event → Outline
  | none => o
  | some (.overview comment) => { o with overview := some comment }
  | some (.symbol s) => { o with symbols := o.symbols ++ [s] }

/-- A reader between two scripts. -/
structure Reader where
  outline : Outline := {}
  scopes : List Scope := []
  depth : Int := 0
  deriving Repr, Inhabited

namespace Reader

/-- The state in which the next token is read, with the doc comment that waits. -/
def state (r : Reader) (doc : Option Token) : State :=
  { scopes := r.scopes, depth := r.depth, doc }

def after (r : Reader) (step : Step) : Reader :=
  { outline := r.outline.add step.event, scopes := step.state.scopes, depth := step.state.depth }

/-- Reads on, behind what has been read of the same script. -/
def readOn (r : Reader) (doc : Option Token) : List Token → Reader
  | [] => r
  | t :: rest =>
    let next := step (r.state doc) t rest
    readOn (r.after next) next.state.doc next.rest
termination_by tokens => tokens.length
decreasing_by
  have hLe := step_length_le (r.state doc) t rest
  simp only [List.length_cons]
  omega

def reset (r : Reader) : Reader :=
  { r with outline := {}, scopes := [], depth := 0 }

def read (r : Reader) (tokens : List Token) : Reader :=
  r.reset.readOn none tokens

end Reader

end Outline
end ScriptDoc
