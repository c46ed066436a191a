import ScriptDoc.Proofs.MemberPath.Segments
import ScriptDoc.Proofs.Outline.Origins
import ScriptDoc.Proofs.Outline.Passing
import ScriptDoc.Proofs.Token.Pieces

/-! Nested object literals. An assignment of a literal is a tree: its entries have literals, functions
or other values. Reading its tokens gives the symbols of all entries that are documented or hold a
function, an entry before those inside it. The reader does not follow the tree; it counts braces and
brackets, and what it gives does not depend on what stands in values and in bodies of functions. -/
namespace ScriptDoc.Outline

/-! Quotes around a key. -/

theorem dropWhile_quotes {w : Text} (h : ∀ c ∈ w, c ≠ '"' ∧ c ≠ '\'') :
    w.dropWhile (fun c => c == .char '\'' || c == .char '"') = w := by
  cases w with
  | nil => rfl
  | cons c w => simp [h c List.mem_cons_self]

/-- A text without quotes loses nothing. -/
theorem keyText_of_not_mem {text : Text} (h : ∀ c ∈ text, c ≠ '"' ∧ c ≠ '\'') :
    keyText text = text := by
  have hReverse := dropWhile_quotes fun c hMem => h c (List.mem_reverse.mp hMem)
  simp [keyText, Text.trimWhile, Text.dropRightWhile, dropWhile_quotes h, hReverse]

/-- Quotes around a text are lost. -/
theorem keyText_quoted {quote : CodePoint} {text : Text}
    (hQuote : quote = .char '\'' ∨ quote = .char '"') (h : ∀ c ∈ text, c ≠ '"' ∧ c ≠ '\'') :
    keyText (quote :: (text ++ [quote])) = text := by
  have hLost : (quote == .char '\'' || quote == .char '"') = true := by simpa using hQuote
  have hReverse := dropWhile_quotes fun c hMem => h c (List.mem_reverse.mp hMem)
  cases text with
  | nil => simp [keyText, Text.trimWhile, Text.dropRightWhile, hLost]
  | cons c text =>
      obtain ⟨hDouble, hSingle⟩ := h c List.mem_cons_self
      simp only [List.reverse_cons] at hReverse
      simp [keyText, Text.trimWhile, Text.dropRightWhile, hDouble, hSingle, hReverse, hLost]

/-! Literals as trees. -/

namespace Literal

/-- A piece of punctuation. -/
abbrev Sign (text : Text) : Type :=
  { t : Token // t.isPunctuation text = true }

/-- A name. -/
abbrev Name : Type :=
  { t : Token // t.isName = true }

/-- Whether a token is a word that declares variables. -/
def isDeclarator (t : Token) : Bool :=
  t.isNamed "var" || t.isNamed "let" || t.isNamed "const"

/-- The key of an entry: a name without dots, or a text in quotes that ends at the second quote. -/
inductive Key
  | name (text : Text) (line : Nat) (hName : Token.IsIdentifier text)
      (hFree : isDeclarator ⟨.name, text, line⟩ = false)
  | quoted (quote : CodePoint) (text : Text) (line : Nat)
      (hQuote : quote = .char '\'' ∨ quote = .char '"')
      (hText : ∀ c ∈ text, c ≠ '"' ∧ c ≠ '\'' ∧ c ≠ '\\' ∧ c ≠ '\n')

namespace Key

def text : Key → Text
  | .name text _ _ _ => text
  | .quoted _ text _ _ _ => text

def line : Key → Nat
  | .name _ line _ _ => line
  | .quoted _ _ line _ _ => line

def token : Key → Token
  | .name text line _ _ => ⟨.name, text, line⟩
  | .quoted quote text line _ _ => ⟨.string, quote :: (text ++ [quote]), line⟩

end Key

/-- Names with commas between them. -/
inductive Names
  | none
  | last (name : Name)
  | more (name : Name) (comma : Sign ",") (others : Names)

namespace Names

def tokens : Names → List Token
  | .none => []
  | .last name => [name.1]
  | .more name comma others => name.1 :: comma.1 :: others.tokens

def texts : Names → List Text
  | .none => []
  | .last name => [name.1.text]
  | .more name _ others => name.1.text :: others.texts

end Names

/-- A function with plain parameters. Its body neither assigns nor declares nor documents
anything. -/
structure FunctionValue where
  word : { t : Token // t.isNamed "function" = true }
  name : Option Name
  openList : Sign "("
  params : Names
  closeList : Sign ")"
  openBody : Sign ['{']
  body : List Token
  closeBody : Sign ['}']
  hNested : IsNested body
  hQuiet : ∀ t ∈ body, IsQuiet t

/-- The body of a function with its braces. -/
def FunctionValue.block (f : FunctionValue) : List Token :=
  f.openBody.1 :: (f.body ++ [f.closeBody.1])

def FunctionValue.tokens (f : FunctionValue) : List Token :=
  f.word.1 :: ((f.name.map Subtype.val).toList ++
    f.openList.1 :: (f.params.tokens ++ f.closeList.1 :: f.block))

/-- A value that is neither a function nor a literal: tokens whose brackets nest, without a comma
outside of them. -/
structure PlainValue where
  first : Token
  others : List Token
  hFunction : first.isNamed "function" = false
  hBrace : first.isPunctuation ['{'] = false
  hNested : IsNested (first :: others)
  hComma : ∀ t ∈ outside 0 (first :: others), t.isPunctuation "," = false

def PlainValue.tokens (p : PlainValue) : List Token :=
  p.first :: p.others

mutual

/-- An entry of a literal: a doc comment or none, a key, and a value behind a colon. -/
structure Entry where
  doc : Option { t : Token // Waits t }
  key : Key
  colon : Sign ":"
  value : Value

inductive Value
  | literal (openBrace : Sign ['{']) (entries : Entries) (closeBrace : Sign ['}'])
  | function (f : FunctionValue)
  | plain (p : PlainValue)

/-- Entries with commas between them. -/
inductive Entries
  | none
  | last (entry : Entry)
  | more (entry : Entry) (comma : Sign ",") (others : Entries)

end

mutual

def Entry.tokens : Entry → List Token
  | ⟨doc, key, colon, value⟩ => (doc.map Subtype.val).toList ++ key.token :: colon.1 :: value.tokens

def Value.tokens : Value → List Token
  | .literal openBrace entries closeBrace => openBrace.1 :: (entries.tokens ++ [closeBrace.1])
  | .function f => f.tokens
  | .plain p => p.tokens

def Entries.tokens : Entries → List Token
  | .none => []
  | .last entry => entry.tokens
  | .more entry comma others => entry.tokens ++ comma.1 :: others.tokens

end

/-- The path of a member. -/
def member (path key : Text) : Text :=
  path ++ "/" ++ key

mutual

/-- An entry of a literal under its path, and then the entries of its value. -/
def Entry.walk : Entry → Text → List (Text × Entry)
  | ⟨doc, key, colon, value⟩, path =>
    (member path key.text, ⟨doc, key, colon, value⟩) :: value.walk (member path key.text)

def Value.walk : Value → Text → List (Text × Entry)
  | .literal _ entries _, path => entries.walk path
  | .function _, _ => []
  | .plain _, _ => []

def Entries.walk : Entries → Text → List (Text × Entry)
  | .none, _ => []
  | .last entry, path => entry.walk path
  | .more entry _ others, path => entry.walk path ++ others.walk path

end

namespace Value

def isFunction : Value → Bool
  | .function _ => true
  | _ => false

/-- The kind of a symbol that has the value, unless a tag gives another one. -/
def kind (value : Value) : Symbol.Kind :=
  if value.isFunction then .function else .object

def params : Value → List Text
  | .function f => f.params.texts
  | _ => []

/-- Whether a value makes a symbol behind the comment. What is no function needs a comment. -/
def isDeclared (doc : Option Token) (value : Value) : Bool :=
  doc.isSome || value.isFunction

/-- The symbol of a value under a path: what the comment says about it or, without one, a function
about which nothing is said. -/
def symbol (doc : Option Token) (path : Text) (line : Nat) (value : Value) : Symbol :=
  match doc with
  | some doc => documented path value.kind (DocComment.parse doc.text) value.params line
  | none => bare path value.params line

/-- What is found out where a value begins. -/
def event? (doc : Option Token) (path : Text) (line : Nat) (value : Value) : Option Event :=
  if value.isDeclared doc then some (.symbol (value.symbol doc path line)) else none

end Value

/-- Whether an entry is documented or holds a function. -/
def Entry.isDeclared (e : Entry) : Bool :=
  e.value.isDeclared (e.doc.map Subtype.val)

/-- The symbol of an entry under its path. -/
def Entry.symbol (path : Text) (e : Entry) : Symbol :=
  e.value.symbol (e.doc.map Subtype.val) path e.key.line

/-- The symbols of entries under their paths, one for each that is documented or holds a function. -/
def symbolsOf (entries : List (Text × Entry)) : List Symbol :=
  (entries.filter (·.2.isDeclared)).map fun entry => entry.2.symbol entry.1

/-! Reading. -/

variable {s : State} {path : Text} {depth : Int} {outer : List Scope} {rest : List Token}

/-- Between two entries of a literal. -/
def within (path : Text) (depth : Int) (outer : List Scope) : State :=
  ⟨⟨path, depth, false⟩ :: outer, depth, none⟩

namespace Key

/-- A key is known by its text without quotes. -/
theorem keyText_token (key : Key) : keyText key.token.text = key.text := by
  cases key with
  | name text line hName hFree =>
      apply keyText_of_not_mem
      intro c hMem
      have hPart := hName.part c hMem
      constructor <;>
      · rintro rfl
        exact absurd hPart (by decide +kernel)
  | quoted quote text line hQuote hText =>
      exact keyText_quoted hQuote fun c hMem => ⟨(hText c hMem).1, (hText c hMem).2.1⟩

theorem isKey (key : Key) : (key.token.isName || key.token.kind == .string) = true := by
  cases key <;> rfl

theorem isInner (key : Key) : key.token.kind ≠ .comment ∧ key.token.kind ≠ .punctuation := by
  cases key <;> exact ⟨nofun, nofun⟩

/-- A key begins no declaration. -/
theorem isDeclarator_token (key : Key) : isDeclarator key.token = false := by
  cases key with
  | name text line hName hFree => exact hFree
  | quoted quote text line hQuote hText => simp [token, isDeclarator, Token.isNamed]

theorem token_line (key : Key) : key.token.line = key.line := by
  cases key <;> rfl

end Key

/-- The value behind a key, and the tokens behind it unless its members are to be read. -/
def readKeyed (s : State) (path : Text) (line : Nat) (tokens : List Token) : Step :=
  { readValue s path line tokens with
    rest := skipPlain tokens (readValue s path line tokens).rest }

/-- A key is read with its value. -/
theorem step_key (key : Key) (colon : Sign ":") (doc : Option Token) (value : List Token) :
    step { within path depth outer with doc } key.token (colon.1 :: value) =
      readKeyed { within path depth outer with doc } (member path key.text) key.line value := by
  obtain ⟨hComment, hKind⟩ := key.isInner
  have hColon := isPunctuation_iff.mp colon.2
  have hFunction : functionName? key.token (colon.1 :: value) = none := by
    simp [functionName?, Token.isName, hColon.1]
  have hAssign : afterAssign? (colon.1 :: value) = none := by
    apply afterAssign?_of_not_sign
    rintro _ ⟨⟩
    exact isPunctuation_eq_false_of_ne colon.2 (by decide)
  have hKey : afterKey? { within path depth outer with doc } (colon.1 :: value) =
      some (⟨path, depth, false⟩, value) := by
    simp [afterKey?, within, colon.2]
  have hFree := key.isDeclarator_token
  rw [isDeclarator] at hFree
  simp only [step, hComment, isPunctuation_eq_false_of_kind hKind, readPlain, hFunction, hFree, hAssign,
    key.isKey, hKey, Bool.false_eq_true, ↓reduceIte, ite_self, key.keyText_token, key.token_line]
  rfl

/-- The parameters of a function are its names. -/
theorem Names.paramsFrom_eq (names : Names) (closeList : Sign ")") (rest : List Token) :
    paramsFrom 0 true (names.tokens ++ closeList.1 :: rest) = (names.texts, rest) := by
  have hClose : ∀ expecting, paramsFrom 0 expecting (closeList.1 :: rest) = ([], rest) := by
    intro expecting
    have hCloses : closes closeList.1 = true := closes_iff.mpr ⟨.round, closeList.2⟩
    simp [paramsFrom, opens_eq_false_of_closing (b := .round) closeList.2, hCloses]
  have hName : ∀ (name : Name) ahead, paramsFrom 0 true (name.1 :: ahead) =
      (name.1.text :: (paramsFrom 0 false ahead).1, (paramsFrom 0 false ahead).2) := by
    intro name ahead
    obtain ⟨hOpens, hCloses, _⟩ := isInner_of_isName name.2
    have hKind : name.1.kind = .name := eq_of_beq name.2
    have hComma : name.1.isPunctuation "," = false :=
      isPunctuation_eq_false_of_kind (by simp [hKind])
    simp [paramsFrom, hOpens, hCloses, hComma, name.2]
  have hComma : ∀ (comma : Sign ",") ahead, paramsFrom 0 false (comma.1 :: ahead) =
      paramsFrom 0 true ahead := by
    intro comma ahead
    obtain ⟨hOpens, hCloses⟩ := not_bracket_of_comma comma.2
    simp [paramsFrom, hOpens, hCloses, comma.2]
  induction names with
  | none => exact hClose true
  | last name => simp only [tokens, texts, List.cons_append, List.nil_append, hName, hClose]
  | more name comma others ih =>
      simp only [tokens, texts, List.cons_append, hName, hComma, ih]

/-- Leaving a scope leads back to the literal around it. -/
theorem closeBrace_scope (inner : Text) (isFunction : Bool) :
    State.closeBrace ⟨⟨inner, depth + 1, isFunction⟩ :: ⟨path, depth, false⟩ :: outer, depth + 1, none⟩ =
      within path depth outer := by
  have hDepth : depth + 1 - 1 = depth := by omega
  have hInner : depth < depth + 1 := by omega
  have hOuter : ¬ depth < depth := by omega
  simp only [State.closeBrace, hDepth, List.dropWhile_cons, hInner, hOuter, decide_true, decide_false,
    Bool.false_eq_true, ↓reduceIte, within]

/-- A closing brace leads back to the scope around it. -/
theorem reads_closeBrace (closeBrace : Sign ['}']) (inner : Text) (isFunction : Bool)
    (rest : List Token) :
    Reads ⟨⟨inner, depth + 1, isFunction⟩ :: ⟨path, depth, false⟩ :: outer, depth + 1, none⟩
      (closeBrace.1 :: rest) [] (within path depth outer) rest := by
  refine .head (congrFun (step_of_closeBrace closeBrace.2 _) _) ?_
  rw [closeBrace_scope]
  exact .refl _ rest

namespace FunctionValue

/-- A function is read up to its body. -/
theorem readValue_eq (f : FunctionValue) (hOutside : s.inFunction = false) (path : Text) (line : Nat)
    (rest : List Token) :
    readValue s path line (f.tokens ++ rest) =
      ⟨some (.symbol ((Value.function f).symbol s.doc path line)),
        ⟨⟨path, s.depth + 1, true⟩ :: s.scopes, s.depth, none⟩, f.block ++ rest⟩ := by
  have hNamed : ∀ ahead, dropName ((f.name.map Subtype.val).toList ++ f.openList.1 :: ahead) =
      f.openList.1 :: ahead := by
    intro ahead
    cases f.name with
    | none =>
        have hName : f.openList.1.isName = false := by
          simp [Token.isName, (isPunctuation_iff.mp f.openList.2).1]
        simp [dropName, hName]
    | some name => simp [dropName, name.2]
  have hParams : readParams (f.openList.1 :: (f.params.tokens ++ f.closeList.1 ::
      (f.block ++ rest))) = (f.params.texts, f.block ++ rest) := by
    rw [readParams, if_pos f.openList.2, f.params.paramsFrom_eq]
  have hEnter : s.enter path true (f.block ++ rest) =
      { s with scopes := ⟨path, s.depth + 1, true⟩ :: s.scopes } := by
    simp only [block, List.cons_append, State.enter, f.openBody.2, ↓reduceIte]
  simp only [tokens, List.cons_append, List.append_assoc, readValue, f.word.2, ↓reduceIte, hNamed,
    readFunction, hParams, hEnter, hOutside, Bool.false_eq_true, State.forget]
  cases s.doc <;> rfl

/-- The body of a function is passed, and its scope is left with it. -/
theorem reads_block (f : FunctionValue) (inner : Text) (rest : List Token) :
    Reads ⟨⟨inner, depth + 1, true⟩ :: ⟨path, depth, false⟩ :: outer, depth, none⟩ (f.block ++ rest)
      [] (within path depth outer) rest := by
  have hEnd : ∀ next ∈ (f.closeBody.1 :: rest).head?, next.isPunctuation "=" = false := by
    rintro _ ⟨⟩
    exact isPunctuation_eq_false_of_ne f.closeBody.2 (by decide)
  have hBody : Reads ⟨⟨inner, depth + 1, true⟩ :: ⟨path, depth, false⟩ :: outer, depth + 1, none⟩
      (f.body ++ f.closeBody.1 :: rest) []
      ⟨⟨inner, depth + 1, true⟩ :: ⟨path, depth, false⟩ :: outer, depth + 1, none⟩
      (f.closeBody.1 :: rest) := by
    simpa using reads_quiet ⟨inner, depth + 1, true⟩ (⟨path, depth, false⟩ :: outer) rfl f.hQuiet
      f.hNested hEnd
  rw [block, List.cons_append, List.append_assoc]
  exact .head (congrFun (step_of_openBrace f.openBody.2 _) _)
    (hBody.trans (reads_closeBrace f.closeBody inner true rest))

end FunctionValue

/-- What is found out from entries under their paths. -/
def found (entries : List (Text × Entry)) : List Event :=
  (symbolsOf entries).map .symbol

/-- What an entry is about comes before what the others are about. -/
theorem found_cons (path : Text) (e : Entry) (entries : List (Text × Entry)) :
    found ((path, e) :: entries) =
      (e.value.event? (e.doc.map Subtype.val) path e.key.line).toList ++ found entries := by
  have hEvent : e.value.event? (e.doc.map Subtype.val) path e.key.line =
      if e.isDeclared then some (.symbol (e.symbol path)) else none := rfl
  rw [hEvent, found, symbolsOf, List.filter_cons]
  split <;> rfl

theorem found_append (first second : List (Text × Entry)) :
    found (first ++ second) = found first ++ found second := by
  simp [found, symbolsOf]

/-- A waiting comment is remembered. -/
theorem step_of_waits {t : Token} (h : Waits t) (s : State) (rest : List Token) :
    step s t rest = ⟨none, { s with doc := some t }, rest⟩ := by
  have hKind : t.kind = .comment := by
    have hDoc := h.isDoc
    simp only [Token.isDocComment, Bool.and_eq_true, beq_iff_eq] at hDoc
    exact hDoc.1.1
  have hOverview : Symbol.overviewTags.any (DocComment.parse t.text).tags.has = false := h.notOverview
  simp [step, hKind, h.isDoc, readDoc, hOverview, virtual?_eq_none_iff.mpr h.unnamed]

/-- Tokens behind which an entry ends. -/
def EndsEntry (rest : List Token) : Prop :=
  ∃ t ∈ rest.head?, endsValue t = true

/-- Tokens that give the symbols of some entries, wherever they stand in a literal that lies in no
function, and lead from between two entries to between two entries. -/
def GivesEntries (tokens : List Token) (entries : Text → List (Text × Entry)) : Prop :=
  ∀ (path : Text) (depth : Int) (outer : List Scope) (rest : List Token),
    outer.any Scope.isFunction = false → EndsEntry rest →
      Reads (within path depth outer) (tokens ++ rest) (found (entries path)) (within path depth outer)
        rest

/-- A value that gives its own symbol behind a key, and then those of the entries inside it. -/
def GivesValue (value : Value) : Prop :=
  ∀ (path inner : Text) (depth : Int) (outer : List Scope) (doc : Option Token) (line : Nat)
    (rest : List Token), outer.any Scope.isFunction = false → EndsEntry rest →
      ∃ next ahead, readKeyed { within path depth outer with doc } inner line (value.tokens ++ rest) =
          ⟨value.event? doc inner line, next, ahead⟩ ∧
        Reads next ahead (found (value.walk inner)) (within path depth outer) rest

theorem endsEntry_of_comma (comma : Sign ",") (rest : List Token) : EndsEntry (comma.1 :: rest) :=
  ⟨comma.1, rfl, Bool.or_eq_true_iff.mpr (Or.inr comma.2)⟩

theorem endsEntry_of_closeBrace (closeBrace : Sign ['}']) (rest : List Token) :
    EndsEntry (closeBrace.1 :: rest) :=
  ⟨closeBrace.1, rfl, Bool.or_eq_true_iff.mpr (Or.inl (closes_iff.mpr ⟨.brace, closeBrace.2⟩))⟩

/-- A function as a value gives its own symbol. -/
theorem givesValue_function (f : FunctionValue) : GivesValue (.function f) := by
  intro path inner depth outer doc line rest hOuter hRest
  have hOutside : State.inFunction { within path depth outer with doc } = false := by
    simpa [State.inFunction, within] using hOuter
  refine ⟨_, _, ?_, f.reads_block inner rest⟩
  rw [readKeyed, Value.tokens, f.readValue_eq hOutside]
  simp only [FunctionValue.tokens, List.cons_append, skipPlain, f.word.2, Bool.true_or, ↓reduceIte]
  cases doc <;> rfl

/-- A plain value gives a symbol only if it is documented. -/
theorem givesValue_plain (p : PlainValue) : GivesValue (.plain p) := by
  intro path inner depth outer doc line rest hOuter hRest
  have hSkip : skipFrom ([] : List Bracket).length (p.first :: (p.others ++ rest)) = rest :=
    skipFrom_append p.hNested p.hComma hRest
  refine ⟨_, _, ?_, .refl _ rest⟩
  simp only [readKeyed, Value.tokens, PlainValue.tokens, List.cons_append, readValue, p.hFunction,
    Bool.false_eq_true, ↓reduceIte, readValue.readOther, State.enter, p.hBrace, skipPlain, Bool.or_self]
  rw [skipValue, show skipFrom 0 (p.first :: (p.others ++ rest)) = rest from hSkip]
  cases doc <;> rfl

/-- A literal opens a scope for its entries, which is left with it. -/
theorem givesValue_literal (openBrace : Sign ['{']) (entries : Entries) (closeBrace : Sign ['}'])
    (hEntries : GivesEntries entries.tokens entries.walk) :
    GivesValue (.literal openBrace entries closeBrace) := by
  intro path inner depth outer doc line rest hOuter hRest
  have hScopes : (⟨path, depth, false⟩ :: outer).any Scope.isFunction = false := by simpa using hOuter
  have hInside := hEntries inner (depth + 1) (⟨path, depth, false⟩ :: outer) (closeBrace.1 :: rest)
    hScopes (endsEntry_of_closeBrace closeBrace rest)
  refine ⟨⟨⟨inner, depth + 1, false⟩ :: ⟨path, depth, false⟩ :: outer, depth, none⟩,
    openBrace.1 :: (entries.tokens ++ closeBrace.1 :: rest), ?_, ?_⟩
  · have hNotFunction : openBrace.1.isNamed "function" = false := by
      simp [Token.isNamed, (isPunctuation_iff.mp openBrace.2).1]
    simp only [readKeyed, Value.tokens, List.cons_append, List.append_assoc, List.nil_append, readValue,
      hNotFunction, Bool.false_eq_true, ↓reduceIte, readValue.readOther, State.enter, openBrace.2,
      skipPlain, Bool.or_true]
    cases doc <;> rfl
  · rw [Value.walk, ← List.append_nil (found _)]
    exact .head (congrFun (step_of_openBrace openBrace.2 _) _)
      (hInside.trans (reads_closeBrace closeBrace inner false rest))

/-- A comma leads to the next entry. -/
theorem step_comma (comma : Sign ",") (path : Text) (depth : Int) (outer : List Scope)
    (rest : List Token) :
    step (within path depth outer) comma.1 rest = ⟨none, within path depth outer, rest⟩ := by
  rw [step_eq_readPlain comma.2 (by decide) (by decide),
    readPlain_of_punctuation (isPunctuation_iff.mp comma.2).1]
  rfl

mutual

/-- An entry gives what its value does, and passes on. -/
theorem Entry.gives (e : Entry) : GivesEntries e.tokens e.walk := by
  obtain ⟨doc, key, colon, value⟩ := e
  intro path depth outer rest hOuter hRest
  obtain ⟨next, ahead, hValue, hAfter⟩ := value.gives path (member path key.text) depth outer
    (doc.map Subtype.val) key.line rest hOuter hRest
  have hKey := (step_key key colon (doc.map Subtype.val) (value.tokens ++ rest)).trans hValue
  have hEntry := Reads.head hKey hAfter
  rw [Entry.walk, found_cons]
  cases doc with
  | none => exact hEntry
  | some doc =>
      have hDocumented := Reads.head (step_of_waits doc.2 (within path depth outer) _) hEntry
      exact hDocumented

/-- The induction follows the literal: entries are in values, and values in entries. -/
theorem Value.gives (value : Value) : GivesValue value := by
  cases value with
  | literal openBrace entries closeBrace => exact givesValue_literal _ _ _ entries.gives
  | function f => exact givesValue_function f
  | plain p => exact givesValue_plain p

theorem Entries.gives (entries : Entries) : GivesEntries entries.tokens entries.walk := by
  intro path depth outer rest hOuter hRest
  cases entries with
  | none => exact .refl _ rest
  | last entry => exact entry.gives path depth outer rest hOuter hRest
  | more entry comma others =>
      have hEntry := entry.gives path depth outer (comma.1 :: (others.tokens ++ rest)) hOuter
        (endsEntry_of_comma comma _)
      have hOthers := Reads.head (step_comma comma path depth outer _)
        (others.gives path depth outer rest hOuter hRest)
      rw [Entries.tokens, List.append_assoc, List.cons_append, Entries.walk, found_append]
      exact hEntry.trans hOthers

end

/-- The assignment of a literal to a name without dots. -/
structure Assignment where
  word : Option { t : Token // isDeclarator t = true }
  name : Text
  line : Nat
  sign : Sign "="
  openBrace : Sign ['{']
  entries : Entries
  closeBrace : Sign ['}']
  hName : Token.IsIdentifier name
  hFree : isDeclarator ⟨.name, name, line⟩ = false

def Assignment.tokens (a : Assignment) : List Token :=
  (a.word.map Subtype.val).toList ++ ⟨.name, a.name, a.line⟩ :: a.sign.1 :: a.openBrace.1 ::
    (a.entries.tokens ++ [a.closeBrace.1])

/-- A word that declares variables is passed. -/
theorem step_declarator {t : Token} (h : isDeclarator t = true) (s : State) (rest : List Token) :
    step s t rest = ⟨none, s, rest⟩ := by
  have hWord : t.kind = .name ∧ t.text ≠ "function" := by
    simp only [isDeclarator, Token.isNamed, Bool.or_eq_true, Bool.and_eq_true, beq_iff_eq] at h
    rcases h with (⟨hKind, hText⟩ | ⟨hKind, hText⟩) | ⟨hKind, hText⟩ <;>
      exact ⟨hKind, by rw [hText]; decide⟩
  have hFunction : t.isNamed "function" = false := by simp [Token.isNamed, hWord.2]
  have hSign (text : Text) : t.isPunctuation text = false :=
    isPunctuation_eq_false_of_kind (by simp [hWord.1])
  rw [isDeclarator] at h
  simp [step, hWord.1, hSign, readPlain, functionName?_of_not_function hFunction, h]

/-- Outside of functions a name is its own path. -/
theorem qualify_of_isIdentifier {name : Text} (hName : Token.IsIdentifier name)
    (hScopes : s.scopes = []) : s.qualify name = name := by
  have hDot : .char '.' ∉ name := fun hMem => (hName.ne_of_mem hMem).1 rfl
  simp [State.qualify, hScopes, MemberPath.ofName_of_not_mem hDot]

/-- The name in front of a literal outside of all scopes gives its symbol, if a comment waits, and its
scope begins. -/
theorem step_assigned {name : Text} {line : Nat} (hName : Token.IsIdentifier name)
    (hFree : isDeclarator ⟨.name, name, line⟩ = false) (hScopes : s.scopes = []) (sign : Sign "=")
    (openBrace : Sign ['{']) (ahead : List Token) :
    step s ⟨.name, name, line⟩ (sign.1 :: openBrace.1 :: ahead) =
      ⟨s.doc.map fun doc => .symbol (documented name .object (DocComment.parse doc.text) [] line),
        ⟨[⟨name, s.depth + 1, false⟩], s.depth, none⟩, openBrace.1 :: ahead⟩ := by
  have hDot : .char '.' ∉ name := fun hMem => (hName.ne_of_mem hMem).1 rfl
  have hPrototype : isPrototype name = false := by
    by_contra hNot
    have hSuffix := List.isSuffixOf_iff_suffix.mp (Bool.not_eq_false _ ▸ hNot)
    exact hDot (hSuffix.mem (by decide))
  have hFunction : functionName? ⟨.name, name, line⟩ (sign.1 :: openBrace.1 :: ahead) = none := by
    simp [functionName?, Token.isName, (isPunctuation_iff.mp sign.2).1]
  have hEquals : openBrace.1.isPunctuation "=" = false :=
    isPunctuation_eq_false_of_ne openBrace.2 (by decide)
  have hArrow : openBrace.1.isPunctuation ">" = false :=
    isPunctuation_eq_false_of_ne openBrace.2 (by decide)
  have hAssign : afterAssign? (sign.1 :: openBrace.1 :: ahead) = some (openBrace.1 :: ahead) := by
    simp [afterAssign?, sign.2, hEquals, hArrow]
  have hWord : openBrace.1.isNamed "function" = false := by
    simp [Token.isNamed, (isPunctuation_iff.mp openBrace.2).1]
  have hPlain : step s ⟨.name, name, line⟩ (sign.1 :: openBrace.1 :: ahead) =
      readPlain s ⟨.name, name, line⟩ (sign.1 :: openBrace.1 :: ahead) := rfl
  rw [isDeclarator] at hFree
  rw [hPlain]
  simp [readPlain, hFunction, hFree, Token.isName, hAssign, hPrototype,
    qualify_of_isIdentifier hName hScopes, readValue, hWord, readValue.readOther, State.enter,
    openBrace.2, State.forget, hScopes]

/-- An assignment of a literal gives what its entries give. -/
theorem Assignment.reads (a : Assignment) (rest : List Token) :
    Reads {} (a.tokens ++ rest) (found (a.entries.walk a.name)) {} rest := by
  have hEntries := a.entries.gives a.name 1 [] (a.closeBrace.1 :: rest) rfl
    (endsEntry_of_closeBrace a.closeBrace rest)
  have hClose : Reads (within a.name 1 []) (a.closeBrace.1 :: rest) [] {} rest :=
    .head (congrFun (step_of_closeBrace a.closeBrace.2 _) _) (.refl _ rest)
  have hOpen : step ⟨[⟨a.name, 1, false⟩], 0, none⟩ a.openBrace.1 (a.entries.tokens ++
      a.closeBrace.1 :: rest) = ⟨none, within a.name 1 [], a.entries.tokens ++ a.closeBrace.1 :: rest⟩ :=
    congrFun (step_of_openBrace a.openBrace.2 _) _
  have hName := step_assigned (s := {}) a.hName a.hFree rfl a.sign a.openBrace
    (a.entries.tokens ++ a.closeBrace.1 :: rest)
  have hAssigned := Reads.head hName (.head hOpen (hEntries.trans hClose))
  rw [← List.append_nil (found _)]
  simp only [tokens, List.append_assoc, List.cons_append, List.nil_append]
  cases a.word with
  | none => exact hAssigned
  | some word =>
      have hDeclared := Reads.head (step_declarator word.2 {} _) hAssigned
      exact hDeclared

theorem ofEvents_found (entries : List (Text × Entry)) :
    ofEvents (found entries) = ⟨none, symbolsOf entries⟩ := by
  simp [ofEvents, found, List.filterMap_map, Function.comp_def, Event.overview?, Event.symbol?]

end Literal

/-- Nested literals are read completely. Of an assignment, whatever stands behind it, the symbols are
exactly those of the entries that are documented or hold a function, at any depth: each under the keys
that lead to it, an entry before the entries inside it, and these before the next one. -/
theorem ofTokens_assignment (a : Literal.Assignment) (rest : List Token) :
    ofTokens (a.tokens ++ rest) = ⟨(ofTokens rest).overview,
      Literal.symbolsOf (a.entries.walk a.name) ++ (ofTokens rest).symbols⟩ := by
  rw [ofTokens, (a.reads rest).events_eq, ofEvents_append, Literal.ofEvents_found, Option.or_none]
  rfl

namespace Literal

/-- A function whose body has a label that looks like a key. -/
def lampSwitch : FunctionValue where
  word := ⟨⟨.name, "function", 2⟩, rfl⟩
  name := some ⟨⟨.name, "go", 2⟩, rfl⟩
  openList := ⟨⟨.punctuation, "(", 2⟩, rfl⟩
  params := .more ⟨⟨.name, "a", 2⟩, rfl⟩ ⟨⟨.punctuation, ",", 2⟩, rfl⟩ (.last ⟨⟨.name, "b", 2⟩, rfl⟩)
  closeList := ⟨⟨.punctuation, ")", 2⟩, rfl⟩
  openBody := ⟨⟨.punctuation, ['{'], 2⟩, rfl⟩
  body := [⟨.name, "if", 2⟩, ⟨.punctuation, "(", 2⟩, ⟨.name, "a", 2⟩, ⟨.punctuation, ")", 2⟩,
    ⟨.punctuation, ['{'], 2⟩, ⟨.name, "b", 2⟩, ⟨.punctuation, ":", 2⟩, ⟨.number, "0", 2⟩,
    ⟨.punctuation, ['}'], 2⟩]
  closeBody := ⟨⟨.punctuation, ['}'], 2⟩, rfl⟩
  hNested := by decide
  hQuiet := by decide

/-- A choice between two values, one of them in braces. -/
def lampChoice : PlainValue where
  first := ⟨.name, "a", 3⟩
  others := [⟨.punctuation, "?", 3⟩, ⟨.punctuation, ['{'], 3⟩, ⟨.name, "k", 3⟩,
    ⟨.punctuation, ":", 3⟩, ⟨.number, "1", 3⟩, ⟨.punctuation, ",", 3⟩, ⟨.name, "m", 3⟩,
    ⟨.punctuation, ":", 3⟩, ⟨.name, "function", 3⟩, ⟨.punctuation, ['}'], 3⟩,
    ⟨.punctuation, ":", 3⟩, ⟨.name, "b", 3⟩]
  hFunction := rfl
  hBrace := rfl
  hNested := by decide
  hComma := by decide

/-- The room in the literal of the lamp. -/
def hallEntry : Entry where
  doc := some ⟨⟨.comment, "/** Hall. */", 4⟩, by decide, by decide +kernel, by decide +kernel⟩
  key := .quoted '\'' "hall" 4 (Or.inl rfl) (by decide)
  colon := ⟨⟨.punctuation, ":", 4⟩, rfl⟩
  value := .plain lampChoice

def lampEntries : Entries :=
  .more ⟨none, .name "on" 2 ⟨⟨'o', rfl, by decide⟩, by decide +kernel⟩ (by decide),
      ⟨⟨.punctuation, ":", 2⟩, rfl⟩, .function lampSwitch⟩ ⟨⟨.punctuation, ",", 2⟩, rfl⟩
    (.more ⟨none, .name "color" 3 ⟨⟨'c', rfl, by decide⟩, by decide +kernel⟩ (by decide),
        ⟨⟨.punctuation, ":", 3⟩, rfl⟩, .plain lampChoice⟩ ⟨⟨.punctuation, ",", 3⟩, rfl⟩
      (.last ⟨none, .name "rooms" 4 ⟨⟨'r', rfl, by decide⟩, by decide +kernel⟩ (by decide),
        ⟨⟨.punctuation, ":", 4⟩, rfl⟩, .literal ⟨⟨.punctuation, ['{'], 4⟩, rfl⟩ (.last hallEntry)
          ⟨⟨.punctuation, ['}'], 5⟩, rfl⟩⟩))

def lampAssignment : Assignment where
  word := some ⟨⟨.name, "var", 1⟩, rfl⟩
  name := "Lamp"
  line := 1
  sign := ⟨⟨.punctuation, "=", 1⟩, rfl⟩
  openBrace := ⟨⟨.punctuation, ['{'], 1⟩, rfl⟩
  entries := lampEntries
  closeBrace := ⟨⟨.punctuation, ['}'], 5⟩, rfl⟩
  hName := ⟨⟨'L', rfl, by decide⟩, by decide +kernel⟩
  hFree := by decide

end Literal

theorem ofTokens_assignment_lamp :
    (ofTokens (Literal.lampAssignment.tokens ++ [])).symbols.map (fun s => (s.name, s.params)) =
      [(("Lamp/on" : Text), [("a" : Text), "b"]), ("Lamp/rooms/hall", [])] := by
  rw [ofTokens_assignment]
  decide +kernel

end ScriptDoc.Outline
