import ScriptDoc.MemberPath
import ScriptDoc.Symbol.Basic
import ScriptDoc.Token.Basic

/-! What a reader of scripts knows between two tokens, and what it reads at once. Scopes are the
object literals and function bodies that are open at some place; they tell which path a declaration
there belongs to. Lists in brackets are the parameters of a function, and values of an object
literal that are passed over: commas and names count only outside inner brackets, and the three
kinds of brackets are not told apart. What a doc comment says goes into the symbol of the
declaration after it: its description and tags, the kind and the bases that tags name. -/
namespace ScriptDoc.Outline

/-! Scopes. -/

/-- An object literal or function body whose members belong to a path. The depth is that of the
tokens inside. -/
structure Scope where
  path : Text
  depth : Int
  isFunction : Bool
  deriving DecidableEq, Repr

/-- What is known between two tokens: the open scopes, innermost first, how many braces are open,
and the doc comment that waits for its declaration. More braces may have been closed than opened.
-/
structure State where
  scopes : List Scope := []
  depth : Int := 0
  doc : Option Token := none
  deriving Repr

namespace State

def forget (s : State) : State :=
  { s with doc := none }

def inFunction (s : State) : Bool :=
  s.scopes.any Scope.isFunction

/-- Opens a scope if a brace comes next. -/
def enter (s : State) (path : Text) (isFunction : Bool) (ahead : List Token) : State :=
  match ahead with
  | t :: _ =>
    if t.isPunctuation ['{'] then
      { s with scopes := ⟨path, s.depth + 1, isFunction⟩ :: s.scopes }
    else s
  | [] => s

def openBrace (s : State) : State :=
  { s with depth := s.depth + 1, doc := none }

/-- After a closing brace; scopes that lie deeper are left. -/
def closeBrace (s : State) : State :=
  { scopes := s.scopes.dropWhile fun scope => s.depth - 1 < scope.depth
    depth := s.depth - 1
    doc := none }

/-- The member path of a name. Inside a function body, `this` is the innermost function. -/
def qualify (s : State) (name : Text) : Text :=
  if name = "this" ∨ (Text.ofString "this.").isPrefixOf name then
    match s.scopes.find? Scope.isFunction with
    | some scope => MemberPath.ofName (scope.path ++ name.drop 4)
    | none => MemberPath.ofName name
  else MemberPath.ofName name

end State

/-! Lists in brackets. -/

def opens (t : Token) : Bool :=
  t.isPunctuation "(" || t.isPunctuation "[" || t.isPunctuation ['{']

def closes (t : Token) : Bool :=
  t.isPunctuation ")" || t.isPunctuation "]" || t.isPunctuation ['}']

/-- The parameters up to the closing bracket, and the tokens after it. A parameter is the first
name since the last comma; `expecting` says that it has not come yet. -/
def paramsFrom (nesting : Nat) (expecting : Bool) : List Token → List Text × List Token
  | [] => ([], [])
  | t :: rest =>
    if opens t then paramsFrom (nesting + 1) expecting rest
    else if closes t then
      match nesting with
      | 0 => ([], rest)
      | n + 1 => paramsFrom n expecting rest
    else if t.isPunctuation "," && nesting == 0 then paramsFrom nesting true rest
    else if expecting && t.isName && nesting == 0 then
      let (params, after) := paramsFrom nesting false rest
      (t.text :: params, after)
    else paramsFrom nesting expecting rest

/-- The parameters of a function whose list begins the tokens, and the tokens after the list. -/
def readParams : List Token → List Text × List Token
  | [] => ([], [])
  | t :: rest => if t.isPunctuation "(" then paramsFrom 0 true rest else ([], t :: rest)

/-- The tokens from the end of a value on, which is before a comma or a closing bracket. -/
def skipFrom (nesting : Nat) : List Token → List Token
  | [] => []
  | t :: rest =>
    if opens t then skipFrom (nesting + 1) rest
    else if closes t then
      match nesting with
      | 0 => t :: rest
      | n + 1 => skipFrom n rest
    else if t.isPunctuation "," && nesting == 0 then t :: rest
    else skipFrom nesting rest

def skipValue (tokens : List Token) : List Token :=
  skipFrom 0 tokens

def isParamChar (c : CodePoint) : Bool :=
  Text.isWord c || c == '$' || c == '.'

/-- Drops a type in braces and the white space after it; without a closing brace there is no type.
-/
def dropType (cs : Text) : Text :=
  match cs with
  | .char '{' :: rest =>
    match rest.dropWhile (· != .char '}') with
    | [] => cs
    | _ :: after => after.dropWhile Text.isSpace
  | _ => cs

def dropBracket : Text → Text
  | .char '[' :: rest => rest
  | cs => cs

/-- The name that the text of a parameter tag begins with, after a type; empty if there is none.
-/
def paramName (text : Text) : Text :=
  (dropBracket (dropType (Text.trim text))).takeWhile isParamChar

/-- What is left after parameters is an end of the tokens. -/
theorem paramsFrom_suffix (nesting : Nat) (expecting : Bool) (tokens : List Token) :
    (paramsFrom nesting expecting tokens).2 <:+ tokens := by
  fun_induction paramsFrom nesting expecting tokens with
  | case1 => exact List.suffix_rfl
  | case2 nesting expecting t rest hOpens ih => exact ih.trans (List.suffix_cons t rest)
  | case3 expecting t rest hNot hCloses => exact List.suffix_cons t rest
  | case4 expecting t rest hNot hCloses n ih => exact ih.trans (List.suffix_cons t rest)
  | case5 nesting expecting t rest hNot hNone hComma ih => exact ih.trans (List.suffix_cons t rest)
  | case6 nesting expecting t rest hNot hNone hOther hName params after hAfter ih =>
      rw [hAfter] at ih
      exact ih.trans (List.suffix_cons t rest)
  | case7 nesting expecting t rest hNot hNone hOther hName ih =>
      exact ih.trans (List.suffix_cons t rest)

theorem readParams_suffix (tokens : List Token) : (readParams tokens).2 <:+ tokens := by
  unfold readParams
  split
  · exact List.suffix_rfl
  · next t rest =>
    split
    · exact (paramsFrom_suffix 0 true rest).trans (List.suffix_cons t rest)
    · exact List.suffix_rfl

/-- What is left after a value is an end of the tokens. -/
theorem skipFrom_suffix (nesting : Nat) (tokens : List Token) :
    skipFrom nesting tokens <:+ tokens := by
  fun_induction skipFrom nesting tokens with
  | case1 => exact List.suffix_rfl
  | case2 nesting t rest hOpens ih => exact ih.trans (List.suffix_cons t rest)
  | case3 t rest hNot hCloses => exact List.suffix_rfl
  | case4 t rest hNot hCloses n ih => exact ih.trans (List.suffix_cons t rest)
  | case5 nesting t rest hNot hNone hComma => exact List.suffix_rfl
  | case6 nesting t rest hNot hNone hOther ih => exact ih.trans (List.suffix_cons t rest)

/-! Symbols of declarations. -/

def kindOf (tags : TagSet) (default : Symbol.Kind) : Symbol.Kind :=
  if tags.has "constructor" || tags.has "class" then .constructor
  else if tags.has "function" || tags.has "method" then .function
  else default

def inheritTags : List Text :=
  ["augments", "extends", "inherits"]

/-- The bases that tags name: the first word of each value, tag by tag. -/
def basesOf (tags : TagSet) : List Text :=
  inheritTags.flatMap fun tag => (tags.get tag).filterMap Text.firstWord?

def documented (path : Text) (default : Symbol.Kind) (comment : DocComment) (params : List Text)
    (line : Nat) : Symbol :=
  Symbol.fresh path (kindOf comment.tags default) comment.description comment.tags params
    (basesOf comment.tags) line

/-- The symbol of a function without a comment. -/
def bare (path : Text) (params : List Text) (line : Nat) : Symbol :=
  Symbol.fresh path .function Symbol.undocumented .empty params [] line

/-- The symbol that a comment with a name tag stands for. -/
def virtual? (comment : DocComment) (line : Nat) : Option Symbol :=
  (comment.tags.get "name").head?.bind fun value =>
    (Text.firstWord? value).map fun name =>
      let tags := comment.tags.drop "name"
      let params := ((tags.get "param").map paramName).filter (!·.isEmpty)
      documented (MemberPath.ofName name) .object { comment with tags } params line

end ScriptDoc.Outline
