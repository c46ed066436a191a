import ScriptDoc.Text.Quoted

/-! Tokens of a script: a piece of the text, its class and the line it begins on. Only the classes
that documentation needs are told apart. A cursor is a place between two tokens of a list, from which
one can look ahead and back. -/
namespace ScriptDoc

inductive Token.Kind
  | comment
  | name
  | string
  | number
  | regex
  | punctuation
  deriving DecidableEq, Repr

/-- A piece of a script. Lines count from one. -/
structure Token where
  kind : Token.Kind
  text : Text
  line : Nat
  deriving DecidableEq, Repr

namespace Token

/-- A comment that begins with two stars documents something, unless these are all it has. -/
def isDocComment (t : Token) : Bool :=
  t.kind == .comment && (Text.ofString "/**").isPrefixOf t.text && t.text != "/**/"

def isPunctuation (t : Token) (text : Text) : Bool :=
  t.kind == .punctuation && t.text == text

def isName (t : Token) : Bool :=
  t.kind == .name

def isNamed (t : Token) (text : Text) : Bool :=
  t.kind == .name && t.text == text

def Kind.code : Kind → String
  | .comment => "COMM"
  | .name => "NAME"
  | .string => "STRN"
  | .number => "NUMB"
  | .regex => "REGX"
  | .punctuation => "PUNC"

def summary (t : Token) : Text :=
  s!"Token({t.kind.code}: " ++ Text.quoted t.text ++ s!" line {t.line})"

/-- The tokens passed, the last one first, and the tokens ahead. -/
structure Cursor where
  passed : List Token
  ahead : List Token
  deriving Repr

namespace Cursor

def start (tokens : List Token) : Cursor :=
  ⟨[], tokens⟩

def tokens (c : Cursor) : List Token :=
  c.passed.reverse ++ c.ahead

def position (c : Cursor) : Nat :=
  c.passed.length

/-- The token so many places ahead, or back if the number is negative. Zero is the next token. -/
def look (c : Cursor) (offset : Int) : Option Token :=
  match offset with
  | .ofNat n => c.ahead[n]?
  | .negSucc n => c.passed[n]?

def next (c : Cursor) : Option Token × Cursor :=
  match c.ahead with
  | [] => (none, c)
  | t :: rest => (some t, ⟨t :: c.passed, rest⟩)

def atEnd (c : Cursor) : Bool :=
  c.ahead.isEmpty

end Cursor

end Token
end ScriptDoc
