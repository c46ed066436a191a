import ScriptDoc.Json.Basic
import ScriptDoc.Text.Characters
import ScriptDoc.Text.Quoted

/-! JSON values as texts. Two layouts are JSON, of ASCII characters alone: `pretty` puts every item
on a line of its own, indented by two blanks a level, and `compact` uses no blanks at all. The
literal form, in which listings and messages show values, has quoted texts and the words `True`,
`False` and `None`. -/
namespace ScriptDoc.Json

def unitEscape (n : Nat) : List Char :=
  '\\' :: 'u' :: Text.hexDigits 4 n

/-- A character of ASCII inside a JSON string. -/
def escapeAscii (c : Char) : List Char :=
  if c = '"' then ['\\', '"']
  else if c = '\\' then ['\\', '\\']
  else if c = '\n' then ['\\', 'n']
  else if c = '\r' then ['\\', 'r']
  else if c = '\t' then ['\\', 't']
  else if c.toNat = 0x8 then ['\\', 'b']
  else if c.toNat = 0xc then ['\\', 'f']
  else if 0x20 ≤ c.toNat ∧ c.toNat < 0x7f then [c]
  else unitEscape c.toNat

/-- One code point inside a JSON string. Those beyond sixteen bits are written as a surrogate pair,
and a half of a pair as it is. -/
def escapePoint (c : CodePoint) : List Char :=
  let n := c.value
  if n < 0x80 then escapeAscii (Char.ofNat n)
  else if n < 0x10000 then unitEscape n
  else unitEscape (0xd800 + (n - 0x10000) / 0x400) ++ unitEscape (0xdc00 + (n - 0x10000) % 0x400)

def writeText (t : Text) : List Char :=
  '"' :: t.flatMap escapePoint ++ ['"']

/-- The digits of a fraction around its point, which comes after `point` of them. Outside the
range of positions that are written out, a power of ten follows. -/
def positional (digits : List Char) (point : Int) : List Char :=
  if point ≤ -4 ∨ 16 < point then
    let mantissa :=
      match digits with
      | [] => ['0']
      | [d] => [d]
      | d :: rest => d :: '.' :: rest
    let power := (point - 1).natAbs
    mantissa ++ 'e' :: (if point ≤ 0 then '-' else '+') ::
      ((if power < 10 then ['0'] else []) ++ Nat.toDigits 10 power)
  else if point ≤ 0 then
    '0' :: '.' :: List.replicate (-point).toNat '0' ++ digits
  else if digits.length ≤ point.toNat then
    digits ++ List.replicate (point.toNat - digits.length) '0' ++ ['.', '0']
  else digits.take point.toNat ++ '.' :: digits.drop point.toNat

/-- A decimal fraction without zeros at its end. -/
def writeDecimal (d : Decimal) : List Char :=
  let digits := Nat.toDigits 10 d.digits
  positional (Text.dropRightWhile (· == '0') digits) (digits.length + d.exponent)

def writeFinite (negative : Bool) (mantissa : Nat) (exponent : Int) : List Char :=
  (if negative then ['-'] else []) ++
    if mantissa = 0 then ['0', '.', '0'] else writeDecimal (Double.shortest mantissa exponent)

def writeInt (n : Int) : List Char :=
  (if n < 0 then ['-'] else []) ++ Nat.toDigits 10 n.natAbs

def writeNumber : Number → List Char
  | .int n => writeInt n
  | .double (.finite negative mantissa exponent) => writeFinite negative mantissa exponent
  | .double (.infinite negative) => (if negative then "-Infinity" else "Infinity").toList
  | .double .undefined => "NaN".toList

/-- A new line, indented by two blanks a level. -/
def indent (level : Nat) : List Char :=
  '\n' :: List.replicate (2 * level) ' '

mutual

/-- A value whose inner lines are indented by `level`. -/
def prettyAt (level : Nat) : Json → List Char
  | .null => "null".toList
  | .bool b => (if b then "true" else "false").toList
  | .num n => writeNumber n
  | .str s => writeText s
  | .arr [] => ['[', ']']
  | .arr (item :: items) =>
    '[' :: indent (level + 1) ++ prettyAt (level + 1) item ++ prettyItems (level + 1) items ++
      indent level ++ [']']
  | .obj [] => ['{', '}']
  | .obj ((key, value) :: fields) =>
    '{' :: indent (level + 1) ++ writeText key ++ ':' :: ' ' :: prettyAt (level + 1) value ++
      prettyFields (level + 1) fields ++ indent level ++ ['}']

def prettyItems (level : Nat) : List Json → List Char
  | [] => []
  | item :: items => ',' :: indent level ++ prettyAt level item ++ prettyItems level items

def prettyFields (level : Nat) : List (Text × Json) → List Char
  | [] => []
  | (key, value) :: fields =>
    ',' :: indent level ++ writeText key ++ ':' :: ' ' :: prettyAt level value ++
      prettyFields level fields

end

mutual

def compactChars : Json → List Char
  | .null => "null".toList
  | .bool b => (if b then "true" else "false").toList
  | .num n => writeNumber n
  | .str s => writeText s
  | .arr [] => ['[', ']']
  | .arr (item :: items) => '[' :: compactChars item ++ compactItems items ++ [']']
  | .obj [] => ['{', '}']
  | .obj ((key, value) :: fields) =>
    '{' :: writeText key ++ ':' :: compactChars value ++ compactFields fields ++ ['}']

def compactItems : List Json → List Char
  | [] => []
  | item :: items => ',' :: compactChars item ++ compactItems items

def compactFields : List (Text × Json) → List Char
  | [] => []
  | (key, value) :: fields =>
    ',' :: writeText key ++ ':' :: compactChars value ++ compactFields fields

end

mutual

/-- The same value with the fields of every object in ascending order. -/
def sortFields : Json → Json
  | .arr items => .arr (sortFieldsItems items)
  | .obj fields => .obj (Text.ascendingBy Prod.fst (sortFieldsFields fields))
  | value => value

def sortFieldsItems : List Json → List Json
  | [] => []
  | item :: items => sortFields item :: sortFieldsItems items

/-- The fields where they are, each value with its fields in order. -/
def sortFieldsFields : List (Text × Json) → List (Text × Json)
  | [] => []
  | (key, value) :: fields => (key, sortFields value) :: sortFieldsFields fields

end

/-- The text of a document: one item or field a line. -/
def pretty (value : Json) : String :=
  String.ofList (prettyAt 0 value)

/-- The text of a value on one line, without blanks. -/
def compact (value : Json) : String :=
  String.ofList (compactChars value)

/-! The literal form. -/

def literalNumber : Number → Text
  | .double (.infinite negative) => if negative then "-inf" else "inf"
  | .double .undefined => "nan"
  | n => .ofChars (writeNumber n)

def inBraces (t : Text) : Text :=
  .char '{' :: (t ++ [.char '}'])

mutual

def literal : Json → Text
  | .null => "None"
  | .bool b => if b then "True" else "False"
  | .num n => literalNumber n
  | .str s => Text.quoted s
  | .arr [] => "[]"
  | .arr (item :: items) => "[" ++ literal item ++ literalItems items ++ "]"
  | .obj [] => "{}"
  | .obj ((key, value) :: fields) =>
    inBraces (Text.quoted key ++ ": " ++ literal value ++ literalFields fields)

def literalItems : List Json → Text
  | [] => []
  | item :: items => ", " ++ literal item ++ literalItems items

def literalFields : List (Text × Json) → Text
  | [] => []
  | (key, value) :: fields =>
    ", " ++ Text.quoted key ++ ": " ++ literal value ++ literalFields fields

end

/-- A value inside a message: a text as it is, anything else in its literal form. -/
def display : Json → Text
  | .str s => s
  | value => literal value

end ScriptDoc.Json
