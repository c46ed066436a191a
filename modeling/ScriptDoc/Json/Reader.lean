import ScriptDoc.Json.Basic
import ScriptDoc.Text.Basic
import ScriptDoc.Text.Characters

/-! Reading JSON texts. A text that is not JSON is refused at the first character that rules it
out, with the cause and the place; so are whole numbers of too many digits and values that stand too
deep inside others. Besides the standard values the words `NaN`, `Infinity` and `-Infinity` are
numbers. -/
namespace ScriptDoc.Json

inductive Cause
  | expectingValue
  | expectingName
  | expectingColon
  | expectingComma
  | unterminatedString
  | controlCharacter
  | badEscape
  | badUnitEscape
  | extraData
  | byteOrderMark
  deriving DecidableEq, Repr

def Cause.message : Cause → String
  | .expectingValue => "Expecting value"
  | .expectingName => "Expecting property name enclosed in double quotes"
  | .expectingColon => "Expecting ':' delimiter"
  | .expectingComma => "Expecting ',' delimiter"
  | .unterminatedString => "Unterminated string starting at"
  | .controlCharacter => "Invalid control character at"
  | .badEscape => "Invalid \\escape"
  | .badUnitEscape => "Invalid \\uXXXX escape"
  | .extraData => "Extra data"
  | .byteOrderMark => "Unexpected UTF-8 BOM (decode using utf-8-sig)"

/-- Why reading stops: at a place, given by how many code points were left there; or for a number
of too many digits, or too many values inside each other. -/
inductive Stop
  | malformed (cause : Cause) (left : Nat)
  | tooManyDigits (count : Nat)
  | tooDeep
  deriving DecidableEq, Repr

/-- What is wrong with a text, and at which line, column and position. Lines and columns count
from one, positions from zero. -/
inductive Fault
  | malformed (cause : Cause) (line column position : Nat)
  | tooManyDigits (count : Nat)
  | tooDeep
  deriving DecidableEq, Repr

def Fault.message : Fault → String
  | .malformed cause line column position =>
    s!"{cause.message}: line {line} column {column} (char {position})"
  | .tooManyDigits count =>
    s!"Exceeds the limit ({Text.maxDigits} digits) for integer string conversion: " ++
      s!"value has {count} digits; use sys.set_int_max_str_digits() to increase the limit"
  | .tooDeep => "values are nested too deeply"

def faultAt (text : Text) (cause : Cause) (left : Nat) : Fault :=
  let position := text.length - left
  let before := text.take position
  .malformed cause (Text.newlines before + 1)
    ((before.reverse.takeWhile (· != .char '\n')).length + 1) position

/-- The fault in a text for which reading stops. -/
def Stop.fault (text : Text) : Stop → Fault
  | .malformed cause left => faultAt text cause left
  | .tooManyDigits count => .tooManyDigits count
  | .tooDeep => .tooDeep

/-- Blanks between the parts of a JSON text. -/
def isBlank (c : CodePoint) : Bool :=
  c == ' ' || c == '\t' || c == '\n' || c == '\r'

def skipBlanks (cs : Text) : Text :=
  cs.dropWhile isBlank

def unitValue? (a b c d : CodePoint) : Option Nat := do
  let digits ← [a, b, c, d].mapM Text.hexValue?
  return digits.foldl (fun n digit => 16 * n + digit) 0

def escaped? : CodePoint → Option CodePoint
  | .char '"' => some '"'
  | .char '\\' => some '\\'
  | .char '/' => some '/'
  | .char 'b' => some '\x08'
  | .char 'f' => some '\x0c'
  | .char 'n' => some '\n'
  | .char 'r' => some '\r'
  | .char 't' => some '\t'
  | _ => none

/-- A piece of a string: a code point as it stands, or the unit that an escape gives. -/
inductive Piece
  | point (c : CodePoint)
  | unit (n : Nat)
  deriving DecidableEq, Repr

/-- The text of pieces. Two escapes that give the halves of a surrogate pair are one character. -/
def joinPieces : List Piece → Text
  | [] => []
  | .point c :: rest => c :: joinPieces rest
  | .unit u :: .unit v :: rest =>
    if CodePoint.isHigh u && CodePoint.isLow v then .ofPair u v :: joinPieces rest
    else .ofNat u :: joinPieces (.unit v :: rest)
  | .unit u :: rest => .ofNat u :: joinPieces rest

/-- The pieces of a string up to its closing quote. -/
def readPieces : Text → Except Stop (List Piece × Text)
  | [] => .error (.malformed .unterminatedString 0)
  | [.char '\\'] => .error (.malformed .unterminatedString 0)
  | .char '\\' :: .char 'u' :: a :: b :: c :: d :: e :: rest =>
    match unitValue? a b c d with
    | none => .error (.malformed .badUnitEscape (rest.length + 6))
    | some n => do
      let (pieces, rest) ← readPieces (e :: rest)
      return (.unit n :: pieces, rest)
  | .char '\\' :: c :: rest =>
    match escaped? c with
    | none =>
      if c = 'u' then .error (.malformed .badUnitEscape (rest.length + 1))
      else .error (.malformed .badEscape (rest.length + 2))
    | some c => do
      let (pieces, rest) ← readPieces rest
      return (.point c :: pieces, rest)
  | c :: rest =>
    if c = '"' then .ok ([], rest)
    else if c.value < 0x20 then .error (.malformed .controlCharacter (rest.length + 1))
    else do
      let (pieces, rest) ← readPieces rest
      return (.point c :: pieces, rest)

/-- A string that is not closed is told by the place of its opening quote, right before the text
that is given. -/
def Stop.atQuote (cs : Text) : Stop → Stop
  | .malformed .unterminatedString _ => .malformed .unterminatedString (cs.length + 1)
  | stop => stop

/-- A string after its opening quote. -/
def readString (cs : Text) : Except Stop (Text × Text) := do
  let (pieces, rest) ← (readPieces cs).mapError (Stop.atQuote cs)
  return (joinPieces pieces, rest)

def spanDigits (cs : Text) : Text × Text :=
  (cs.takeWhile Text.isAsciiDigit, cs.dropWhile Text.isAsciiDigit)

/-- The part after the point: a point counts only if a digit follows. -/
def readFraction (cs : Text) : Option (Text) × Text :=
  match cs with
  | .char '.' :: c :: rest =>
    if Text.isAsciiDigit c then
      let (digits, rest) := spanDigits (c :: rest)
      (some digits, rest)
    else (none, cs)
  | _ => (none, cs)

/-- The power of ten: the letter counts only if digits follow. -/
def readExponent (cs : Text) : Option Int × Text :=
  match cs with
  | e :: rest =>
    if e = 'e' ∨ e = 'E' then
      let (sign, rest) :=
        match rest with
        | .char '-' :: rest => ((-1 : Int), rest)
        | .char '+' :: rest => (1, rest)
        | rest => (1, rest)
      match spanDigits rest with
      | ([], _) => (none, cs)
      | (digits, rest) => (some (sign * Text.digitsValue digits), rest)
    else (none, cs)
  | [] => (none, [])

/-- The digits before the point: a zero, or digits that do not begin with one. -/
def readWhole? : Text → Option (Text × Text)
  | .char '0' :: rest => some (['0'], rest)
  | c :: rest => if Text.isAsciiDigit c then some (spanDigits (c :: rest)) else none
  | [] => none

/-- A whole number of not too many digits. -/
def wholeNumber (negative : Bool) (digits : Text) : Except Stop Number :=
  if Text.maxDigits < digits.length then .error (.tooManyDigits digits.length)
  else .ok (.int (if negative then -(Text.digitsValue digits : Int) else Text.digitsValue digits))

/-- A number without its sign. A point or a power of ten makes it one of double precision. -/
def readUnsigned (negative : Bool) (cs : Text) : Except Stop (Number × Text) :=
  match readWhole? cs with
  | none => .error (.malformed .expectingValue (if negative then cs.length + 1 else cs.length))
  | some (whole, rest) =>
    let (fraction?, rest) := readFraction rest
    let (exponent?, rest) := readExponent rest
    match fraction?, exponent? with
    | none, none => (wholeNumber negative whole).map (·, rest)
    | fraction?, exponent? =>
      let fraction := fraction?.getD []
      let decimal : Decimal :=
        ⟨Text.digitsValue (whole ++ fraction), exponent?.getD 0 - fraction.length⟩
      .ok (.double (.ofDecimal negative decimal), rest)

/-- A number, or the word for the negative infinite one. -/
def readNumber (cs : Text) : Except Stop (Number × Text) :=
  match cs with
  | .char '-' :: rest =>
    match Text.dropStart? "Infinity" rest with
    | some rest => .ok (.double (.infinite true), rest)
    | none => readUnsigned true rest
  | cs => readUnsigned false cs

def words : List (Text × Json) :=
  [("null", .null), ("true", .bool true), ("false", .bool false),
    ("NaN", .num (.double .undefined)), ("Infinity", .num (.double (.infinite false)))]

def readWord (cs : Text) : List (Text × Json) → Option (Json × Text)
  | [] => none
  | (word, value) :: rest =>
    match Text.dropStart? word cs with
    | some after => some (value, after)
    | none => readWord cs rest

def readScalar (cs : Text) : Except Stop (Json × Text) :=
  match readWord cs words with
  | some found => .ok found
  | none => (readNumber cs).map fun (n, rest) => (.num n, rest)

/-- How many arrays and objects may stand inside each other. -/
def maxDepth : Nat :=
  985

mutual

/-- A value at the beginning of the characters, with at most `depth` arrays and objects inside each
other. For every character that is used up at most two units of fuel are. -/
def readValue : Nat → Nat → Text → Except Stop (Json × Text)
  | 0, _, cs => .error (.malformed .expectingValue cs.length)
  | fuel + 1, depth, cs =>
    match cs with
    | .char '"' :: rest => do
      let (s, rest) ← readString rest
      return (.str s, rest)
    | .char '[' :: rest =>
      match depth, skipBlanks rest with
      | 0, _ => .error .tooDeep
      | _, .char ']' :: rest => .ok (.arr [], rest)
      | depth + 1, rest => do
        let (items, rest) ← readItems fuel depth rest
        return (.arr items, rest)
    | .char '{' :: rest =>
      match depth, skipBlanks rest with
      | 0, _ => .error .tooDeep
      | _, .char '}' :: rest => .ok (.obj [], rest)
      | depth + 1, rest => do
        let (fields, rest) ← readFields fuel depth [] rest
        return (.obj fields, rest)
    | cs => readScalar cs

def readItems : Nat → Nat → Text → Except Stop (List Json × Text)
  | 0, _, cs => .error (.malformed .expectingValue cs.length)
  | fuel + 1, depth, cs => do
    let (item, rest) ← readValue fuel depth cs
    match skipBlanks rest with
    | .char ']' :: rest => return ([item], rest)
    | .char ',' :: rest =>
      let (items, rest) ← readItems fuel depth (skipBlanks rest)
      return (item :: items, rest)
    | rest => .error (.malformed .expectingComma rest.length)

/-- The fields of an object up to its end, added to those already read. -/
def readFields : Nat → Nat → List (Text × Json) → Text →
    Except Stop (List (Text × Json) × Text)
  | 0, _, _, cs => .error (.malformed .expectingName cs.length)
  | fuel + 1, depth, fields, cs =>
    match cs with
    | .char '"' :: rest => do
      let (name, rest) ← readString rest
      match skipBlanks rest with
      | .char ':' :: rest =>
        let (value, rest) ← readValue fuel depth (skipBlanks rest)
        let fields := Text.putEntry name value fields
        match skipBlanks rest with
        | .char '}' :: rest => return (fields, rest)
        | .char ',' :: rest => readFields fuel depth fields (skipBlanks rest)
        | rest => .error (.malformed .expectingComma rest.length)
      | rest => .error (.malformed .expectingColon rest.length)
    | cs => .error (.malformed .expectingName cs.length)

end

def readAll (cs : Text) : Except Stop Json :=
  if cs.head? = some (.ofNat 0xfeff) then .error (.malformed .byteOrderMark cs.length)
  else do
    let (value, rest) ← readValue (2 * cs.length + 2) maxDepth (skipBlanks cs)
    match skipBlanks rest with
    | [] => return value
    | rest => .error (.malformed .extraData rest.length)

def parse (text : Text) : Except Fault Json :=
  (readAll text).mapError (Stop.fault text)

end ScriptDoc.Json
