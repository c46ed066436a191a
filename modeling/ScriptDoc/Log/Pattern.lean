import ScriptDoc.Json.Writer
import ScriptDoc.Log
import ScriptDoc.Log.Fraction

/-! Patterns of messages. A mark begins with a percent sign and ends with the letter of its kind;
in between it may name a field, and say how the value is laid out. Marks are replaced from left to
right, each by the next argument. -/
namespace ScriptDoc.Log

inductive PatternError
  | notEnough
  | leftOver
  | wrongType
  | noFields
  | missingField
  | incomplete
  | unknownMark
  | outOfRange
  | tooLarge
  | undefinedNumber
  deriving DecidableEq, Repr

/-- What marks are replaced by: arguments in turn; or the fields of an object, when an unnamed mark
takes what is at hand, at first the object itself. -/
inductive Supply
  | arguments (rest : List Json)
  | fields (object : List (Text × Json)) (atHand : Option Json)
  deriving Repr

def Supply.take : Supply → Except PatternError (Json × Supply)
  | .arguments (arg :: rest) => .ok (arg, .arguments rest)
  | .arguments [] => .error .notEnough
  | .fields object (some value) => .ok (value, .fields object none)
  | .fields _ none => .error .notEnough

/-- The value of a named field comes to hand. -/
def Supply.select (name : Text) : Supply → Except PatternError Supply
  | .arguments _ => .error .noFields
  | .fields object _ =>
    match object.lookup name with
    | some value => .ok (.fields object (some value))
    | none => .error .missingField

def maxWidth : Nat := 0x7fffffffffffffff

def maxPrecision : Nat := 0x7fffffff

/-- A whole number for the layout, which only arguments in turn can give. It may be as great as the
limit, or one beyond it below zero. -/
def Supply.takeSize (limit : Nat) : Supply → Except PatternError (Int × Supply)
  | .arguments (.num (.int n) :: rest) =>
    if -(limit : Int) - 1 ≤ n ∧ n ≤ limit then .ok (n, .arguments rest) else .error .outOfRange
  | .arguments (.bool b :: rest) => .ok (if b then 1 else 0, .arguments rest)
  | .arguments (_ :: _) => .error .wrongType
  | _ => .error .notEnough

/-- Whether all arguments have been used. Fields need not be. -/
def Supply.isUsed : Supply → Bool
  | .arguments rest => rest.isEmpty
  | .fields _ _ => true

inductive Stage
  | start
  | name (depth : Nat) (chars : Text)
  | flags
  | width
  | afterWidth
  | point
  | precision
  | afterPrecision
  | kind
  deriving DecidableEq, Repr

/-- A mark: how far it has been read, and the layout it asks for. -/
structure Mark where
  stage : Stage := .start
  left : Bool := false
  plus : Bool := false
  blank : Bool := false
  alternate : Bool := false
  zero : Bool := false
  width : Nat := 0
  precision : Option Nat := none
  deriving DecidableEq, Repr

namespace Mark

def takesFlags (m : Mark) : Bool :=
  m.stage == .start || m.stage == .flags

def takesPoint (m : Mark) : Bool :=
  m.takesFlags || m.stage == .width || m.stage == .afterWidth

def flag? (m : Mark) (c : CodePoint) : Option Mark :=
  if m.takesFlags then
    match c with
    | .char '-' => some { m with stage := .flags, left := true }
    | .char '+' => some { m with stage := .flags, plus := true }
    | .char ' ' => some { m with stage := .flags, blank := true }
    | .char '#' => some { m with stage := .flags, alternate := true }
    | .char '0' => some { m with stage := .flags, zero := true }
    | _ => none
  else none

def fits (m : Mark) : Bool :=
  m.width ≤ maxWidth && m.precision.all (· ≤ maxPrecision)

def sizeLimit (m : Mark) : Nat :=
  if m.stage == .point then maxPrecision else maxWidth

def digit? (m : Mark) (c : CodePoint) : Option Mark :=
  if Text.isAsciiDigit c then
    let d := c.value - '0'.toNat
    if m.takesFlags || m.stage == .width then
      some { m with stage := .width, width := 10 * m.width + d }
    else if m.stage == .point || m.stage == .precision then
      some { m with stage := .precision, precision := some (10 * m.precision.getD 0 + d) }
    else none
  else none

/-- Reads a point, or a letter for a size, which does not count. -/
def sign? (m : Mark) (c : CodePoint) : Option Mark :=
  if c = '.' ∧ m.takesPoint then some { m with stage := .point, precision := some 0 }
  else if (c = 'h' ∨ c = 'l' ∨ c = 'L') ∧ m.stage ≠ .kind then some { m with stage := .kind }
  else none

/-- Reads a character that needs no argument and does not end the mark. -/
def more? (m : Mark) (c : CodePoint) : Option Mark :=
  (m.flag? c).orElse fun _ => (m.digit? c).orElse fun _ => m.sign? c

def takesSize (m : Mark) : Bool :=
  m.takesFlags || m.stage == .point

/-- Takes in a size: a width, which turns the layout round if it is negative, or a precision. -/
def withSize (m : Mark) (size : Int) : Mark :=
  if m.stage == .point then { m with stage := .afterPrecision, precision := some size.toNat }
  else { m with stage := .afterWidth, left := m.left || decide (size < 0), width := size.natAbs }

def pad (m : Mark) (t : Text) : Text :=
  let blanks := List.replicate (m.width - t.length) (.char ' ')
  if m.left then t ++ blanks else blanks ++ t

/-- A text, cut to the precision. -/
def writeText (m : Mark) (t : Text) : Text :=
  m.pad ((m.precision.map t.take).getD t)

def signOf (m : Mark) (negative : Bool) : List Char :=
  if negative then ['-'] else if m.plus then ['+'] else if m.blank then [' '] else []

/-- A number by its sign and its digits. Zeros fill the width between them if they are asked for.
-/
def writeSigned (m : Mark) (sign digits : List Char) : Text :=
  let zeros :=
    if m.zero && !m.left then List.replicate (m.width - (sign.length + digits.length)) '0' else []
  m.pad (.ofChars (sign ++ zeros ++ digits))

/-- A whole number by its digits, with at least as many of them as the precision says. -/
def writeNumber (m : Mark) (sign base digits : List Char) : Text :=
  m.writeSigned (sign ++ base)
    (List.replicate (m.precision.getD 0 - digits.length) '0' ++ digits)

end Mark

def wholeOf : Json → Except PatternError Int
  | .num (.int n) => .ok n
  | .bool b => .ok (if b then 1 else 0)
  | _ => .error .wrongType

/-- The whole number that a value is or is cut to. -/
def truncated : Json → Except PatternError Int
  | .num (.double (.finite negative mantissa exponent)) =>
    let (num, den) := Double.quotient mantissa exponent
    .ok (if negative then -((num / den : Nat) : Int) else (num / den : Nat))
  | .num (.double (.infinite _)) => .error .outOfRange
  | .num (.double .undefined) => .error .undefinedNumber
  | value => wholeOf value

/-- The number of double precision that a value is, or is nearest to. -/
def doubleOf : Json → Except PatternError Double
  | .num (.double x) => .ok x
  | value => do
    let n ← wholeOf value
    match Double.ofQuotient (decide (n < 0)) n.natAbs 1 with
    | .infinite _ => .error .outOfRange
    | x => .ok x

def characterOf : Json → Except PatternError CodePoint
  | .str [c] => .ok c
  | .str _ => .error .wrongType
  | value => do
    let n ← wholeOf value
    if 0 ≤ n ∧ n ≤ 0x10ffff then return .ofNat n.toNat else .error .outOfRange

/-- A text with escapes for what is beyond ASCII. -/
def asciiForm (t : Text) : Text :=
  t.flatMap fun c => if c.isAscii then [c] else Text.pointEscape c

/-- A whole number in some base, which an alternate form names. -/
def Mark.showWhole (m : Mark) (base : Nat) (baseName : List Char) (n : Int) : Text :=
  m.writeNumber (m.signOf (decide (n < 0))) (if m.alternate then baseName else [])
    (Nat.toDigits base n.natAbs)

/-- A number of double precision, in capitals on demand. -/
def Mark.showFraction (m : Mark) (form : FractionForm) (capitals : Bool) (x : Double) : Text :=
  let digits := writeFraction form m.alternate m.precision x
  m.writeSigned (m.signOf x.isNegative) (if capitals then digits.map Char.toUpper else digits)

/-- A value as the mark of some kind shows it. -/
def Mark.show (m : Mark) (kind : CodePoint) (value : Json) : Except PatternError Text :=
  match kind with
  | .char 's' => .ok (m.writeText value.display)
  | .char 'r' => .ok (m.writeText value.literal)
  | .char 'a' => .ok (m.writeText (asciiForm value.literal))
  | .char 'c' => do return m.pad [← characterOf value]
  | .char 'd' | .char 'i' | .char 'u' => do return m.showWhole 10 [] (← truncated value)
  | .char 'x' => do return m.showWhole 16 ['0', 'x'] (← wholeOf value)
  | .char 'X' => do
    let n ← wholeOf value
    return m.writeNumber (m.signOf (decide (n < 0))) (if m.alternate then ['0', 'X'] else [])
      ((Nat.toDigits 16 n.natAbs).map Char.toUpper)
  | .char 'o' => do return m.showWhole 8 ['0', 'o'] (← wholeOf value)
  | .char letter =>
    match FractionForm.ofLetter? letter with
    | some form => do return m.showFraction form letter.isUpper (← doubleOf value)
    | none => .error .unknownMark
  | .half _ => .error .unknownMark

/-- Fills the rest of a pattern, which may begin inside a mark. -/
def fillFrom (supply : Supply) (mark : Option Mark) : Text → Except PatternError Text
  | [] =>
    match mark with
    | some _ => .error .incomplete
    | none => if supply.isUsed then .ok [] else .error .leftOver
  | c :: rest =>
    match mark with
    | none =>
      if c = '%' then fillFrom supply (some {}) rest
      else (fillFrom supply none rest).map (c :: ·)
    | some m =>
      match m.stage with
      | .name depth chars =>
        if c = ')' then
          match depth with
          | 0 => do
            fillFrom (← supply.select chars.reverse)
              (some { m with stage := .flags }) rest
          | depth + 1 => fillFrom supply (some { m with stage := .name depth (c :: chars) }) rest
        else
          let depth := if c = '(' then depth + 1 else depth
          fillFrom supply (some { m with stage := .name depth (c :: chars) }) rest
      | stage =>
        if c = '(' ∧ stage = .start then
          match supply with
          | .arguments _ => .error .noFields
          | .fields _ _ => fillFrom supply (some { m with stage := .name 0 [] }) rest
        else if c = '*' ∧ m.takesSize then do
          let (size, supply) ← supply.takeSize m.sizeLimit
          fillFrom supply (some (m.withSize size)) rest
        else
          match m.more? c with
          | some m => if m.fits then fillFrom supply (some m) rest else .error .tooLarge
          | none =>
            if c = '%' ∧ stage = .start then (fillFrom supply none rest).map (.char '%' :: ·)
            else do
              let (value, supply) ← supply.take
              let shown ← m.show c value
              return shown ++ (← fillFrom supply none rest)

/-- What the arguments of a message supply: an object with fields that is the only one supplies
these. -/
def Supply.ofArguments : List Json → Supply
  | [.obj (first :: rest)] => .fields (first :: rest) (some (.obj (first :: rest)))
  | args => .arguments args

/-- The text of a message: without arguments the pattern is the text. -/
def formatted (pattern : Text) (args : List Json) : Except PatternError Text :=
  if args.isEmpty then .ok pattern else fillFrom (.ofArguments args) none pattern

end ScriptDoc.Log
