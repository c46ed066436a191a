import ScriptDoc.Json.Double
import ScriptDoc.Text.Characters

/-! Fractions in messages: with a fixed number of places, with a power of ten, or in whichever of
the two forms suits the size of the number. Every form rounds to the nearest, and a half to the even
digit. -/
namespace ScriptDoc.Log

inductive FractionForm
  | places
  | power
  | general
  deriving DecidableEq, Repr

def FractionForm.ofLetter? : Char → Option FractionForm
  | 'f' | 'F' => some .places
  | 'e' | 'E' => some .power
  | 'g' | 'G' => some .general
  | _ => none

/-- Whole digits and the digits behind a point, which stands alone only if it is always wanted. -/
def joinPoint (alwaysPoint : Bool) (whole places : List Char) : List Char :=
  if places.isEmpty && !alwaysPoint then whole else whole ++ '.' :: places

def fixedPlaces (alwaysPoint : Bool) (count num den : Nat) : List Char :=
  let digits := Nat.toDigits 10 (Double.roundDiv (num * Double.tenPow count) den)
  let digits := List.replicate (count + 1 - digits.length) '0' ++ digits
  let whole := digits.length - count
  joinPoint alwaysPoint (digits.take whole) (digits.drop whole)

/-- A quotient rounded to a positive number of digits: the digits, and the power of ten of the first
of them. -/
def leadingDigits (count num den : Nat) : List Char × Int :=
  if num = 0 then (List.replicate count '0', 0)
  else
    let point := Double.magnitude num den
    let (a, b) := Double.scaleTen num den (point - count)
    let digits := Nat.toDigits 10 (Double.roundDiv a b)
    (digits.take count, point - 1 + (digits.length - count : Nat))

def writePower (n : Int) : List Char :=
  let digits := Nat.toDigits 10 n.natAbs
  'e' :: (if n < 0 then '-' else '+') :: List.replicate (2 - digits.length) '0' ++ digits

/-- A quotient with one digit before the point and a power of ten. -/
def withPower (alwaysPoint : Bool) (count num den : Nat) : List Char :=
  let (digits, n) := leadingDigits (count + 1) num den
  joinPoint alwaysPoint (digits.take 1) (digits.drop 1) ++ writePower n

/-- A quotient with some number of digits in all. Zeros at the end are left out, unless the point is
always wanted. -/
def generalForm (alwaysPoint : Bool) (count num den : Nat) : List Char :=
  let trim := fun places : List Char =>
    if alwaysPoint then places else Text.dropRightWhile (· == '0') places
  let (digits, n) := leadingDigits count num den
  if n < -4 ∨ (count : Int) ≤ n then
    joinPoint alwaysPoint (digits.take 1) (trim (digits.drop 1)) ++ writePower n
  else if n < 0 then
    joinPoint alwaysPoint ['0'] (trim (List.replicate (-n - 1).toNat '0' ++ digits))
  else joinPoint alwaysPoint (digits.take (n.toNat + 1)) (trim (digits.drop (n.toNat + 1)))

def defaultPlaces : Nat := 6

def writeFraction (form : FractionForm) (alwaysPoint : Bool) (precision : Option Nat) :
    Double → List Char
  | .finite _ mantissa exponent =>
    let (num, den) := Double.quotient mantissa exponent
    let count := precision.getD defaultPlaces
    match form with
    | .places => fixedPlaces alwaysPoint count num den
    | .power => withPower alwaysPoint count num den
    | .general => generalForm alwaysPoint (max 1 count) num den
  | .infinite _ => ['i', 'n', 'f']
  | .undefined => ['n', 'a', 'n']

end ScriptDoc.Log
