/-! Numbers of double precision: a mantissa of 53 bits times a power of two, the two infinities and
an undefined number. A decimal fraction is read as the nearest of them, and written with the fewest
digits that are read as the same number. -/
namespace ScriptDoc

/-- A number of double precision. Zero has the exponent zero; every other mantissa has 53 bits, or
fewer at the least exponent. -/
inductive Double
  | finite (negative : Bool) (mantissa : Nat) (exponent : Int)
  | infinite (negative : Bool)
  | undefined
  deriving DecidableEq, Repr

/-- A decimal fraction: a natural number times a power of ten. -/
structure Decimal where
  digits : Nat
  exponent : Int
  deriving DecidableEq, Repr

namespace Double

def precision : Nat :=
  53

def minExponent : Int :=
  -1074

def maxExponent : Int :=
  971

def twoPow (n : Nat) : Nat :=
  Nat.pow 2 n

def tenPow (n : Nat) : Nat :=
  Nat.pow 10 n

/-- A quotient rounded to the nearest whole number; of two that are equally near, to the even one.
-/
def roundDiv (num den : Nat) : Nat :=
  let rest := 2 * (num % den)
  if den < rest ∨ (rest = den ∧ num / den % 2 = 1) then num / den + 1 else num / den

def scale (num den : Nat) (exponent : Int) : Nat × Nat :=
  if 0 ≤ exponent then (num, den * twoPow exponent.toNat)
  else (num * twoPow (-exponent).toNat, den)

/-- The exponent at which a positive quotient has a mantissa of full length, or the least one. -/
def exponentFor (num den : Nat) : Int :=
  let guess : Int := (num.log2 : Int) - den.log2 - (precision - 1 : Nat)
  let (a, b) := scale num den guess
  max minExponent (if a < b * twoPow (precision - 1) then guess - 1 else guess)

/-- The number of a mantissa that may have become one bit longer by rounding. -/
def ofRounded (negative : Bool) (mantissa : Nat) (exponent : Int) : Double :=
  let (mantissa, exponent) :=
    if mantissa = twoPow precision then (twoPow (precision - 1), exponent + 1)
    else (mantissa, exponent)
  if mantissa = 0 then .finite negative 0 0
  else if maxExponent < exponent then .infinite negative
  else .finite negative mantissa exponent

/-- The number nearest to a quotient. -/
def ofQuotient (negative : Bool) (num den : Nat) : Double :=
  if num = 0 then .finite negative 0 0
  else
    let exponent := exponentFor num den
    let (a, b) := scale num den exponent
    ofRounded negative (roundDiv a b) exponent

def digitCount (n : Nat) : Nat :=
  (Nat.toDigits 10 n).length

/-- The number nearest to a decimal fraction. Fractions that are certainly too great or too small
are not worked out. -/
def ofDecimal (negative : Bool) (d : Decimal) : Double :=
  let size : Int := digitCount d.digits + d.exponent
  if d.digits = 0 ∨ size < -323 then .finite negative 0 0
  else if 309 < size then .infinite negative
  else if 0 ≤ d.exponent then ofQuotient negative (d.digits * tenPow d.exponent.toNat) 1
  else ofQuotient negative d.digits (tenPow (-d.exponent).toNat)

/-- The quotient that a mantissa and an exponent stand for. -/
def quotient (mantissa : Nat) (exponent : Int) : Nat × Nat :=
  scale mantissa 1 (-exponent)

/-- How many decimal digits a positive quotient has before its point; none or a negative number if
it begins with zeros behind it. -/
def magnitude (num den : Nat) : Int :=
  if den ≤ num then digitCount (num / den)
  else
    let zeros := digitCount (den / num)
    if num * tenPow (zeros - 1) = den then 2 - (zeros : Int) else 1 - (zeros : Int)

/-- A quotient divided by a power of ten. -/
def scaleTen (num den : Nat) (exponent : Int) : Nat × Nat :=
  if 0 ≤ exponent then (num, den * tenPow exponent.toNat)
  else (num * tenPow (-exponent).toNat, den)

/-- The decimal fraction of so many digits that is read as the given number, if one of the two
neighbours is: the nearer if both are. -/
def decimalOf? (value : Double) (num den : Nat) (count : Nat) : Option Decimal :=
  let exponent := magnitude num den - count
  let (a, b) := scaleTen num den exponent
  let nearest : Decimal := ⟨roundDiv a b, exponent⟩
  let below : Decimal := ⟨a / b, exponent⟩
  let above : Decimal := ⟨a / b + 1, exponent⟩
  [nearest, below, above].find? fun d => ofDecimal false d == value

/-- The decimal fraction of the fewest digits that is read as a mantissa times a power of two.
Seventeen digits are always enough. -/
def shortest (mantissa : Nat) (exponent : Int) : Decimal :=
  let (num, den) := quotient mantissa exponent
  let value := Double.finite false mantissa exponent
  ((List.range 17).findSome? fun count => decimalOf? value num den (count + 1)).getD
    ⟨roundDiv num den, 0⟩

def isNegative : Double → Bool
  | .finite negative _ _ => negative
  | .infinite negative => negative
  | .undefined => false

/-- Only zero counts as false. -/
def truthy : Double → Bool
  | .finite _ mantissa _ => mantissa != 0
  | _ => true

def whole? : Double → Option Int
  | .finite negative mantissa exponent =>
    let (num, den) := quotient mantissa exponent
    if num % den = 0 then some (if negative then -((num / den : Nat) : Int) else (num / den : Nat))
    else none
  | _ => none

def isAtLeast (x : Double) (least : Nat) : Bool :=
  match x with
  | .finite negative mantissa exponent =>
    let (num, den) := quotient mantissa exponent
    if negative then least == 0 && num == 0 else decide (least * den ≤ num)
  | .infinite negative => !negative
  | .undefined => false

/-- The least whole number that is not smaller; an infinite or undefined number has none. -/
def ceil? : Double → Option Int
  | .finite negative mantissa exponent =>
    let (num, den) := quotient mantissa exponent
    some (if negative then -((num / den : Nat) : Int) else ((num + den - 1) / den : Nat))
  | _ => none

end Double
end ScriptDoc
