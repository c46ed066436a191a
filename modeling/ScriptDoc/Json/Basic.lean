import ScriptDoc.Json.Double
import ScriptDoc.Text.Basic

/-! JSON values. An object keeps its fields in the order in which their names first came; writing
a field again changes its value and not its place. -/
namespace ScriptDoc

/-- Numbers: whole ones of any size, and those of double precision. -/
inductive Number
  | int (value : Int)
  | double (value : Double)
  deriving DecidableEq, Repr

/-- JSON values, with the numbers above. -/
inductive Json
  | null
  | bool (value : Bool)
  | num (value : Number)
  | str (value : Text)
  | arr (items : List Json)
  | obj (fields : List (Text × Json))
  deriving Repr, Inhabited

namespace Number

/-- Only zero counts as false. -/
def truthy : Number → Bool
  | .int n => n != 0
  | .double d => d.truthy

def whole? : Number → Option Int
  | .int n => some n
  | .double d => d.whole?

def isAtLeast (n : Number) (least : Nat) : Bool :=
  match n with
  | .int n => decide ((least : Int) ≤ n)
  | .double d => d.isAtLeast least

/-- The least whole number that is not smaller; an infinite or undefined number has none. -/
def ceil? : Number → Option Int
  | .int n => some n
  | .double d => d.ceil?

end Number

namespace Json

def int (n : Int) : Json :=
  .num (.int n)

def texts (items : List Text) : Json :=
  .arr (items.map .str)

/-- Null, false, zero and everything empty count as false. -/
def truthy : Json → Bool
  | .null => false
  | .bool b => b
  | .num n => n.truthy
  | .str s => !s.isEmpty
  | .arr items => !items.isEmpty
  | .obj fields => !fields.isEmpty

/-- The value of a field of an object; other values have no fields. -/
def get? (name : Text) : Json → Option Json
  | .obj fields => fields.lookup name
  | _ => none

/-- What a value is made of, one by one: items, the names of fields, or characters. -/
def parts? : Json → Option (List Json)
  | .arr items => some items
  | .obj fields => some (fields.map fun field => .str field.1)
  | .str s => some (s.map fun c => .str [c])
  | _ => none

end Json
end ScriptDoc
