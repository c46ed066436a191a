import ScriptDoc.Text.Characters
import ScriptDoc.Text.Basic

/-! Addresses that stand in brackets in the place of a host name: eight groups of hexadecimal
digits, of which a run may be left out, or a form that is kept for later versions. -/
namespace ScriptDoc.Service.Address

def isHex (t : Text) : Bool :=
  t.all fun c => (Text.hexValue? c).isSome

/-- A group: one to four hexadecimal digits. -/
def isGroup (t : Text) : Bool :=
  !t.isEmpty && decide (t.length ≤ 4) && isHex t

def isOctet (t : Text) : Bool :=
  t.all Text.isAsciiDigit && decide (t.length ≤ 3) && decide (Text.digitsValue t ≤ 255) &&
    match t with
    | [] => false
    | [_] => true
    | c :: _ => c != '0'

def isQuad (t : Text) : Bool :=
  let octets := t.splitOn (.char '.')
  octets.length == 4 && octets.all isOctet

/-- The parts between colons, where four decimal numbers at the end are two groups. -/
def groupsOf? (t : Text) : Option (List Text) :=
  let parts := t.splitOn (.char ':')
  let last := parts.getLast?.getD []
  if parts.length < 3 then none
  else if last.contains '.' then
    if isQuad last then some (parts.dropLast ++ [Text.ofString "0", "0"]) else none
  else some parts

/-- Groups on one side of the run that is left out. A run at the very end of an address has nothing
on that side. -/
def sideLength? (groups : List Text) : Option Nat :=
  if groups = [[]] then some 0
  else if groups.all isGroup then some groups.length
  else none

/-- Whether groups make up an address: eight of them, or fewer with one run left out. -/
def isComplete (groups : List Text) : Bool :=
  let inner := groups.drop 1 |>.dropLast
  match inner.findIdx? List.isEmpty with
  | none => groups.length == 8 && groups.all isGroup
  | some index =>
    match sideLength? (groups.take (index + 1)), sideLength? (groups.drop (index + 2)) with
    | some before, some after => decide (before + after ≤ 7)
    | _, _ => false

/-- Whether a text is an address, with an optional name of the zone in which it holds. -/
def isNumeric (t : Text) : Bool :=
  let address := t.takeWhile (· != .char '%')
  let zoneIsGood :=
    match t.dropWhile (· != .char '%') with
    | [] => true
    | _ :: zone => !zone.isEmpty && !zone.contains '%'
  zoneIsGood && (groupsOf? address).any isComplete

def isFuture (t : Text) : Bool :=
  match t with
  | .char 'v' :: rest =>
    let version := rest.takeWhile fun c => (Text.hexValue? c).isSome
    match rest.drop version.length with
    | .char '.' :: name => !version.isEmpty && !name.isEmpty && !name.contains '\n'
    | _ => false
  | _ => false

def isBracketable (t : Text) : Bool :=
  if t.head? = some (.char 'v') then isFuture t else isNumeric t

end ScriptDoc.Service.Address
