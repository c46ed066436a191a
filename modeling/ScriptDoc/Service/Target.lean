import ScriptDoc.Service.Address
import ScriptDoc.Service.HostName
import ScriptDoc.Text.Encoding
import ScriptDoc.Text.Quoted

/-! The target of a request. It may begin with a scheme and a host, and may end with a query and a
fragment. Its path and its host are brought into normal form, which can fail. -/
namespace ScriptDoc.Service

/-- The parts of a target. The authority is the host with what may stand around it: a user, a
password and a port. -/
structure Target where
  scheme : Text := []
  authority : Text := []
  path : Text := []
  query : Text := []
  deriving DecidableEq, Repr

inductive Target.Error
  | malformed
  | badHost
  | unencodable
  deriving DecidableEq, Repr

namespace Target

def isSchemeChar (c : CodePoint) : Bool :=
  Text.isAsciiLetter c || Text.isAsciiDigit c || c == '+' || c == '-' || c == '.'

/-- The scheme in small letters, empty if there is none, and what follows it. -/
def splitScheme (t : Text) : Text × Text :=
  match t.takeWhile (· != .char ':'), t.dropWhile (· != .char ':') with
  | c :: others, _ :: rest =>
    if Text.isAsciiLetter c && others.all isSchemeChar then (Text.lowercase (c :: others), rest)
    else ([], t)
  | _, _ => ([], t)

def endsAuthority (c : CodePoint) : Bool :=
  c == '/' || c == '?' || c == '#'

/-- The authority, which stands after two slashes, and what follows it. -/
def splitAuthority : Text → Text × Text
  | .char '/' :: .char '/' :: rest =>
    (rest.takeWhile fun c => !endsAuthority c, rest.dropWhile fun c => !endsAuthority c)
  | t => ([], t)

/-- Characters that are taken for one of those around a host, or hold one of them. -/
def confusable : List Nat :=
  [0x2047, 0x2048, 0x2049, 0x2100, 0x2101, 0x2105, 0x2106, 0x2a74, 0xfe13, 0xfe16, 0xfe55, 0xfe56,
    0xfe5f, 0xfe6b, 0xff03, 0xff0f, 0xff1a, 0xff1f, 0xff20]

/-- The part between the first opening bracket and the next closing one. -/
def bracketed (t : Text) : Text :=
  ((t.dropWhile (· != .char '[')).drop 1).takeWhile (· != .char ']')

/-- Whether an authority is well formed: what stands in brackets has to be an address, and no
character may be taken for one of those around a host. -/
def isAuthority (t : Text) : Bool :=
  t.contains '[' == t.contains ']' &&
    (!t.contains '[' || Address.isBracketable (bracketed t)) &&
    !t.any fun c => confusable.contains c.value

/-- Characters that do not count wherever they stand in a target. -/
def isDropped (c : CodePoint) : Bool :=
  c == '\t' || c == '\r' || c == '\n'

/-- The parts of a target. Tabs and line ends in a target do not count, nor do blanks and control
characters at its beginning. -/
def split (target : Text) : Except Error Target :=
  let t := target.dropWhile fun c => decide (c.value ≤ 0x20)
  let t := t.filter fun c => !isDropped c
  let (scheme, t) := splitScheme t
  let (authority, t) := splitAuthority t
  if isAuthority authority then
    let t := t.takeWhile (· != .char '#')
    .ok ⟨scheme, authority, t.takeWhile (· != .char '?'), (t.dropWhile (· != .char '?')).drop 1⟩
  else .error .malformed

/-- The first text, or the other one if it is empty. -/
def orElse (t other : Text) : Text :=
  if t.isEmpty then other else t

end Target
end ScriptDoc.Service
