import ScriptDoc.Text.Basic

/-! Paths of files in normal form. Repeated slashes and parts that are a single dot carry no
meaning and are dropped, steps to the parent stay. Two slashes at the beginning are a root of
their own; three or more are the same as one. -/
namespace ScriptDoc

inductive Path.Anchor
  | relative
  | root
  | doubleRoot
  deriving DecidableEq, Repr

/-- A path: where it begins, and its parts. -/
structure Path where
  anchor : Path.Anchor
  parts : List Text
  deriving DecidableEq, Repr

namespace Path

/-- Where a path begins, by its leading slashes. -/
def anchorOf : Text → Anchor
  | .char '/' :: .char '/' :: .char '/' :: _ => .root
  | .char '/' :: .char '/' :: _ => .doubleRoot
  | .char '/' :: _ => .root
  | _ => .relative

def ofText (t : Text) : Path :=
  ⟨anchorOf t, (t.splitOn (.char '/')).filter fun part => !part.isEmpty && part != "."⟩

def Anchor.text : Anchor → Text
  | .relative => []
  | .root => ['/']
  | .doubleRoot => ['/', '/']

/-- A path as text. A relative path without parts is a dot. -/
def toText (p : Path) : Text :=
  if p.anchor = .relative ∧ p.parts = [] then "."
  else p.anchor.text ++ List.intercalate [.char '/'] p.parts

def child (p : Path) (name : Text) : Path :=
  { p with parts := p.parts ++ [name] }

def parent (p : Path) : Path :=
  { p with parts := p.parts.dropLast }

/-- The last part, empty if there is none. -/
def name (p : Path) : Text :=
  p.parts.getLast?.getD []

/-- A name split before its last dot, unless that is its first or last character. -/
def splitSuffix (name : Text) : Text × Text :=
  let ending := (name.reverse.takeWhile (· != .char '.')).reverse
  match (name.reverse.dropWhile (· != .char '.')) with
  | .char '.' :: before =>
    if before = [] ∨ ending = [] then (name, []) else (before.reverse, '.' :: ending)
  | _ => (name, [])

def stem (p : Path) : Text :=
  (splitSuffix p.name).1

def suffix (p : Path) : Text :=
  (splitSuffix p.name).2

end Path
end ScriptDoc
