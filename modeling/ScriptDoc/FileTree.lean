import ScriptDoc.Path
import ScriptDoc.Text.Encoding
import ScriptDoc.Text.Basic

/-! Directories and files. A directory is a list of named entries, and a place is the list of names
that leads to an entry from the root. Paths are followed part by part, so that a step to the parent
needs the directory it leaves. -/
namespace ScriptDoc

/-- What a file holds: a text, or bytes that may be none. -/
inductive FileTree.Content
  | text (s : String)
  | binary (bytes : List UInt8)
  deriving DecidableEq, Repr

/-- A file, or a directory with what is in it. -/
inductive FileTree.Node
  | file (content : FileTree.Content)
  | directory (entries : List (Text × FileTree.Node))
  deriving Repr

/-- The names that lead to a place from the root. -/
abbrev FileTree.Place := List Text

/-- The entries of the root, and the place that relative paths start from. -/
structure FileTree where
  root : List (Text × FileTree.Node) := []
  working : FileTree.Place := []
  deriving Repr, Inhabited

inductive FileTree.Error
  | missing
  | notADirectory
  | isADirectory
  | exists
  | badName
  | unencodable
  | nameTooLong
  | tooDeep
  deriving DecidableEq, Repr

namespace FileTree

def Content.decode : Content → Except Text.DecodeFault Text
  | .text s => .ok (.ofString s)
  | .binary bytes => Text.decodeUtf8 bytes

/-- The text that a file holds, with the replacement character for what is none. -/
def Content.mended : Content → Text
  | .text s => .ofString s
  | .binary bytes => Text.mendUtf8 bytes

/-- Bytes as a content: a text if they are one. -/
def Content.ofBytes (bytes : List UInt8) : Content :=
  match (Text.decodeUtf8 bytes).toOption.bind Text.toString? with
  | some s => .text s
  | none => .binary bytes

def Node.isDirectory : Node → Bool
  | .directory _ => true
  | .file _ => false

def Node.entries : Node → List (Text × Node)
  | .directory entries => entries
  | .file _ => []

/-- The entries of the directory of some name, none if there is no such directory. -/
def entriesOf (name : Text) (entries : List (Text × Node)) : List (Text × Node) :=
  ((entries.lookup name).map Node.entries).getD []

def nodeIn? (entries : List (Text × Node)) : Place → Option Node
  | [] => some (.directory entries)
  | [name] => entries.lookup name
  | name :: rest => nodeIn? (entriesOf name entries) rest

/-- What stands at a place. The root is always a directory. -/
def node? (t : FileTree) (place : Place) : Option Node :=
  nodeIn? t.root place

/-- The entries of a directory with something put at a place below it. -/
def putIn (node : Node) (entries : List (Text × Node)) : Place → List (Text × Node)
  | [] => entries
  | [name] => Text.putEntry name node entries
  | name :: rest => Text.putEntry name (.directory (putIn node (entriesOf name entries) rest)) entries

/-- A tree with something put at a place. -/
def put (t : FileTree) (place : Place) (node : Node) : FileTree :=
  { t with root := putIn node t.root place }

/-- The entries of a directory without what stands at a place below it. -/
def removeIn (entries : List (Text × Node)) : Place → List (Text × Node)
  | [] => entries
  | [name] => entries.filter fun entry => entry.1 != name
  | name :: rest => Text.putEntry name (.directory (removeIn (entriesOf name entries) rest)) entries

/-- Gives another place to what stands at a place; what stood at the new place goes. -/
def move (t : FileTree) (old new : Place) : FileTree :=
  match t.node? old with
  | some node => { t with root := putIn node (removeIn t.root old) new }
  | none => t

/-- A name as directories keep it: bytes that make up characters are these characters. -/
def keptName (name : Text) : Text :=
  ((Text.encodeName? name).map Text.decodeName).getD name

def byteCount (t : Text) : Nat :=
  ((Text.encodeName? t).getD []).length

def maxNameBytes : Nat :=
  255

def maxPathBytes : Nat :=
  4095

/-- The place that a part of a path leads to from another place. -/
def stepFrom (place : Place) (part : Text) : Place :=
  if part = ".." then place.dropLast else place ++ [keptName part]

/-- Follows parts from a place on. All but the last have to be directories; the last need not be
there. -/
def follow (t : FileTree) (place : Place) : List Text → Except Error Place
  | [] => .ok place
  | part :: rest =>
    match t.node? place with
    | none => .error .missing
    | some (.file _) => .error .notADirectory
    | some (.directory _) =>
      if maxNameBytes < byteCount part then .error .nameTooLong
      else t.follow (stepFrom place part) rest

def origin (t : FileTree) (p : Path) : Place :=
  if p.anchor = .relative then t.working else []

/-- The place that a path leads to if every directory on the way is there. -/
def target (t : FileTree) (p : Path) : Place :=
  p.parts.foldl stepFrom (t.origin p)

def locate (t : FileTree) (p : Path) : Except Error Place :=
  t.follow (t.origin p) p.parts

/-- What rules out a path before it is followed: code points that no name has, the null character
among them, or its length. -/
def unusable? (p : Path) : Option Error :=
  match Text.encodeName? p.toText with
  | none => some .unencodable
  | some bytes =>
    if bytes.contains 0 then some .badName
    else if maxPathBytes < bytes.length then some .nameTooLong
    else none

/-- What a path leads to, if anything. A name or path that is too long is an error, any other reason
why it leads nowhere is not. -/
def look (t : FileTree) (p : Path) : Except Error (Option (Place × Node)) :=
  match unusable? p with
  | some .nameTooLong => .error .nameTooLong
  | some _ => .ok none
  | none =>
    match t.locate p with
    | .ok place => .ok ((t.node? place).map (place, ·))
    | .error .nameTooLong => .error .nameTooLong
    | .error _ => .ok none

def at? (t : FileTree) (p : Path) : Option (Place × Node) :=
  (t.look p).toOption.join

/-- The greatest number of directories that are made above another one at a time. -/
def maxMissing : Nat :=
  985

/-- Makes the directories that are missing on the way from a place, which is a directory, along the
parts of a path. `made` says that one has been made. A file on the way stands where a directory is
to be made if one has been made before it, or if it is at the end; else there is no way past it. -/
def makeAlong (t : FileTree) (place : Place) (made : Bool) :
    List Text → FileTree × Except Error Unit
  | [] => (t, .ok ())
  | part :: rest =>
    if maxNameBytes < byteCount part then (t, .error .nameTooLong)
    else
      let next := stepFrom place part
      match t.node? next with
      | some (.directory _) => t.makeAlong next made rest
      | some (.file _) => (t, .error (if made || rest.isEmpty then .exists else .notADirectory))
      | none =>
        if !made && maxMissing < rest.length then (t, .error .tooDeep)
        else (t.put next (.directory [])).makeAlong next true rest

/-- Makes the directory of a path and the directories that lead to it, as far as they are missing.
What was made before a failure stays. -/
def makeDirectories (t : FileTree) (p : Path) : FileTree × Except Error Unit :=
  match unusable? p, t.node? (t.origin p) with
  | some e, _ => (t, .error e)
  | none, none => (t, .error .missing)
  | none, some (.file _) => (t, .error .notADirectory)
  | none, some (.directory _) => t.makeAlong (t.origin p) false p.parts

/-- A tree with a file at a place, in place of what it held before. -/
def putFile (t : FileTree) (place : Place) (content : Content) : Except Error FileTree :=
  match t.node? place with
  | some (.directory _) => .error .isADirectory
  | some (.file _) => .ok (t.put place (.file content))
  | none =>
    match t.node? place.dropLast with
    | some (.directory _) => .ok (t.put place (.file content))
    | some (.file _) => .error .notADirectory
    | none => .error .missing

def write (t : FileTree) (p : Path) (content : Content) : Except Error FileTree :=
  match unusable? p with
  | some e => .error e
  | none => do t.putFile (← t.locate p) content

/-- Writes a file after its path has been made one from the root. Steps to the parent are taken back
with the part before them, which need not be there. -/
def writeFromRoot (t : FileTree) (p : Path) (content : Content) : Except Error FileTree :=
  match unusable? ⟨.root, t.target p⟩ with
  | some e => .error e
  | none => t.putFile (t.target p) content

/-- Whether a node may come to the place of another: a file replaces a file, and a directory an empty
one. -/
def Node.mayReplace : Node → Option Node → Bool
  | _, none => true
  | .file _, some (.file _) => true
  | .directory _, some (.directory []) => true
  | _, _ => false

/-- Gives another path to what stands at a place, which does not lead there. The system refuses it if
the path cannot be used or something there cannot be replaced. -/
def rename? (t : FileTree) (old : Place) (p : Path) : Option FileTree :=
  match unusable? p, t.node? old, t.locate p with
  | none, some node, .ok new =>
    if node.mayReplace (t.node? new) then some (t.move old new) else none
  | _, _, _ => none

mutual

/-- The places from a node on, itself first: what a file holds, and nothing for a directory. -/
def Node.places : Node → List (Place × Option Content)
  | .file content => [([], some content)]
  | .directory entries => ([], none) :: placesIn entries

def placesIn : List (Text × Node) → List (Place × Option Content)
  | [] => []
  | (name, node) :: rest =>
    (node.places.map fun entry => (name :: entry.1, entry.2)) ++ placesIn rest

end

/-- The files below a directory, by their places from there. -/
def filesIn (entries : List (Text × Node)) : List (Place × Content) :=
  (placesIn entries).filterMap fun entry => entry.2.map (entry.1, ·)

/-- The files below the working directory with their paths from there, in ascending order of the
paths. -/
def files (t : FileTree) : List (Text × Content) :=
  let entries := ((t.node? t.working).map Node.entries).getD []
  Text.ascendingBy Prod.fst <| (filesIn entries).map fun file =>
    ((Path.mk .relative file.1).toText, file.2)

def filesSince (old new : FileTree) : List (Text × Content) :=
  let before := old.files
  new.files.filter fun file => before.lookup file.1 != some file.2

def Node.content? : Node → Option Content
  | .file content => some content
  | .directory _ => none

/-- The places where something is new or changed. -/
def placesSince (old new : FileTree) : List (Place × Option Content) :=
  (placesIn new.root).filter fun entry => (old.node? entry.1).map Node.content? != some entry.2

/-- The places where something stood that is gone now, or is no directory any more. -/
def placesGone (old new : FileTree) : List Place :=
  (placesIn old.root).filterMap fun entry =>
    match (new.node? entry.1).map Node.content? with
    | none => some entry.1
    | some content => if entry.2 = none ∧ content ≠ none then some entry.1 else none

end FileTree
end ScriptDoc
