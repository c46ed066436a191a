import ScriptDoc.FileTree
import ScriptDoc.Json.Basic
import ScriptDoc.Log
import ScriptDoc.Text.Lowercase

/-! The source files that a user means: given files, and files of the wanted extensions in given
directories and in those below them up to some depth. -/
namespace ScriptDoc.Sources

inductive Error
  | notAPath
  | notAList
  | notAnExtension
  | notADepth
  | tooDeep
  | files (e : FileTree.Error)
  deriving DecidableEq, Repr

/-- How many levels of directories below a given one are entered. -/
inductive Depth
  | levels (n : Nat)
  | unlimited
  | unknown
  deriving DecidableEq, Repr

/-- The depth that a value means: a number counts up to the next whole one, negative ones as zero,
and truth as one. -/
def depthOf : Json → Depth
  | .bool b => .levels (if b then 1 else 0)
  | .num (.double (.infinite false)) => .unlimited
  | .num n => .levels ((n.ceil?.getD 0).toNat)
  | _ => .unknown

/-- The depth that is left in a directory that a search meets, if it is entered. Whether it is
cannot be told from a depth that is no number. -/
def Depth.below? : Depth → Except Error (Option Depth)
  | .levels 0 => .ok none
  | .levels (n + 1) => .ok (some (.levels n))
  | .unlimited => .ok (some .unlimited)
  | .unknown => .error .notADepth

/-- An extension without dots before it, in small letters. -/
def plainExtension (t : Text) : Text :=
  Text.lowercase (t.dropWhile (· == .char '.'))

def wanted : List Json → Except Error (List Text)
  | [] => .ok []
  | .str s :: rest => (wanted rest).map (plainExtension s :: ·)
  | _ :: _ => .error .notAnExtension

def isWanted (extensions : List Text) (p : Path) : Bool :=
  extensions.contains (plainExtension p.suffix)

def isTooLong (p : Path) : Bool :=
  FileTree.unusable? p == some .nameTooLong

/-- The greatest number of directories, each in the one before, that a search enters below a given
one. A search in a directory goes on inside the search around it, and this is how far such searches
can be nested. -/
def maxNested : Nat :=
  985

/-- What has been found under names, together: the names are taken in ascending order, and the first
failure counts. -/
def joined (found : List (Text × Except Error (List Text))) : Except Error (List Text) :=
  (Text.ascendingBy Prod.fst found).foldr (fun entry others => do return (← entry.2) ++ (← others))
    (.ok [])

mutual

/-- The wanted files at the path of an entry: the file itself, or those of a directory that is
entered. There is room for that many directories in each other. -/
def atNode (extensions : List Text) (depth : Depth) (room : Nat) (p : Path) :
    FileTree.Node → Except Error (List Text)
  | .file _ => .ok (if isWanted extensions p then [p.toText] else [])
  | .directory entries =>
    match depth.below?, room with
    | .error e, _ => .error e
    | .ok none, _ => .ok []
    | .ok (some _), 0 => .error .tooDeep
    | .ok (some left), room + 1 => joined (atEntries extensions left room p entries)

/-- The wanted files at each entry of a directory, by its name. The path of every entry is looked
up, which fails if it is too long. -/
def atEntries (extensions : List Text) (depth : Depth) (room : Nat) (p : Path) :
    List (Text × FileTree.Node) → List (Text × Except Error (List Text))
  | [] => []
  | (name, node) :: rest =>
    (name, if isTooLong (p.child name) then .error (.files .nameTooLong)
      else atNode extensions depth room (p.child name) node) ::
        atEntries extensions depth room p rest

end

def inDirectory (extensions : List Text) (depth : Depth) (p : Path)
    (entries : List (Text × FileTree.Node)) : Except Error (List Text) :=
  joined (atEntries extensions depth maxNested p entries)

def notFound (p : Path) : Log.Message :=
  Log.warning ("Source path not found: " ++ p.toText)

/-- The sources of one path. The depth matters only where there is a directory to enter. -/
def ofPath (t : FileTree) (recurse : Json) (extensions : List Text) (p : Path) :
    Logged Error (List Text) :=
  match t.look p with
  | .error e => ⟨[], .error (.files e)⟩
  | .ok (some (_, .file _)) => ⟨[], .ok [p.toText]⟩
  | .ok (some (_, .directory entries)) =>
    ⟨[], inDirectory extensions (depthOf recurse) p entries⟩
  | .ok none => ⟨[notFound p], .ok []⟩

def ofPaths (t : FileTree) (recurse : Json) (extensions : List Text) :
    List Json → Logged Error (List Text)
  | [] => ⟨[], .ok []⟩
  | .str s :: rest =>
    let first := ofPath t recurse extensions (Path.ofText s)
    match first.result with
    | .error e => ⟨first.messages, .error e⟩
    | .ok found =>
      let others := ofPaths t recurse extensions rest
      ⟨first.messages ++ others.messages, others.result.map (found ++ ·)⟩
  | _ :: _ => ⟨[], .error .notAPath⟩

/-- The sources that paths mean, each once and in ascending order. -/
def find (t : FileTree) (paths : List Json) (recurse : Json) (extensions : List Json) :
    Logged Error (List Text) :=
  match wanted extensions with
  | .error e => ⟨[], .error e⟩
  | .ok extensions =>
    let all := ofPaths t recurse extensions paths
    match all.result with
    | .error e => ⟨all.messages, .error e⟩
    | .ok found =>
      let sources := Text.ascending found.eraseDups
      ⟨all.messages ++ [Log.debug s!"Found {sources.length} source files"], .ok sources⟩

/-- The sources that JSON values mean, as far as they are lists. -/
def findIn (t : FileTree) (paths recurse extensions : Json) : Logged Error (List Text) :=
  match extensions.parts?, paths.parts? with
  | some extensions, some paths => find t paths recurse extensions
  | some extensions, none =>
    match wanted extensions with
    | .error e => ⟨[], .error e⟩
    | .ok _ => ⟨[], .error .notAList⟩
  | none, _ => ⟨[], .error .notAList⟩

end ScriptDoc.Sources
