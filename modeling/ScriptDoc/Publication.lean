import ScriptDoc.Document
import ScriptDoc.FileTree
import ScriptDoc.Json.Writer
import ScriptDoc.Log

/-! Publishing documents: one file for each, and an index of all of them. -/
namespace ScriptDoc

/-- A way to publish documents, known to users by its id. -/
structure Template where
  id : Text
  name : Text
  deriving DecidableEq, Repr

namespace Template

def json : Template :=
  ⟨"json", "JSON documents"⟩

def available : List Template :=
  [json]

structure Unsupported where
  id : Json
  deriving Repr

def Unsupported.message (u : Unsupported) : Text :=
  "Unsupported template: " ++ u.id.display

def ofId (id : Json) : Except Unsupported Template :=
  let found := match id with
    | .str s => available.find? fun template => template.id == s
    | _ => none
  match found with
  | some template => .ok template
  | none => .error ⟨id⟩

def toJson (template : Template) : Json :=
  .obj [("id", .str template.id), ("name", .str template.name)]

end Template

namespace Publication

/-- The name of a file for a document: a label and the stem of its source. -/
def labelledName (label path : Text) : Text :=
  label ++ "_" ++ (Path.ofText path).stem ++ ".json"

/-- The name of the file for a document: its label is its number, so that sources of one name in
different directories do not collide. -/
def outputName (index : Nat) (path : Text) : Text :=
  labelledName (.ofNat index) path

def indexName : Text :=
  "index.json"

def indexEntry (index : Nat) (d : Document) : Json :=
  .obj [("path", .str d.path), ("output", .str (outputName index d.path)),
    ("overview", .str d.overview.description), ("symbol_count", .int d.symbols.length)]

def indexEntries (index : Nat) : List Document → List Json
  | [] => []
  | d :: rest => indexEntry index d :: indexEntries (index + 1) rest

/-- The files to write, with their names: the documents, numbered from `index` on. -/
def documentFiles (index : Nat) : List Document → List (Text × String)
  | [] => []
  | d :: rest => (outputName index d.path, d.toJson.pretty) :: documentFiles (index + 1) rest

def outputFiles (documents : List Document) : List (Text × String) :=
  documentFiles 1 documents ++
    [(indexName, (Json.obj [("files", .arr (indexEntries 1 documents))]).pretty)]

/-- Writes files into a directory until one cannot be written. -/
def writeAll (t : FileTree) (directory : Path) :
    List (Text × String) → FileTree × Except FileTree.Error Unit
  | [] => (t, .ok ())
  | (name, text) :: rest =>
    match t.write (directory.child name) (.text text) with
    | .ok t => writeAll t directory rest
    | .error e => (t, .error e)

/-- Publishes documents into a directory, which is made if it is missing. The result is the paths
of the files written. -/
def publish (t : FileTree) (documents : List Document) (directory : Path) :
    FileTree × Logged FileTree.Error (List Path) :=
  match t.makeDirectories directory with
  | (t, .error e) => (t, ⟨[], .error e⟩)
  | (t, .ok ()) =>
    let files := outputFiles documents
    match writeAll t directory files with
    | (t, .error e) => (t, ⟨[], .error e⟩)
    | (t, .ok ()) =>
      (t, ⟨[Log.info (s!"Wrote {documents.length} documents to " ++ directory.toText)],
        .ok (files.map fun file => directory.child file.1)⟩)

end Publication
end ScriptDoc
