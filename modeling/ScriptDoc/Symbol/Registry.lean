import ScriptDoc.Document

/-! A registry of symbols and files under names of the user's choice. Symbols refer to each other
by their place in the registry, so a change of one shows wherever it is listed. -/
namespace ScriptDoc

/-- A file of a registry: the places of its symbols, in order. -/
structure Registry.File where
  path : Text
  overview : Symbol
  members : List Nat := []
  deriving Repr, Inhabited

/-- Symbols in the order of their creation, the names bound to them, and files. -/
structure Registry where
  symbols : List Symbol := []
  names : List (Text × Nat) := []
  files : List (Text × Registry.File) := []
  deriving Repr, Inhabited

namespace Registry

def define (r : Registry) (name : Text) (s : Symbol) : Registry :=
  { r with symbols := r.symbols ++ [s], names := Text.putEntry name r.symbols.length r.names }

def place? (r : Registry) (name : Text) : Option Nat :=
  r.names.lookup name

def symbol? (r : Registry) (name : Text) : Option Symbol :=
  (r.place? name).bind fun place => r.symbols[place]?

def change (r : Registry) (name : Text) (f : Symbol → Symbol) : Registry :=
  match r.place? name with
  | some place => { r with symbols := r.symbols.modify place f }
  | none => r

def defineFile (r : Registry) (name path : Text) : Registry :=
  { r with files := Text.putEntry name { path, overview := Symbol.ofOverview path none } r.files }

def file? (r : Registry) (name : Text) : Option File :=
  r.files.lookup name

def addToFile (r : Registry) (name : Text) (file : File) (place : Nat) : Registry :=
  { r with files := Text.putEntry name { file with members := file.members ++ [place] } r.files }

def symbolsOf (r : Registry) (file : File) : List Symbol :=
  file.members.filterMap fun place => r.symbols[place]?

/-- The first name bound to the first symbol of a file that has the given full name. -/
def nameIn? (r : Registry) (file : File) (fullName : Text) : Option Text :=
  let place? := file.members.find? fun place =>
    (r.symbols[place]?.map Symbol.fullName) == some fullName
  place?.bind fun place => (r.names.find? fun entry => entry.2 == place).map Prod.fst

def symbolJson (r : Registry) (s : Symbol) : Json :=
  s.toJson r.symbols

def fileJson (r : Registry) (file : File) : Json :=
  .obj [("path", .str file.path), ("overview", r.symbolJson file.overview),
    ("symbols", .arr ((r.symbolsOf file).map r.symbolJson))]

def File.summary (file : File) : Text :=
  "DocFile(" ++ file.path ++ s!": {file.members.length} symbols)"

end Registry
end ScriptDoc
