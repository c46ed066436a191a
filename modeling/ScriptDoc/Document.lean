import ScriptDoc.Json.Writer
import ScriptDoc.Symbol.Basic

/-! Documents: the resolved symbols of one source file, in the order of the file, and the symbol
of the file as a whole. References between symbols of a document are places in its list. -/
namespace ScriptDoc

structure Document where
  path : Text
  overview : Symbol
  symbols : List Symbol := []
  deriving Repr, Inhabited

def Symbol.indexOf? (symbols : List Symbol) (fullName : Text) : Option Nat :=
  symbols.findIdx? fun s => s.fullName == fullName

/-- The full name that a reference stands for within a list of symbols. -/
def Symbol.Ref.fullNameIn (symbols : List Symbol) : Symbol.Ref → Text
  | .here index => (symbols[index]?.map Symbol.fullName).getD []
  | .named fullName => fullName

def TagSet.toJson (tags : TagSet) : Json :=
  .obj (tags.groups.map fun group => (group.1, Json.texts group.2))

def TagSet.summary (tags : TagSet) : Text :=
  "TagSet(" ++ tags.toJson.literal ++ ")"

/-- A symbol as a JSON object; related symbols are given by their full names. -/
def Symbol.toJson (symbols : List Symbol) (s : Symbol) : Json :=
  let names (refs : List Symbol.Ref) := Json.texts (refs.map (Symbol.Ref.fullNameIn symbols))
  .obj [("name", .str s.name), ("alias", .str s.fullName), ("kind", .str s.kind.word),
    ("description", .str s.description), ("memberof", .str s.memberOf),
    ("params", Json.texts s.params), ("tags", s.tags.toJson), ("inherits", Json.texts s.inherits),
    ("methods", names s.methods), ("properties", names s.properties),
    ("inherited_methods", names s.inheritedMethods),
    ("inherited_properties", names s.inheritedProperties)]

namespace Document

def find? (d : Document) (fullName : Text) : Option Symbol :=
  d.symbols.find? fun s => s.fullName == fullName

def toJson (d : Document) : Json :=
  .obj [("path", .str d.path), ("overview", d.overview.toJson d.symbols),
    ("symbols", .arr (d.symbols.map (Symbol.toJson d.symbols)))]

end Document
end ScriptDoc
