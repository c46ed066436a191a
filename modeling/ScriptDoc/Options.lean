import ScriptDoc.Json.Writer
import ScriptDoc.Path

/-! Options of a run. They come as fields of a JSON object, whose names may be spelled with
hyphens or low lines; most values are kept as they are given and judged where they are used. -/
namespace ScriptDoc

structure Options where
  includePrivate : Json := .bool false
  allFunctions : Json := .bool false
  allFunctionsUnderscored : Json := .bool false
  template : Json := .str "json"
  directory : Path := ⟨.relative, ["js_docs_out"]⟩
  recurse : Json := .int 0
  extensions : List Json := [.str "js"]
  logDir : Option Path := none
  deriving Repr, Inhabited

/-- Which symbols are documented besides the public ones with a description. -/
structure Visibility where
  includePrivate : Bool := false
  allFunctions : Bool := false
  allFunctionsUnderscored : Bool := false
  deriving DecidableEq, Repr, Inhabited

inductive Options.Filter
  | includePrivate
  | allFunctions
  | allFunctionsUnderscored
  deriving DecidableEq, Repr

inductive Options.Error
  | notAnObject
  | unknown (key : Text)
  | notAPath (value : Json)
  | notIterable (value : Json)
  deriving Repr

namespace Options

def typeWord : Json → String
  | .null => "NoneType"
  | .bool _ => "bool"
  | .num (.int _) => "int"
  | .num _ => "float"
  | .str _ => "str"
  | .arr _ => "list"
  | .obj _ => "dict"

def Error.message : Error → Text
  | .notAnObject => "options are no object"
  | .unknown key => Text.quoted ("Unknown option '" ++ key ++ "'")
  | .notAPath value => s!"expected str, bytes or os.PathLike object, not {typeWord value}"
  | .notIterable value => s!"'{typeWord value}' object is not iterable"

/-- Filters in the order in which they are listed to users. -/
def Filter.all : List Filter :=
  [.includePrivate, .allFunctions, .allFunctionsUnderscored]

def Filter.word : Filter → String
  | .includePrivate => "include-private"
  | .allFunctions => "all-functions"
  | .allFunctionsUnderscored => "all-functions-underscored"

def Filter.ofWord? (word : Text) : Option Filter :=
  Filter.all.find? fun filter => Text.ofString filter.word == word

def Filter.description : Filter → String
  | .includePrivate => "Include symbols tagged as private."
  | .allFunctions => "Include all functions, even undocumented ones."
  | .allFunctionsUnderscored => "Include all functions, even undocumented, underscored ones."

def filter (o : Options) : Filter → Json
  | .includePrivate => o.includePrivate
  | .allFunctions => o.allFunctions
  | .allFunctionsUnderscored => o.allFunctionsUnderscored

def visibility (o : Options) : Visibility :=
  ⟨o.includePrivate.truthy, o.allFunctions.truthy, o.allFunctionsUnderscored.truthy⟩

def fieldNames : List Text :=
  ["include_private", "all_functions", "all_functions_underscored", "template", "directory",
    "recurse", "extensions", "log_dir"]

/-- The fields by their names with low lines; of two spellings of one name the later counts. -/
def collect (given : List (Text × Json)) :
    List (Text × Json) → Except Error (List (Text × Json))
  | [] => .ok given
  | (key, value) :: rest =>
    let name := Text.replace '-' '_' key
    if name ∈ fieldNames then collect (Text.putEntry name value given) rest
    else .error (.unknown key)

def pathOf : Json → Except Error Path
  | .str s => .ok (Path.ofText s)
  | value => .error (.notAPath value)

/-- The extensions that a value gives: its items, the names of its fields or its characters. What
counts as false gives the default. -/
def extensionsOf (value : Json) : Except Error (List Json) :=
  if value.truthy then
    match value.parts? with
    | some parts => .ok parts
    | none => .error (.notIterable value)
  else .ok [.str "js"]

/-- The log directory that a value gives, if it does not count as false. -/
def logDirOf (value : Json) : Except Error (Option Path) :=
  if value.truthy then (pathOf value).map some else .ok none

def ofFields (fields : List (Text × Json)) : Except Error Options := do
  let given ← collect [] fields
  let value (name : Text) (default : Json) := (given.lookup name).getD default
  let directory ← pathOf (value "directory" (.str "js_docs_out"))
  let extensions ← extensionsOf (value "extensions" .null)
  let logDir ← logDirOf (value "log_dir" .null)
  return {
    includePrivate := value "include_private" (.bool false)
    allFunctions := value "all_functions" (.bool false)
    allFunctionsUnderscored := value "all_functions_underscored" (.bool false)
    template := value "template" (.str "json")
    directory
    recurse := value "recurse" (.int 0)
    extensions
    logDir }

def ofJson : Json → Except Error Options
  | .obj fields => ofFields fields
  | _ => .error .notAnObject

def toJson (o : Options) : Json :=
  .obj [("include_private", o.includePrivate), ("all_functions", o.allFunctions),
    ("all_functions_underscored", o.allFunctionsUnderscored), ("template", o.template),
    ("directory", .str o.directory.toText), ("recurse", o.recurse),
    ("extensions", .arr o.extensions),
    ("log_dir", (o.logDir.map fun p => Json.str p.toText).getD .null)]

def summary (o : Options) : Text :=
  "DocOptions(" ++ o.toJson.literal ++ ")"

end Options
end ScriptDoc
