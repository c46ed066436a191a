import ScriptDoc.Json.Basic
import ScriptDoc.Path
import ScriptDoc.Text.Characters

/-! The words of a command line. Words are first told apart: options, which begin with a hyphen
and may be shortened as long as they are clear, and arguments. Then they are taken from left to
right. Sources are arguments next to each other; other arguments that are not the value of an
option are refused. -/
namespace ScriptDoc.Command

inductive Flag
  | help
  | template
  | directory
  | recurse
  | extensions
  | allFunctions
  | allFunctionsUnderscored
  | includePrivate
  | config
  | logDir
  deriving DecidableEq, Repr

def Flag.takesValue : Flag → Bool
  | .template | .directory | .recurse | .extensions | .config | .logDir => true
  | .help | .allFunctions | .allFunctionsUnderscored | .includePrivate => false

def spellings : List (Text × Flag) :=
  [("-h", .help), ("--help", .help), ("-t", .template), ("--template", .template),
    ("-d", .directory), ("--directory", .directory), ("-r", .recurse), ("--recurse", .recurse),
    ("-x", .extensions), ("--ext", .extensions), ("-a", .allFunctions),
    ("--allfunctions", .allFunctions),
    ("-A", .allFunctionsUnderscored), ("--Allfunctions", .allFunctionsUnderscored),
    ("-p", .includePrivate), ("--private", .includePrivate), ("-c", .config), ("--config", .config),
    ("--log-dir", .logDir)]

/-- Why a command line gives no arguments: help was asked for, or the words make no sense. -/
inductive Stop
  | help
  | usage
  deriving DecidableEq, Repr

def Stop.exitCode : Stop → Nat
  | .help => 0
  | .usage => 2

/-- What a word is. A word for an option may hold characters besides its name, after an equals sign
or directly. -/
inductive Word
  | argument (text : Text)
  | separator
  | option (flag : Flag) (isLong : Bool) (attached : Option (Text))
  | unknown
  deriving DecidableEq, Repr

/-- A word split at its first equals sign. -/
def splitEquals (cs : Text) : Text × Option (Text) :=
  match cs.dropWhile (· != .char '=') with
  | _ :: value => (cs.takeWhile (· != .char '='), some value)
  | [] => (cs, none)

/-- Digits after a hyphen, with a point before some of them or not; one line feed at the end does
not count. -/
def isNegativeNumber (cs : Text) : Bool :=
  match cs with
  | .char '-' :: rest =>
    let rest := if rest.getLast? = some (.char '\n') then rest.dropLast else rest
    match rest.dropWhile Text.isDecimal with
    | [] => !rest.isEmpty
    | .char '.' :: digits => !digits.isEmpty && digits.all Text.isDecimal
    | _ => false
  | _ => false

def isLongSpelling (cs : Text) : Bool :=
  (Text.ofString "--").isPrefixOf cs

def spelled? (cs : Text) : Option Flag :=
  spellings.lookup cs

/-- Readings of a word that begins with two hyphens: every option that it is the beginning of. -/
def longReadings (cs : Text) : List Word :=
  let (start, value) := splitEquals cs
  spellings.filterMap fun (spelling, flag) =>
    if start.isPrefixOf spelling then
      some (.option flag (isLongSpelling spelling) value)
    else none

/-- Readings of a word that begins with one hyphen: the option of its first letter. -/
def shortReadings (cs : Text) : List Word :=
  match spelled? (cs.take 2) with
  | some flag => [.option flag false (some (cs.drop 2))]
  | none => []

/-- A word that is no spelling of an option, if only one option is meant by it. -/
def abbreviated (cs : Text) : Except Stop Word :=
  match (if isLongSpelling cs then longReadings cs else shortReadings cs) with
  | _ :: _ :: _ => .error .usage
  | [word] => .ok word
  | [] => .ok (if isNegativeNumber cs || cs.contains ' ' then .argument cs else .unknown)

/-- What a word is, as long as no separator came before it. -/
def classify (text : Text) : Except Stop Word :=
  match text with
  | .char '-' :: rest =>
    match spelled? text with
    | some flag => .ok (.option flag (isLongSpelling text) none)
    | none =>
      if rest = [] then .ok (.argument text)
      else
        match splitEquals text with
        | (name, some value) =>
          match spelled? name with
          | some flag => .ok (.option flag (isLongSpelling name) (some value))
          | none => abbreviated text
        | (_, none) => abbreviated text
  | _ => .ok (.argument text)

/-- What words are. After the first separator all of them are arguments. -/
def classifyAll : List Text → Except Stop (List Word)
  | [] => .ok []
  | text :: rest =>
    if text = "--" then .ok (.separator :: rest.map .argument)
    else do
      let word ← classify text
      return word :: (← classifyAll rest)

/-- The arguments of a run. The depth is an empty list if it was given without a value. -/
structure Arguments where
  sources : List Text := []
  template : Option Text := none
  directory : Option Path := none
  recurse : Option Json := none
  extensions : Option Text := none
  allFunctions : Bool := false
  allFunctionsUnderscored : Bool := false
  includePrivate : Bool := false
  config : Option Path := none
  logDir : Option Path := none
  deriving Repr, Inhabited

/-- An option: one that needs no value, one with its value, and one that is given without the value
it needs. -/
inductive Setting
  | switch (flag : Flag)
  | value (flag : Flag) (text : Text)
  | bare (flag : Flag)
  deriving DecidableEq, Repr

/-- An option with its value. A value that is the separator does not count. -/
def Setting.ofValue (flag : Flag) (text : Text) : Setting :=
  if text = "--" then .bare flag else .value flag text

/-- Takes in an option. Of an option given twice the later counts. -/
def Arguments.set (a : Arguments) : Setting → Except Stop Arguments
  | .switch .help => .error .help
  | .switch .allFunctions => .ok { a with allFunctions := true }
  | .switch .allFunctionsUnderscored => .ok { a with allFunctionsUnderscored := true }
  | .switch .includePrivate => .ok { a with includePrivate := true }
  | .value .template text => .ok { a with template := some text }
  | .value .directory text => .ok { a with directory := some (Path.ofText text) }
  | .value .recurse text =>
    match Text.integer? text with
    | some n => .ok { a with recurse := some (.int n) }
    | none => .error .usage
  | .value .extensions text => .ok { a with extensions := some text }
  | .value .config text => .ok { a with config := some (Path.ofText text) }
  | .value .logDir text => .ok { a with logDir := some (Path.ofText text) }
  | .bare .template => .ok { a with template := none }
  | .bare .directory => .ok { a with directory := none }
  | .bare .recurse => .ok { a with recurse := some (.arr []) }
  | .bare .extensions => .ok { a with extensions := none }
  | .bare .config => .ok { a with config := none }
  | .bare .logDir => .ok { a with logDir := none }
  | _ => .error .usage

/-- What a word for options asks for: options in turn, the last of which may still need a value. -/
structure Request where
  settings : List Setting := []
  owed : Option Flag := none
  deriving Repr

def Request.cons (setting : Setting) (r : Request) : Request :=
  { r with settings := setting :: r.settings }

/-- Options whose letters are joined in one word. A letter that is no option rules out the whole
word; an option that needs a value takes the rest of the word for it. -/
def joined : Text → Except Stop Request
  | [] => .ok {}
  | c :: rest =>
    match spelled? ['-', c] with
    | none => .error .usage
    | some flag =>
      if flag.takesValue then
        match rest with
        | [] => .ok { owed := some flag }
        | value => .ok { settings := [.ofValue flag value] }
      else (joined rest).map (Request.cons (.switch flag))

/-- What a word for an option asks for. What is attached to an option that needs no value has to be
the letters of further options. -/
def request (flag : Flag) (isLong : Bool) (attached : Option (Text)) : Except Stop Request :=
  match attached with
  | none => .ok (if flag.takesValue then { owed := some flag } else { settings := [.switch flag] })
  | some value =>
    if flag.takesValue then .ok { settings := [.ofValue flag value] }
    else if isLong ∨ value = [] then .error .usage
    else (joined value).map (Request.cons (.switch flag))

/-- Where the sources stand: none yet, being taken, or behind. -/
inductive Taking
  | before
  | during
  | after
  deriving DecidableEq, Repr

/-- What has been taken from the words so far; the flag says that some word was refused. -/
structure Taken where
  arguments : Arguments := {}
  sources : Taking := .before
  refused : Bool := false
  deriving Repr

def Taken.setAll (t : Taken) : List Setting → Except Stop Taken
  | [] => .ok t
  | setting :: rest => do
    let arguments ← t.arguments.set setting
    Taken.setAll { t with arguments } rest

def Taken.argument (t : Taken) (text : Text) : Taken :=
  match t.sources with
  | .after => { t with refused := true }
  | _ =>
    { t with
      arguments := { t.arguments with sources := t.arguments.sources ++ [text] }
      sources := .during }

/-- An option ends the sources. -/
def Taken.option (t : Taken) : Taken :=
  if t.sources = .during then { t with sources := .after } else t

def takeWords (t : Taken) : List Word → Except Stop Taken
  | [] => .ok t
  | .argument text :: rest => takeWords (t.argument text) rest
  | .separator :: rest =>
    takeWords (if t.sources = .after then { t with refused := true } else t) rest
  | .unknown :: rest => takeWords { t.option with refused := true } rest
  | .option flag isLong attached :: rest => do
    let r ← request flag isLong attached
    match r.owed, rest with
    | none, rest => do
      takeWords (← t.option.setAll r.settings) rest
    | some flag, .argument text :: rest => do
      takeWords (← t.option.setAll (r.settings ++ [.value flag text])) rest
    | some _, _ => .error .usage

def parseArguments (words : List Text) : Except Stop Arguments := do
  let t ← takeWords {} (← classifyAll words)
  if t.sources = .before ∨ t.refused then .error .usage else return t.arguments

def usage : String :=
  "usage: scriptdoc [OPTION]... SRC...\n" ++
  "Generate documentation from annotated JavaScript source files.\n\n" ++
  "  -h, --help               show this text\n" ++
  "  -t, --template ID        format of the output (json)\n" ++
  "  -d, --directory DIR      where to put the output (js_docs_out)\n" ++
  "  -r, --recurse DEPTH      levels of directories to descend\n" ++
  "  -x, --ext EXT[,EXT]...   extensions of source files (js)\n" ++
  "  -a, --allfunctions       include all functions, even undocumented ones\n" ++
  "  -A, --Allfunctions       include undocumented, underscored ones too\n" ++
  "  -p, --private            include symbols tagged as private\n" ++
  "  -c, --config FILE        read options from a JSON file\n" ++
  "      --log-dir DIR        write a log file to a directory\n"

end ScriptDoc.Command
