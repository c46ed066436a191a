import ScriptDoc.Command.Arguments
import ScriptDoc.Json.Reader
import ScriptDoc.Options
import ScriptDoc.Publication
import ScriptDoc.Resolution
import ScriptDoc.Sources

/-! A run of the command: options are gathered, sources found, resolved and published. It works on
a file tree and gives the tree back as it is afterwards, with the messages and the exit code. A
run that fails before it publishes leaves the tree as it was, the log apart. -/
namespace ScriptDoc.Command

inductive ConfigError
  | notFound (p : Path)
  | isADirectory
  | files (e : FileTree.Error)
  | undecodable (fault : Text.DecodeFault)
  | notJson (fault : Json.Fault)
  | options (e : Options.Error)
  deriving Repr

def fileMessage : FileTree.Error → String
  | .missing => "No such file or directory"
  | .notADirectory => "Not a directory"
  | .isADirectory => "Is a directory"
  | .exists => "File exists"
  | .badName => "embedded null byte"
  | .unencodable => "a name cannot be encoded"
  | .nameTooLong => "File name too long"
  | .tooDeep => "too many directories are missing"

def ConfigError.message : ConfigError → Text
  | .notFound p => "Config file not found at " ++ p.toText
  | .isADirectory => fileMessage .isADirectory
  | .files e => fileMessage e
  | .undecodable fault => fault.message
  | .notJson fault => fault.message
  | .options e => e.message

def readConfig (t : FileTree) (p : Path) : Except ConfigError Options :=
  match t.look p with
  | .error e => .error (.files e)
  | .ok none => .error (.notFound p)
  | .ok (some (_, .directory _)) => .error .isADirectory
  | .ok (some (_, .file content)) => do
    let text ← content.decode.mapError .undecodable
    let value ← (Json.parse (Text.unifyNewlines text)).mapError .notJson
    (Options.ofJson value).mapError .options

/-- Extensions from a word: the parts between commas that are not blank. -/
def splitExtensions (word : Text) : List Json :=
  ((word.splitOn (.char ',')).map Text.trim).filter (!·.isEmpty) |>.map .str

/-- Options changed by what the command line says; empty words do not count. -/
def override (o : Options) (a : Arguments) : Options :=
  { o with
    template := match a.template with
      | none | some [] => o.template
      | some word => .str word
    directory := a.directory.getD o.directory
    recurse := a.recurse.getD o.recurse
    extensions := match a.extensions with
      | none | some [] => o.extensions
      | some word => splitExtensions word
    allFunctions := if a.allFunctions then .bool true else o.allFunctions
    allFunctionsUnderscored :=
      if a.allFunctionsUnderscored then .bool true else o.allFunctionsUnderscored
    includePrivate := if a.includePrivate then .bool true else o.includePrivate
    logDir := a.logDir.orElse fun _ => o.logDir }

/-- The options of a run: those of the config file, if one is named, changed by the command line.
-/
def gatherOptions (t : FileTree) (a : Arguments) : Except ConfigError Options :=
  match a.config with
  | some p => (readConfig t p).map fun o => override o a
  | none => .ok (override {} a)

inductive ReadError
  | missing
  | undecodable (fault : Text.DecodeFault)
  deriving Repr

/-- The text of a source file. All line ends become line feeds. -/
def readSource (t : FileTree) (path : Text) : Except ReadError Text :=
  match t.at? (Path.ofText path) with
  | some (_, .file content) => do
    let text ← content.decode.mapError .undecodable
    return Text.unifyNewlines text
  | _ => .error .missing

inductive Failure
  | config (e : ConfigError)
  | files (e : FileTree.Error)
  | sources (e : Sources.Error)
  | resolution (e : Resolution.Failure ReadError)
  deriving Repr

def Failure.message : Failure → Text
  | .config e => e.message
  | .files e => fileMessage e
  | .sources .notAPath => "a source path is no text"
  | .sources .notAList => "sources are no list"
  | .sources .notAnExtension => "an extension is no text"
  | .sources .notADepth => "the depth is no number"
  | .sources .tooDeep => "directories are nested too deep"
  | .sources (.files e) => fileMessage e
  | .resolution (.unterminated construct) => construct.message
  | .resolution (.unreadable .missing) => fileMessage .missing
  | .resolution (.unreadable (.undecodable fault)) => fault.message

/-- What a run leaves: the tree, the messages, and the exit code unless it failed. -/
structure Outcome where
  tree : FileTree
  messages : List Log.Message := []
  result : Except Failure Nat

/-- What a run marks its log with: the time, as it stands in names of files and in lines, and the
part of the program that gives a message. -/
structure Stamps where
  inNames : String
  inLines : String
  origin : Log.Message → String

def logName : String :=
  "JsDoc.log"

def rotatedName (stamps : Stamps) : String :=
  s!"JsDoc_{stamps.inNames}.log"

/-- The text of a log file. Messages that cannot be encoded are left out. -/
def logText (stamps : Stamps) (messages : List Log.Message) : String :=
  String.join (messages.filterMap fun m =>
    (m.fileLine stamps.inLines (stamps.origin m)).toString?)

def logOpened (p : Path) : Log.Message :=
  Log.debug ("Log File: " ++ p.toText)

/-- Gives another name to what has the name of the log, if that is possible. -/
def rotateLog (stamps : Stamps) (t : FileTree) (directory : Path)
    (found : Option (FileTree.Place × FileTree.Node)) : FileTree :=
  match found with
  | some (old, _) => (t.rename? old (directory.child (rotatedName stamps))).getD t
  | none => t

/-- Opens the log file in a directory, which is made if it is missing. An older log file is kept
under another name, or overwritten if it cannot get one. -/
def openLog (stamps : Stamps) (t : FileTree) (directory : Path) :
    FileTree × Except FileTree.Error Path :=
  match t.makeDirectories directory with
  | (t, .error e) => (t, .error e)
  | (t, .ok ()) =>
    let p := directory.child logName
    match t.look p with
    | .error e => (t, .error e)
    | .ok found =>
      let rotated := rotateLog stamps t directory found
      match rotated.writeFromRoot p (.text (logText stamps [logOpened p])) with
      | .ok t => (t, .ok p)
      | .error e => (rotated, .error e)

def findSources (t : FileTree) (o : Options) (sources : List Text) :
    Logged Sources.Error (List Text) :=
  Sources.find t (sources.map .str) o.recurse o.extensions

/-- The documents of sources. Each source is read from the tree as it stands when the messages until
then have been given. -/
def documentsOf (after : List Log.Message → FileTree) (o : Options) (before : List Log.Message)
    (paths : List Text) : Logged (Resolution.Failure ReadError) (List Document) :=
  Resolution.documentsInTurn o.visibility (fun messages => readSource (after (before ++ messages)))
    paths

/-- Finds, resolves and publishes. `after` is the tree as it stands when some messages have been
given: each of them is in the log at once, where a source can be the log itself. -/
def work (after : List Log.Message → FileTree) (o : Options) (sources : List Text) : Outcome :=
  let found := findSources (after []) o sources
  match found.result with
  | .error e => ⟨after found.messages, found.messages, .error (.sources e)⟩
  | .ok [] =>
    let messages := found.messages ++ [Log.error "No source files found."]
    ⟨after messages, messages, .ok 1⟩
  | .ok paths =>
    let resolved := documentsOf after o found.messages paths
    let messages := found.messages ++ resolved.messages
    match resolved.result with
    | .error e => ⟨after messages, messages, .error (.resolution e)⟩
    | .ok documents =>
      let (t, published) := Publication.publish (after messages) documents o.directory
      ⟨t, messages ++ published.messages, (published.result.mapError .files).map fun _ => 0⟩

/-- A tree whose log file holds some messages behind the first one. -/
def logged (stamps : Stamps) (p : Path) (t : FileTree) (messages : List Log.Message) : FileTree :=
  (t.writeFromRoot p (.text (logText stamps (logOpened p :: messages)))).toOption.getD t

/-- Work with a log file, which holds every message from the time on when it is given. -/
def workLogged (stamps : Stamps) (t : FileTree) (o : Options) (sources : List Text)
    (directory : Path) : Outcome :=
  match openLog stamps t directory with
  | (t, .error e) => ⟨t, [], .error (.files e)⟩
  | (t, .ok p) =>
    let done := work (logged stamps p t) o sources
    ⟨logged stamps p done.tree done.messages, logOpened p :: done.messages, done.result⟩

/-- Errors in a config file that are told to the user. The others end the run. -/
def ConfigError.isTold : ConfigError → Bool
  | .notFound _ | .undecodable _ | .options (.unknown _) => true
  | .notJson fault => fault != .tooDeep
  | _ => false

/-- Why a run does not come to its work: what the user is told, or a failure. -/
inductive Refusal
  | told (text : Text)
  | failed (failure : Failure)
  deriving Repr

/-- The options of a run, which have to name a template that there is. -/
def prepare (t : FileTree) (a : Arguments) : Except Refusal Options :=
  match gatherOptions t a with
  | .error e => .error (if e.isTold then .told e.message else .failed (.config e))
  | .ok o =>
    match Template.ofId o.template with
    | .error e => .error (.told e.message)
    | .ok _ => .ok o

def run (stamps : Stamps) (t : FileTree) (words : List Text) : Outcome :=
  match parseArguments words with
  | .error stop => ⟨t, [], .ok stop.exitCode⟩
  | .ok a =>
    match prepare t a with
    | .error (.told text) => ⟨t, [Log.error text], .ok 1⟩
    | .error (.failed failure) => ⟨t, [], .error failure⟩
    | .ok o =>
      match o.logDir with
      | some directory => workLogged stamps t o a.sources directory
      | none => work (fun _ => t) o a.sources

end ScriptDoc.Command
