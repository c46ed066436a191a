import ScriptDoc.Document
import ScriptDoc.Log
import ScriptDoc.Options
import ScriptDoc.Outline.Reader
import ScriptDoc.Token.Scan

/-! Documents of source files. Tags decide first which raw symbols are documented; then a `memberof`
tag is folded into the name, which the choice among undocumented symbols looks at. The symbols of
one file are linked in order: each looks for its parent and its bases among those before it, joins
a list of its parent, and takes over what its bases have in their own lists at that moment. Files
are taken in ascending order of their paths, all by one reader; the first one that cannot be read or
has no tokens ends the run. -/
namespace ScriptDoc.Resolution

/-! Which symbols are documented. -/

/-- Whether the tags let a symbol pass: it is not to be ignored, and private only if private
symbols are wanted. -/
def passesTags (v : Visibility) (s : Symbol) : Bool :=
  !s.tags.has "ignore" && (!s.tags.has "private" || v.includePrivate)

/-- Puts the parent that a tag names before the symbol's name. All tags of that name go. -/
def foldMemberOf (s : Symbol) : Symbol :=
  match s.tags.get "memberof" with
  | parent :: _ => { s with name := parent ++ "/" ++ s.name, tags := s.tags.drop "memberof" }
  | [] => s

/-- Whether a low line stands at the beginning, or after a dot or a slash. -/
def underscoredAfter (boundary : Bool) : Text → Bool
  | [] => false
  | c :: rest => (boundary && c == '_') || underscoredAfter (c == '.' || c == '/') rest

def isUnderscored (name : Text) : Bool :=
  underscoredAfter true name

/-- Whether a symbol is shown for its description, or although it has none. -/
def passesDescription (v : Visibility) (s : Symbol) : Bool :=
  s.isDocumented || v.allFunctionsUnderscored || (v.allFunctions && !isUnderscored s.name)

/-- The symbol under its folded name, if it is to be documented. -/
def admitted? (v : Visibility) (raw : Symbol) : Option Symbol :=
  if passesTags v raw && passesDescription v (foldMemberOf raw) then some (foldMemberOf raw)
  else none

/-! Linking. -/

def dotted (path : Text) : Text :=
  Text.replace '/' '.' path

/-- A path split at its last slash into the path of the parent and the name of the member. Neither
may be empty, and the former may not span lines. -/
def splitMember? (path : Text) : Option (Text × Text) :=
  let reversed := path.reverse
  let member := (reversed.takeWhile (· != .char '/')).reverse
  match reversed.dropWhile (· != .char '/') with
  | .char '/' :: before =>
    if member = [] ∨ before = [] ∨ .char '\n' ∈ before then none
    else some (before.reverse, member)
  | _ => none

def unfoundParent (member parent : Text) : Log.Message :=
  Log.warning ("Member '" ++ member ++
    "' documented but no documentation exists for parent object '" ++ parent ++ "'.")

def unfoundBase (base : Text) : Log.Message :=
  Log.warning ("Can't determine inherited methods or properties from unfound '" ++ base ++
    "' symbol.")

/-- A symbol with its path split into parent and name. -/
def settle (s : Symbol) : Symbol :=
  match splitMember? s.name with
  | some (parent, member) =>
    { s with fullName := dotted s.name, name := member, memberOf := dotted parent }
  | none => s

def isMember (s : Symbol) : Bool :=
  (splitMember? s.name).isSome

/-- Lets the parent list a member that will be the next symbol; the flag says that it has a parent
at all. -/
def joinParent (symbols : List Symbol) (member : Bool) (s : Symbol) :
    List Symbol × List Log.Message :=
  if member then
    match Symbol.indexOf? symbols s.memberOf with
    | some parent =>
      (symbols.modify parent fun p => p.addMember s.kind (.here symbols.length), [])
    | none => (symbols, [unfoundParent s.name s.memberOf])
  else (symbols, [])

/-- What is taken over from bases: methods, properties and messages about bases that are not
there. -/
structure Inheritance where
  methods : List Symbol.Ref := []
  properties : List Symbol.Ref := []
  messages : List Log.Message := []

/-- What bases of the given names have in their own lists, in the order of the names. -/
def inheritance (symbols : List Symbol) : List Text → Inheritance
  | [] => {}
  | base :: bases =>
    let others := inheritance symbols bases
    match symbols.find? fun s => s.fullName == base with
    | some b =>
      { others with
        methods := b.methods ++ others.methods
        properties := b.properties ++ others.properties }
    | none => { others with messages := unfoundBase base :: others.messages }

/-- Adds a symbol: settles its name, joins its parent, takes over from its bases. -/
def link (symbols : List Symbol) (s : Symbol) : List Symbol × List Log.Message :=
  let settled := settle s
  let (joined, parentMessages) := joinParent symbols (isMember s) settled
  let taken := inheritance joined settled.inherits
  let linked := { settled with
    inheritedMethods := settled.inheritedMethods ++ taken.methods
    inheritedProperties := settled.inheritedProperties ++ taken.properties }
  (joined ++ [linked], parentMessages ++ taken.messages)

/-- Links symbols one by one behind those already linked. -/
def linkAll (symbols : List Symbol) : List Symbol → List Symbol × List Log.Message
  | [] => (symbols, [])
  | s :: rest =>
    let (symbols, messages) := link symbols s
    let (symbols, more) := linkAll symbols rest
    (symbols, messages ++ more)

/-- The document of raw symbols, with the messages about what was not found. -/
def document (v : Visibility) (path : Text) (raw : List Symbol) (overview : Option Text) :
    Document × List Log.Message :=
  let (symbols, messages) := linkAll [] (raw.filterMap (admitted? v))
  (⟨path, Symbol.ofOverview path overview, symbols⟩, messages)

/-! Files. -/

/-- Why a file has no document: its text could not be had, for a cause of the reader's, or is left
open. -/
inductive Failure (ε : Type)
  | unreadable (cause : ε)
  | unterminated (construct : Token.Unterminated)
  deriving Repr

def begun (index : Nat) (path : Text) : Log.Message :=
  Log.info (s!"Tokenizing: file {index}, " ++ path)

def ofText {ε : Type} (v : Visibility) (reader : Outline.Reader) (index : Nat) (path : Text)
    (text : Except ε Text) : Logged (Failure ε) (Document × Outline.Reader) :=
  match text with
  | .error cause => ⟨[begun index path], .error (.unreadable cause)⟩
  | .ok text =>
    match Token.tokenize text with
    | .error construct => ⟨[begun index path], .error (.unterminated construct)⟩
    | .ok tokens =>
      let reader := reader.read tokens
      let outline := reader.outline
      let (document, messages) := document v path outline.symbols outline.overview
      ⟨begun index path :: Log.info s!"\t{tokens.length} tokens found." ::
        Log.debug s!"Parsed {outline.symbols.length} raw symbols" ::
        Log.info s!"\t{outline.symbols.length} symbols found." :: messages, .ok (document, reader)⟩

/-- The documents of paths in the given order, numbered from `index` on. What is read may depend on
the messages given so far: those of the files `before`, and the one that begins the file. -/
def inOrder {ε : Type} (v : Visibility) (read : List Log.Message → Text → Except ε Text)
    (reader : Outline.Reader) (before : List Log.Message) (index : Nat) :
    List Text → Logged (Failure ε) (List Document)
  | [] => ⟨[], .ok []⟩
  | path :: paths =>
    let first := ofText v reader index path (read (before ++ [begun index path]) path)
    match first.result with
    | .error failure => ⟨first.messages, .error failure⟩
    | .ok (document, reader) =>
      let others := inOrder v read reader (before ++ first.messages) (index + 1) paths
      ⟨first.messages ++ others.messages, others.result.map (document :: ·)⟩

/-- The documents of paths in ascending order, from what there is to read when their turn comes. -/
def documentsInTurn {ε : Type} (v : Visibility) (read : List Log.Message → Text → Except ε Text)
    (paths : List Text) : Logged (Failure ε) (List Document) :=
  inOrder v read {} [] 1 (Text.ascending paths)

def documents {ε : Type} (v : Visibility) (read : Text → Except ε Text) (paths : List Text) :
    Logged (Failure ε) (List Document) :=
  documentsInTurn v (fun _ => read) paths

end ScriptDoc.Resolution
