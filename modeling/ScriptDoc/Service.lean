import ScriptDoc.Json.Reader
import ScriptDoc.Options
import ScriptDoc.Publication
import ScriptDoc.Resolution
import ScriptDoc.Service.Target
import ScriptDoc.Text.Lowercase

/-! The service: three routes that answer requests with JSON, and one for files of which there are
none. Sources come in the body of a request, so that nothing is read from files. -/
namespace ScriptDoc.Service

/-- A request. The target may have a query, which does not count. -/
structure Request where
  method : Text
  target : Text
  contentType : Option Text := none
  body : List UInt8 := []
  deriving Repr

/-- An answer: its status and, if it is JSON, its text. -/
structure Response where
  status : Nat
  body : Option String := none
  deriving DecidableEq, Repr

/-- A response with the messages given on the way. -/
structure Answer where
  response : Response
  messages : List Log.Message := []
  deriving Repr

/-- An answer with a JSON value: compact, the fields of objects in ascending order, and a line
feed at the end. -/
def jsonResponse (status : Nat) (value : Json) : Response :=
  ⟨status, some (value.sortFields.compact ++ "\n")⟩

def errorResponse (status : Nat) (text : Text) : Response :=
  jsonResponse status (.obj [("error", .str text)])

/-- Whether a content type is JSON: its type, without parameters and in any case. -/
def isJsonType (contentType : Text) : Bool :=
  let type := Text.trimWhile (fun c => c == ' ' || c == '\t')
    (contentType.takeWhile (· != .char ';')) |>.flatMap Text.lowerPoint
  type == "application/json" ||
    ((Text.ofString "application/").isPrefixOf type && (Text.ofString "+json").isSuffixOf type)

def maxBody : Nat :=
  16 * 1024 * 1024

/-- What the body of a request holds: a value, nothing that can be read as one, more bytes than are
taken, or values too deep inside each other. -/
inductive Body
  | value (value : Json)
  | unreadable
  | tooLarge
  | tooDeep
  deriving Repr

def Body.ofBytes (bytes : List UInt8) : Body :=
  match Text.decodeDetected? bytes with
  | none => .unreadable
  | some text =>
    match Json.parse text with
    | .ok json => .value json
    | .error .tooDeep => .tooDeep
    | .error _ => .unreadable

/-- The value in the body of a request, whose type has to be JSON. -/
def Request.content (r : Request) : Body :=
  match r.contentType with
  | some contentType =>
    if isJsonType contentType then
      if maxBody < r.body.length then .tooLarge else .ofBytes r.body
    else .unreadable
  | none => .unreadable

def resolve (o : Options) (sources : List (Text × Text)) : Answer :=
  let posted := Log.info s!"Resolving {sources.length} posted files"
  let read (path : Text) : Except Unit Text := (sources.lookup path).elim (.error ()) .ok
  let resolved := Resolution.documents o.visibility read (sources.map Prod.fst)
  let response :=
    match resolved.result with
    | .ok documents => jsonResponse 200 (.obj [("files", .arr (documents.map Document.toJson))])
    | .error (.unterminated construct) => errorResponse 422 construct.message
    | .error (.unreadable ()) => ⟨500, none⟩
  ⟨response, posted :: resolved.messages⟩

/-- Routes: where sources are posted, the two lists, and a place for files. -/
inductive Route
  | resolve
  | filters
  | templates
  | asset
  deriving DecidableEq, Repr

def Route.methods : Route → List Text
  | .resolve => ["OPTIONS", "POST"]
  | _ => ["GET", "HEAD", "OPTIONS"]

/-- Letters beyond ASCII whose capitals are letters of ASCII. -/
def asciiCapitals : List (Nat × String) :=
  [(0xdf, "SS"), (0x131, "I"), (0x17f, "S"), (0xfb00, "FF"), (0xfb01, "FI"), (0xfb02, "FL"),
    (0xfb03, "FFI"), (0xfb04, "FFL"), (0xfb05, "ST"), (0xfb06, "ST")]

/-- A letter in capitals, as far as these belong to ASCII. -/
def capitals (c : CodePoint) : Text :=
  match c with
  | .char letter => ((asciiCapitals.lookup c.value).map Text.ofString).getD [.char letter.toUpper]
  | .half _ => [c]

inductive Refusal
  | target (e : Target.Error)
  | header
  deriving DecidableEq, Repr

end ScriptDoc.Service
