import ScriptDoc.DocComment

/-! Symbols: the things that documentation is about. A raw symbol has the path of its declaration
for a name; resolution gives it a short name, a dotted full name and its relations to other
symbols. -/
namespace ScriptDoc

inductive Symbol.Kind
  | file
  | object
  | function
  | constructor
  deriving DecidableEq, Repr, Inhabited

/-- The list of a parent that a member joins. -/
inductive Symbol.MemberList
  | methods
  | properties
  deriving DecidableEq, Repr

/-- A symbol that another one refers to: the one at some place of the collection that holds both,
or one from elsewhere, of which only the full name is known. -/
inductive Symbol.Ref
  | here (index : Nat)
  | named (fullName : Text)
  deriving DecidableEq, Repr

/-- A symbol. `memberOf` is the full name of its parent, empty without one; `inherits` names its
bases. The last four lists are its own members and those taken over from its bases. -/
structure Symbol where
  name : Text
  fullName : Text
  kind : Symbol.Kind
  description : Text
  tags : TagSet := .empty
  memberOf : Text := []
  params : List Text := []
  inherits : List Text := []
  line : Int := 0
  methods : List Symbol.Ref := []
  properties : List Symbol.Ref := []
  inheritedMethods : List Symbol.Ref := []
  inheritedProperties : List Symbol.Ref := []
  deriving Repr, Inhabited

namespace Symbol

def Kind.word : Kind → String
  | .file => "file"
  | .object => "object"
  | .function => "function"
  | .constructor => "constructor"

def Kind.ofWord? (word : Text) : Option Kind :=
  [Kind.file, .object, .function, .constructor].find? fun kind => Text.ofString kind.word == word

/-- The list that a member of some kind joins. Files and constructors join none. -/
def Kind.memberList? : Kind → Option MemberList
  | .file => none
  | .object => some .properties
  | .function => some .methods
  | .constructor => none

def MemberList.word : MemberList → String
  | .methods => "methods"
  | .properties => "properties"

/-- The description of what has no doc comment. -/
def undocumented : Text :=
  "undocumented"

/-- A symbol without relations, known by its path. -/
def fresh (path : Text) (kind : Kind) (description : Text) (tags : TagSet)
    (params inherits : List Text) (line : Int) : Symbol :=
  { name := path, fullName := path, kind, description, tags, params, inherits, line }

/-- Whether the description was given, as far as it tells. -/
def isDocumented (s : Symbol) : Bool :=
  s.description != undocumented

def addMember (parent : Symbol) (kind : Kind) (member : Ref) : Symbol :=
  match kind.memberList? with
  | some .methods => { parent with methods := parent.methods ++ [member] }
  | some .properties => { parent with properties := parent.properties ++ [member] }
  | none => parent

def summary (s : Symbol) : Text :=
  s!"Symbol({s.kind.word}: " ++ s.fullName ++ s!" at line {s.line})"

/-- Tags that make a comment speak about the whole file. -/
def overviewTags : List Text :=
  ["overview", "fileOverview"]

def defaultOverview : Text :=
  "/** @overview No overview provided. */"

/-- The symbol of a file as a whole. Its description is the first value of the first overview tag
that there is, which is then dropped, or else the description of the comment. -/
def ofOverview (path : Text) (comment : Option Text) : Symbol :=
  let text := match comment with
    | none | some [] => defaultOverview
    | some text => text
  let doc := DocComment.parse text
  match overviewTags.find? doc.tags.has with
  | some tag => fresh path .file ((doc.tags.get tag).headD []) (doc.tags.drop tag) [] [] 0
  | none => fresh path .file doc.description doc.tags [] [] 0

end Symbol
end ScriptDoc
