import ScriptDoc.TagSet
import ScriptDoc.Text.Basic
import ScriptDoc.Text.Characters

/-! Doc comments: a description and tags. The frame of the comment, that is its delimiters and the
stars at the beginning of its lines, is taken off first; then lines that begin with an at sign and
a word open a tag, and all others continue what is open. -/
namespace ScriptDoc

/-- What a comment says: its description and every tag but those that give the description. -/
structure DocComment where
  description : Text := []
  tags : TagSet := .empty
  deriving Repr, Inhabited

namespace DocComment

/-- Takes off the slash and the two or more stars that open a doc comment. -/
def dropOpening : Text → Text
  | .char '/' :: .char '*' :: .char '*' :: rest => rest.dropWhile (· == .char '*')
  | cs => cs

/-- Takes off the stars and the slash that close a comment; at least one star is needed. -/
def dropClosing (cs : Text) : Text :=
  match cs.reverse with
  | .char '/' :: .char '*' :: rest => (rest.dropWhile (· == .char '*')).reverse
  | _ => cs

/-- Takes off a star at the beginning of a line, with the white space before it and one blank
after it. A star before a slash stays. -/
def dropStar (line : Text) : Text :=
  match line.dropWhile Text.isSpace with
  | .char '*' :: .char '/' :: _ => line
  | .char '*' :: c :: rest => if Text.isSpace c then rest else c :: rest
  | [.char '*'] => []
  | _ => line

/-- The lines inside the frame of a comment, without white space at their ends. -/
def unwrap (comment : Text) : List Text :=
  (Text.linesOf (dropClosing (dropOpening (Text.trim comment)))).map fun line =>
    Text.trimRight (dropStar line)

/-- The name of the tag that a line opens, and the rest of the line. -/
def tagLine? (line : Text) : Option (Text × Text) :=
  match Text.trim line with
  | .char '@' :: rest =>
    match rest.takeWhile Text.isWord with
    | [] => none
    | name => some (name, (rest.dropWhile Text.isWord).dropWhile Text.isSpace)
  | _ => none

/-- The lines before the first tag, and each tag's name with its lines. -/
structure Sections where
  lead : List Text := []
  tags : List (Text × List Text) := []

/-- Lines from some place on, in the order of the comment: those before the first tag line, and
the tags. -/
def sections : List Text → Sections
  | [] => {}
  | line :: rest =>
    let after := sections rest
    match tagLine? line with
    | some (name, value) => { lead := [], tags := (name, value :: after.lead) :: after.tags }
    | none => { after with lead := line :: after.lead }

def textOf (lines : List Text) : Text :=
  Text.trim (List.intercalate [.char '\n'] lines)

def isDescriptionTag (name : Text) : Bool :=
  name == "desc" || name == "description"

/-- Takes in one tag: it replaces the description or joins the tags. -/
def addTag (doc : DocComment) (tag : Text × List Text) : DocComment :=
  let value := textOf tag.2
  if isDescriptionTag tag.1 then { doc with description := value }
  else { doc with tags := doc.tags.add tag.1 value }

def parse (comment : Text) : DocComment :=
  let parts := sections (unwrap comment)
  parts.tags.foldl addTag { description := textOf parts.lead }

end DocComment
end ScriptDoc
