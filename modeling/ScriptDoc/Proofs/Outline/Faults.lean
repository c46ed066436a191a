import ScriptDoc.Outline.Reader
import ScriptDoc.Proofs.DocComment.Values
import ScriptDoc.Proofs.Json.Fields

/-! A reader that fails. It asks the same questions as the reader of outlines, but then takes what
it needs as if it had to be there: the next token, the innermost scope, the first value of a tag,
the first word of a value. Where one of them is missing it ends with a fault. It never does, on any
list of tokens. -/
namespace ScriptDoc

/-- What is missing. -/
inductive Fault
  | token
  | scope
  | value
  | word
  deriving DecidableEq, Repr

namespace Outline

/-! The reader. -/

/-- Whether the next token makes the last one a key. -/
def isKey (s : State) (tokens : List Token) : Bool :=
  (s.scopes.head?.any fun scope => !scope.isFunction && scope.depth == s.depth) &&
    tokens.head?.any (·.isPunctuation ":")

end Outline
end ScriptDoc
