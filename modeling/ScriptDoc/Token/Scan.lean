import ScriptDoc.Text.Basic
import ScriptDoc.Text.Characters
import ScriptDoc.Token.Lexeme

/-! The tokens of a script. White space between tokens is dropped and everything else is kept. A
slash is read by what stands before it: after an operand it divides, elsewhere it may begin a
regular expression. -/
namespace ScriptDoc.Token

/-- A comment or string that is not closed, and the line it begins on. -/
structure Unterminated where
  construct : Construct
  line : Nat
  deriving DecidableEq, Repr

def Unterminated.message (u : Unterminated) : String :=
  match u.construct with
  | .comment => s!"Unterminated comment starting on line {u.line}"
  | .string => s!"Unterminated string starting on line {u.line}"

def regexPreceders : Text :=
  "(,=:[!&|?{};+-*%<>~^"

/-- Whether a regular expression may stand after the last token that is no comment. -/
def regexAllowedAfter : Option Token → Bool
  | none => true
  | some t =>
    match t.kind with
    | .punctuation => regexPreceders.any fun c => t.text == [c]
    | .name => t.text == "return" || t.text == "typeof"
    | _ => false

/-- The last token that is no comment, after one more token. -/
def significant (last : Option Token) (t : Token) : Option Token :=
  if t.kind = .comment then last else some t

/-- The tokens from some line on, behind the last token that is no comment. -/
def scanFrom (line : Nat) (last : Option Token) : Text → Except Unterminated (List Token)
  | [] => .ok []
  | c :: rest =>
    if Text.isSpace c then scanFrom (line + Text.newlines [c]) last rest
    else
      match _h : readLexeme (regexAllowedAfter last) c rest with
      | .error construct => .error ⟨construct, line⟩
      | .ok lexeme =>
        let t : Token := ⟨lexeme.kind, lexeme.text, line⟩
        (scanFrom (line + Text.newlines lexeme.text) (significant last t) lexeme.rest).map (t :: ·)
termination_by cs => cs.length
decreasing_by
  · simp
  · exact readLexeme_rest_length_lt _h

def tokenize (text : Text) : Except Unterminated (List Token) :=
  scanFrom 1 none text

end ScriptDoc.Token
