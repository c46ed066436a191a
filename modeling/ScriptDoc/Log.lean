import ScriptDoc.Json.Writer
import ScriptDoc.Text.Basic
import ScriptDoc.Text.Characters

/-! Messages about a run. The console shows all but the least important ones, warnings and errors
with their level; a log file shows all of them with level and time. -/
namespace ScriptDoc

inductive Log.Level
  | debug
  | info
  | warning
  | error
  deriving DecidableEq, Repr

structure Log.Message where
  level : Log.Level
  text : Text
  deriving DecidableEq, Repr

/-- A piece of work: the messages it gave, and its result unless it failed. -/
structure Logged (ε α : Type) where
  messages : List Log.Message
  result : Except ε α

namespace Log

def Level.rank : Level → Nat
  | .debug => 10
  | .info => 20
  | .warning => 30
  | .error => 40

def Level.name : Level → String
  | .debug => "DEBUG"
  | .info => "INFO"
  | .warning => "WARNING"
  | .error => "ERROR"

/-- The name of a level that is given by its number. One more than the levels above has a name. -/
def rankName (rank : Number) : Text :=
  match rank.whole? with
  | some 10 => Level.debug.name
  | some 20 => Level.info.name
  | some 30 => Level.warning.name
  | some 40 => Level.error.name
  | some 50 => "CRITICAL"
  | _ => "Level " ++ Json.literalNumber rank

/-- A message for progress that only a log file shows. -/
def debug (text : Text) : Message :=
  ⟨.debug, text⟩

def info (text : Text) : Message :=
  ⟨.info, text⟩

def warning (text : Text) : Message :=
  ⟨.warning, text⟩

def error (text : Text) : Message :=
  ⟨.error, text⟩

/-- What the console shows for a message of some rank, without the end of the line. -/
def consoleForm (rank : Number) (text : Text) : Text :=
  if rank.isAtLeast Level.warning.rank then ">> " ++ rankName rank ++ ": " ++ text
  else " > " ++ text

/-- The line that a message puts on the console, if any. -/
def Message.console (m : Message) : Text :=
  if m.level = .debug then [] else consoleForm (.int m.level.rank) m.text ++ "\n"

def console (messages : List Message) : Text :=
  messages.flatMap Message.console

def padded (name : String) : String :=
  name ++ String.ofList (List.replicate (8 - name.length) ' ')

/-- The line of a log file for a message, at some time and from some place of the program. -/
def Message.fileLine (time place : String) (m : Message) : Text :=
  s!"[{time}] [{padded m.level.name}] [{place}] " ++ m.text ++ "\n"

/-- The part in brackets at the beginning, and what follows it and a blank. -/
def bracketed? : Text → Option (Text × Text)
  | .char '[' :: rest =>
    match rest.dropWhile (· != .char ']') with
    | .char ']' :: .char ' ' :: after => some (rest.takeWhile (· != .char ']'), after)
    | _ => none
  | _ => none

/-- The word that a text consists of, blanks at its end apart. -/
def paddedWord? (t : Text) : Option Text :=
  let word := Text.dropRightWhile (· == .char ' ') t
  if word ≠ [] ∧ word.all Text.isWord then some word else none

inductive Line
  | entry (level text : Text)
  | other (text : Text)
  deriving DecidableEq, Repr

/-- Level and text of a line that has the form of a log file's lines. -/
def Line.ofText (line : Text) : Line :=
  let entry? := do
    let (_, rest) ← bracketed? line
    let (level, rest) ← bracketed? rest
    let (_, text) ← bracketed? rest
    return Line.entry (← paddedWord? level) text
  entry?.getD (.other line)

/-- The lines of a log file; line feeds at the very end do not begin others. -/
def linesOf (text : Text) : List Line :=
  (Text.linesOf (Text.dropRightWhile (· == .char '\n') text)).map Line.ofText

end Log
end ScriptDoc
