import ScriptDoc.Command.Run
import ScriptDoc.Proofs.Publication.Files

/-! What a log changes. Its directory is made with those on the way. The log file is written in it, and
what had its name before stands under the name of an older log from then on. If that was a file, only
these two files change; a directory of that name goes over with all that is in it. -/
namespace ScriptDoc.Command

open FileTree

/-- The place of the log file in a directory. -/
def logPlace (directory : Place) : Place :=
  directory ++ [Text.ofString logName]

/-- The place that an older log gets in a directory. -/
def rotatedPlace (stamps : Stamps) (directory : Place) : Place :=
  directory ++ [keptName (rotatedName stamps)]

/-- How a place can change on account of a log in a directory. -/
inductive LogChange (stamps : Stamps) (directory : Place) (t later : FileTree) : Place → Prop
  | opened {messages : List Log.Message} (hLog : later.standing (logPlace directory) =
      some (some (.text (logText stamps messages)))) :
      LogChange stamps directory t later (logPlace directory)
  | closed (hNone : later.standing (logPlace directory) = none) :
      LogChange stamps directory t later (logPlace directory)
  | rotated (hOlder : t.standing (logPlace directory) ≠ none)
      (hNow : later.standing (rotatedPlace stamps directory) = t.standing (logPlace directory)) :
      LogChange stamps directory t later (rotatedPlace stamps directory)
  | taken {name : Text} {rest : Place} (hDirectory : t.IsDirectory (logPlace directory))
      (hNone : later.standing (logPlace directory ++ name :: rest) = none) :
      LogChange stamps directory t later (logPlace directory ++ name :: rest)
  | brought {name : Text} {rest : Place} (hDirectory : t.IsDirectory (logPlace directory))
      (hNow : later.standing (rotatedPlace stamps directory ++ name :: rest) =
        t.standing (logPlace directory ++ name :: rest)) :
      LogChange stamps directory t later (rotatedPlace stamps directory ++ name :: rest)

/-- Nothing but the log has changed in a directory that is there. -/
structure WritesLog (stamps : Stamps) (directory : Place) (t later : FileTree) : Prop where
  working : later.working = t.working
  changes : ∀ place, later.standing place = t.standing place ∨
    LogChange stamps directory t later place

/-- Nothing but the log has changed: directories were made on the way to it, and then the log was
written. -/
def ChangesLog (stamps : Stamps) (directory : Path) (t later : FileTree) : Prop :=
  ∃ made, Makes (t.origin directory) directory.parts t made ∧
    WritesLog stamps (t.target directory) made later

variable {stamps : Stamps} {directory : Path} {t middle later : FileTree} {place : Place}

theorem WritesLog.refl (stamps : Stamps) (place : Place) (t : FileTree) : WritesLog stamps place t t :=
  ⟨rfl, fun _ => Or.inl rfl⟩

/-! Names of logs. -/

/-- The path of the log file leads to the place of the log. -/
theorem target_log (t : FileTree) (directory : Path) :
    t.target (directory.child logName) = logPlace (t.target directory) := by
  have hKept : keptName (Text.ofString logName) = Text.ofString logName :=
    keptName_of_ascii rfl
  rw [target_child, stepFrom, if_neg (by decide), hKept, logPlace]

/-- The log file is written on top of what has changed before. -/
theorem WritesLog.write {p : Path} {messages : List Log.Message} (h : WritesLog stamps place t middle)
    (hTarget : middle.target p = logPlace place)
    (hWrites : Writes p (.text (logText stamps messages)) middle later) :
    WritesLog stamps place t later where
  working := hWrites.working.trans h.working
  changes := by
    intro other
    by_cases hLog : other = logPlace place
    · subst hLog
      have hWritten := hWrites.written
      rw [hTarget] at hWritten
      exact Or.inr (.opened hWritten)
    · have hSame : later.standing other = middle.standing other := by
        apply hWrites.elsewhere
        rwa [hTarget]
      rcases h.changes other with hBefore | hBefore
      · exact Or.inl (hSame.trans hBefore)
      · cases hBefore with
        | opened => exact absurd rfl hLog
        | closed => exact absurd rfl hLog
        | rotated hOlder hNow => exact Or.inr (.rotated hOlder (hSame.trans hNow))
        | taken hDirectory hNone => exact Or.inr (.taken hDirectory (hSame.trans hNone))
        | brought hDirectory hNow => exact Or.inr (.brought hDirectory (hSame.trans hNow))

/-- Messages are written to the log file, or lost if it cannot be written. -/
theorem logged_cases (stamps : Stamps) (p : Path) (t : FileTree) (messages : List Log.Message) :
    logged stamps p t messages = t ∨
      Writes p (.text (logText stamps (logOpened p :: messages))) t (logged stamps p t messages) := by
  rw [logged]
  cases hWrite : t.writeFromRoot p (.text (logText stamps (logOpened p :: messages))) with
  | error e => exact Or.inl rfl
  | ok later => exact Or.inr (writeFromRoot_writes hWrite)

/-- Writing messages changes nothing but the log. -/
theorem ChangesLog.logged (h : ChangesLog stamps directory t later) (messages : List Log.Message) :
    ChangesLog stamps directory t (logged stamps (directory.child logName) later messages) := by
  obtain ⟨made, hMakes, hWritesLog⟩ := h
  refine ⟨made, hMakes, ?_⟩
  rcases logged_cases stamps (directory.child logName) later messages with hSame | hWrites
  · rwa [hSame]
  · refine hWritesLog.write ?_ hWrites
    rw [target_log, target_eq_of_working (hWritesLog.working.trans hMakes.working)]

end ScriptDoc.Command
