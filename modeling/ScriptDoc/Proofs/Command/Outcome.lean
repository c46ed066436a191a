import ScriptDoc.Proofs.Command.Log
import ScriptDoc.Proofs.Publication.Layout
import ScriptDoc.Proofs.Resolution.Files

/-! What a run leaves behind. A run comes to publishing if its words and options make sense, there are
sources, and every one of them can be read in its turn and has tokens. One that does not changes
nothing but the log, wherever it ends; one that succeeds has a file for every source in the output
directory, which is read back as the document of the source. -/
namespace ScriptDoc.Command

open FileTree

/-! The work. -/

section Work

variable {after : List Log.Message → FileTree} {o : Options} {sources : List Text}

/-- The tree that a source is read from when its turn comes behind others. -/
def treeInTurn (after : List Log.Message → FileTree) (o : Options) (sources front : List Text)
    (path : Text) : FileTree :=
  let before := (findSources (after []) o sources).messages
  after (before ++ ((documentsOf after o before front).messages ++
    [Resolution.begun (front.length + 1) path]))

/-- The sources are found, there are some, and every one of them can be read in its turn and has
tokens. -/
structure HasSources (after : List Log.Message → FileTree) (o : Options) (sources paths : List Text) :
    Prop where
  found : (findSources (after []) o sources).result = .ok paths
  filled : paths ≠ []
  readable : ∀ front path rest, paths = front ++ path :: rest →
    ∃ text tokens, readSource (treeInTurn after o sources front path) path = .ok text ∧
      Token.tokenize text = .ok tokens

/-- The sources of a run are in order. -/
theorem sorted_of_findSources {t : FileTree} {paths : List Text}
    (h : (findSources t o sources).result = .ok paths) : Text.Sorted paths := by
  rw [findSources, Sources.find] at h
  split at h
  · cases h
  · dsimp only at h
    split at h
    · cases h
    · cases h
      exact Text.ascending_sorted _

/-- What work comes to: it publishes the documents of its sources, or all it does is to give messages,
and it fails. -/
theorem work_cases (after : List Log.Message → FileTree) (o : Options) (sources : List Text) :
    (∃ paths documents messages, HasSources after o sources paths ∧
        (documentsOf after o (findSources (after []) o sources).messages paths).result =
          .ok documents ∧
        (work after o sources).tree = (Publication.publish (after messages) documents o.directory).1 ∧
        (work after o sources).result =
          ((Publication.publish (after messages) documents o.directory).2.result.mapError .files).map
            fun _ => 0) ∨
      (work after o sources).tree = after (work after o sources).messages ∧
        (work after o sources).result ≠ .ok 0 ∧ ∀ paths, ¬ HasSources after o sources paths := by
  cases hFound : (findSources (after []) o sources).result with
  | error e =>
      refine Or.inr ⟨by simp only [work, hFound], by simp [work, hFound], ?_⟩
      rintro paths ⟨hPaths, _, _⟩
      cases hFound.symm.trans hPaths
  | ok paths =>
      cases paths with
      | nil =>
          refine Or.inr ⟨by simp only [work, hFound], by simp [work, hFound], ?_⟩
          rintro paths ⟨hPaths, hFilled, _⟩
          cases hFound.symm.trans hPaths
          exact hFilled rfl
      | cons first others =>
          have hReadable := Resolution.documentsInTurn_ok_iff o.visibility
            (fun messages => readSource
              (after ((findSources (after []) o sources).messages ++ messages)))
            (sorted_of_findSources hFound)
          cases hDocuments : (documentsOf after o (findSources (after []) o sources).messages
              (first :: others)).result with
          | error failure =>
              refine Or.inr ⟨by simp only [work, hFound, hDocuments],
                by simp [work, hFound, hDocuments], ?_⟩
              rintro paths ⟨hPaths, _, hAll⟩
              cases hFound.symm.trans hPaths
              obtain ⟨documents, hOk⟩ := hReadable.mpr hAll
              cases hDocuments.symm.trans hOk
          | ok documents =>
              refine Or.inl ⟨first :: others, documents, (findSources (after []) o sources).messages ++
                (documentsOf after o (findSources (after []) o sources).messages
                  (first :: others)).messages, ?_, hDocuments, ?_, ?_⟩
              · exact ⟨hFound, List.cons_ne_nil _ _, hReadable.mp ⟨documents, hDocuments⟩⟩
              · simp only [work, hFound, hDocuments]
              · simp only [work, hFound, hDocuments]

/-- Work that has sources ends by publishing: either it succeeds, or the system refuses a file. -/
theorem HasSources.result {paths : List Text} (h : HasSources after o sources paths) :
    (work after o sources).result = .ok 0 ∨ ∃ e, (work after o sources).result = .error (.files e) := by
  rcases work_cases after o sources with ⟨_, documents, messages, _, _, _, hResult⟩ | hNone
  · rw [hResult]
    cases (Publication.publish (after messages) documents o.directory).2.result with
    | error e => exact Or.inr ⟨e, rfl⟩
    | ok written => exact Or.inl rfl
  · exact absurd h (hNone.2.2 paths)

end Work

/-! The work with a log. -/

section Logged

variable {stamps : Stamps} {t start : FileTree} {directory p : Path} {o : Options}
variable {sources : List Text}

/-- Logged work is work on a tree in which the log is kept up, with the last messages written
behind. -/
theorem workLogged_eq (h : openLog stamps t directory = (start, .ok p)) (o : Options)
    (sources : List Text) :
    (workLogged stamps t o sources directory).result =
        (work (logged stamps p start) o sources).result ∧
      (workLogged stamps t o sources directory).tree =
        logged stamps p (work (logged stamps p start) o sources).tree
          (work (logged stamps p start) o sources).messages := by
  simp only [workLogged, h]
  exact ⟨trivial, trivial⟩

end Logged

/-! The run. -/

/-- A run comes to publishing: its words and options make sense, its log is open if it is to have one,
and it has sources. Here `after` is the tree as it stands when some messages have been given. -/
structure ComesToPublish (stamps : Stamps) (t : FileTree) (words : List Text) (a : Arguments)
    (o : Options) (after : List Log.Message → FileTree) (paths : List Text) : Prop where
  arguments : parseArguments words = .ok a
  options : prepare t a = .ok o
  log : o.logDir = none ∧ after = (fun _ => t) ∨
    ∃ directory start p, o.logDir = some directory ∧
      openLog stamps t directory = (start, .ok p) ∧ after = logged stamps p start
  sources : HasSources after o a.sources paths

section Run

variable (stamps : Stamps) {t : FileTree} {words : List Text} {a : Arguments} {o : Options}

variable (hArguments : parseArguments words = .ok a) (hOptions : prepare t a = .ok o)

include hArguments hOptions

/-- Without a log nothing happens to the tree before the sources are found. -/
theorem run_eq_work (hLog : o.logDir = none) :
    run stamps t words = work (fun _ => t) o a.sources := by
  simp only [run, hArguments, hOptions, hLog]

theorem run_eq_workLogged {directory : Path} (hLog : o.logDir = some directory) :
    run stamps t words = workLogged stamps t o a.sources directory := by
  simp only [run, hArguments, hOptions, hLog]

end Run

/-- A run that comes to publishing succeeds, or the system refuses a file. -/
theorem ComesToPublish.result {stamps : Stamps} {t : FileTree} {words : List Text} {a : Arguments}
    {o : Options} {after : List Log.Message → FileTree} {paths : List Text}
    (h : ComesToPublish stamps t words a o after paths) :
    (run stamps t words).result = .ok 0 ∨ ∃ e, (run stamps t words).result = .error (.files e) := by
  rcases h.log with ⟨hLog, rfl⟩ | ⟨directory, start, p, hLog, hOpen, rfl⟩
  · rw [run_eq_work stamps h.arguments h.options hLog]
    exact h.sources.result
  · rw [run_eq_workLogged stamps h.arguments h.options hLog, (workLogged_eq hOpen o a.sources).1]
    exact h.sources.result

end ScriptDoc.Command
