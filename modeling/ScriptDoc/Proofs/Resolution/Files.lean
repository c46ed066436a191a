import Mathlib.Control.Monad.Basic
import ScriptDoc.Proofs.Outline.Statements
import ScriptDoc.Proofs.Text.Order
import ScriptDoc.Resolution

/-! Files are resolved independently, although one reader goes through all of them. What the reader
still holds of an earlier file shows neither in the document of a later one nor in the log, so a run
over many files is made of runs over one file each, up to the first file that fails. -/
namespace ScriptDoc

namespace Outline

/-- What a step found out comes behind what was known. -/
theorem add_eq (o : Outline) (event : Option Event) :
    o.add event = ⟨(ofEvents event.toList).overview.or o.overview,
      o.symbols ++ (ofEvents event.toList).symbols⟩ := by
  cases event with
  | none => simp [add, ofEvents]
  | some event =>
      cases event with
      | overview comment => simp [add, ofEvents, Event.symbol?, Event.overview?]
      | symbol s => simp [add, ofEvents, Event.symbol?, Event.overview?]

/-- Events join the outline so far one by one; together they join it like a whole outline. -/
theorem Reader.readOn_outline (r : Reader) (doc : Option Token) (tokens : List Token) :
    (r.readOn doc tokens).outline =
      ⟨(ofEvents (events (r.state doc) tokens)).overview.or r.outline.overview,
        r.outline.symbols ++ (ofEvents (events (r.state doc) tokens)).symbols⟩ := by
  fun_induction readOn r doc tokens with
  | case1 r doc => simp [events, ofEvents]
  | case2 r doc t rest next ih =>
      have hState : (r.after next).state next.state.doc = next.state := rfl
      have hEvents : events (r.state doc) (t :: rest) =
          next.event.toList ++ events next.state next.rest := by rw [events]
      rw [ih, hState, hEvents, ofEvents_append, after, add_eq]
      simp only [Option.or_assoc, List.append_assoc]

/-- Nothing that a reader holds shows in what it reads next. -/
theorem Reader.read_outline (r : Reader) (tokens : List Token) :
    (r.read tokens).outline = ofTokens tokens := by
  rw [read, readOn_outline]
  change (⟨(ofTokens tokens).overview.or none, [] ++ (ofTokens tokens).symbols⟩ : Outline) = _
  rw [Option.or_none, List.nil_append]

end Outline

namespace Resolution

variable {ε : Type} {v : Visibility} {path : Text} {text : Except ε Text}

/-- Why a file has no document: it could not be read, or its text has no tokens. -/
def failure? (text : Except ε Text) : Option (Failure ε) :=
  match text with
  | .error cause => some (.unreadable cause)
  | .ok text =>
    match Token.tokenize text with
    | .error construct => some (.unterminated construct)
    | .ok _ => none

/-- A file that fails is begun, and no more. -/
theorem ofText_of_failure {failure : Failure ε} (h : failure? text = some failure)
    (v : Visibility) (reader : Outline.Reader) (index : Nat) (path : Text) :
    ofText v reader index path text = ⟨[begun index path], .error failure⟩ := by
  cases text with
  | error cause =>
      cases h
      rfl
  | ok source =>
      cases hTokens : Token.tokenize source with
      | error construct =>
          simp only [failure?, hTokens] at h
          cases h
          simp only [ofText, hTokens]
      | ok tokens =>
          simp only [failure?, hTokens] at h
          cases h

/-- A file does not fail exactly if it can be read and has tokens. -/
theorem failure?_eq_none_iff :
    failure? text = none ↔ ∃ source tokens, text = .ok source ∧ Token.tokenize source = .ok tokens := by
  cases text with
  | error cause => simp [failure?]
  | ok source => cases hTokens : Token.tokenize source <;> simp [failure?, hTokens]

/-- What a file with tokens gives: its outline is that of its tokens alone. -/
theorem ofText_of_tokens {source : Text} {tokens : List Token}
    (h : Token.tokenize source = .ok tokens) (v : Visibility) (reader : Outline.Reader)
    (index : Nat) (path : Text) :
    ofText v reader index path (.ok source : Except ε Text) =
      let outline := Outline.ofTokens tokens
      let found := document v path outline.symbols outline.overview
      ⟨begun index path :: Log.info s!"\t{tokens.length} tokens found." ::
        Log.debug s!"Parsed {outline.symbols.length} raw symbols" ::
        Log.info s!"\t{outline.symbols.length} symbols found." :: found.2,
        .ok (found.1, reader.read tokens)⟩ := by
  unfold ofText
  simp only [h, Outline.Reader.read_outline]

/-- A file without failure has one document, whoever reads it and whatever its number. -/
theorem exists_document (h : failure? text = none) (v : Visibility) (path : Text) :
    ∃ d : Document, ∀ reader index, ∃ after,
      (ofText v reader index path text).result = .ok (d, after) := by
  obtain ⟨source, tokens, rfl, hTokens⟩ := failure?_eq_none_iff.mp h
  let outline := Outline.ofTokens tokens
  refine ⟨(document v path outline.symbols outline.overview).1, ?_⟩
  intro reader index
  exact ⟨reader.read tokens, by rw [ofText_of_tokens hTokens]⟩

theorem exists_ok_of_map {α β δ : Type} {f : α → β} {x : Except δ α} {b : β} (h : x.map f = .ok b) :
    ∃ a, x = .ok a ∧ f a = b := by
  cases x with
  | error e => cases h
  | ok a =>
      cases h
      exact ⟨a, rfl, rfl⟩

section InTurn

variable {read : List Log.Message → Text → Except ε Text}
variable {reader : Outline.Reader} {before : List Log.Message} {index : Nat}

/-- A failure of the first file ends the run. -/
theorem inOrder_cons_of_failure {failure : Failure ε}
    (h : failure? (read (before ++ [begun index path]) path) = some failure) (v : Visibility)
    (reader : Outline.Reader) (paths : List Text) :
    inOrder v read reader before index (path :: paths) = ⟨[begun index path], .error failure⟩ := by
  rw [inOrder, ofText_of_failure h]

/-- A document of the first file comes before those of the others. -/
theorem inOrder_cons_of_result {d : Document} {after : Outline.Reader}
    (h : (ofText v reader index path (read (before ++ [begun index path]) path)).result =
      .ok (d, after)) (paths : List Text) :
    inOrder v read reader before index (path :: paths) =
      let first := (ofText v reader index path (read (before ++ [begun index path]) path)).messages
      let others := inOrder v read after (before ++ first) (index + 1) paths
      ⟨first ++ others.messages, others.result.map (d :: ·)⟩ := by
  rw [inOrder, h]

/-- Whether a run succeeds is decided file by file, by what there is to read when its turn comes: the
messages given until then are those of the files before it, and the one that begins it. -/
theorem inOrder_ok_iff (v : Visibility) (read : List Log.Message → Text → Except ε Text)
    (reader : Outline.Reader) (before : List Log.Message) (index : Nat) (paths : List Text) :
    (∃ ds, (inOrder v read reader before index paths).result = .ok ds) ↔
      ∀ front path rest, paths = front ++ path :: rest →
        failure? (read (before ++ (inOrder v read reader before index front).messages ++
          [begun (index + front.length) path]) path) = none := by
  induction paths generalizing reader before index with
  | nil => simp [inOrder]
  | cons path paths ih =>
      cases hFailure : failure? (read (before ++ [begun index path]) path) with
      | some failure =>
          rw [inOrder_cons_of_failure hFailure]
          refine iff_of_false (by simp) fun hAll => ?_
          have hFirst := hAll [] path paths rfl
          rw [inOrder, List.append_nil, List.length_nil, Nat.add_zero, hFailure] at hFirst
          cases hFirst
      | none =>
          obtain ⟨d, hDocument⟩ := exists_document hFailure v path
          obtain ⟨after, hAfter⟩ := hDocument reader index
          have hCons := inOrder_cons_of_result hAfter
          -- The turns of the later files are those of the run that goes on behind the first one.
          have hLater := ih after
            (before ++ (ofText v reader index path (read (before ++ [begun index path]) path)).messages)
            (index + 1)
          rw [hCons paths]
          constructor
          · rintro ⟨ds, hResult⟩ front other rest hSplit
            cases front with
            | nil =>
                cases hSplit
                rw [inOrder, List.append_nil, List.length_nil, Nat.add_zero, hFailure]
            | cons first front =>
                cases hSplit
                obtain ⟨others, hOthers, _⟩ := exists_ok_of_map hResult
                have hTurn := hLater.mp ⟨others, hOthers⟩ front other rest rfl
                rw [hCons front, List.length_cons, ← Nat.add_assoc, Nat.add_right_comm, ← hTurn]
                simp only [List.append_assoc]
          · intro hAll
            obtain ⟨others, hOthers⟩ := hLater.mpr fun front other rest hSplit => by
              have hTurn := hAll (path :: front) other rest (congrArg (path :: ·) hSplit)
              rw [hCons front, List.length_cons, ← Nat.add_assoc, Nat.add_right_comm] at hTurn
              rw [← hTurn]
              simp only [List.append_assoc]
            exact ⟨d :: others, by simp only [hOthers, Except.map]⟩

end InTurn

variable {read : Text → Except ε Text}

theorem documents_singleton {d : Document} {after : Outline.Reader}
    (h : (ofText v {} 1 path (read path)).result = .ok (d, after)) :
    (documents v read [path]).result = .ok [d] := by
  change (inOrder v (fun _ => read) {} [] 1 [path]).result = _
  rw [inOrder_cons_of_result h]
  rfl

/-- A run over one file that fails fails as the file does. -/
theorem documents_of_failure (v : Visibility) (read : Text → Except ε Text) {failure : Failure ε}
    (h : failure? (read path) = some failure) :
    documents v read [path] = ⟨[begun 1 path], .error failure⟩ := by
  change inOrder v (fun _ => read) {} [] 1 [path] = _
  rw [inOrder_cons_of_failure h]

/-- The messages and the document of one text that has tokens. -/
theorem documents_of_tokens {source : Text} {tokens : List Token}
    (h : Token.tokenize source = .ok tokens) (v : Visibility) (path : Text) :
    documents v (fun _ => (.ok source : Except ε Text)) [path] =
      let outline := Outline.ofTokens tokens
      let found := document v path outline.symbols outline.overview
      ⟨begun 1 path :: Log.info s!"\t{tokens.length} tokens found." ::
        Log.debug s!"Parsed {outline.symbols.length} raw symbols" ::
        Log.info s!"\t{outline.symbols.length} symbols found." :: found.2, .ok [found.1]⟩ := by
  have hText : ofText v {} 1 path (.ok source : Except ε Text) = _ := ofText_of_tokens h v {} 1 path
  change inOrder v (fun _ _ => .ok source) {} [] 1 [path] = _
  rw [inOrder_cons_of_result (congrArg Logged.result hText), hText]
  simp [inOrder]
  rfl

/-- A run in which no file fails gives one document for each, the same that a run over this file
alone gives. -/
theorem inOrder_of_ok (v : Visibility) {paths : List Text}
    (h : ∀ path ∈ paths, failure? (read path) = none) (reader : Outline.Reader)
    (before : List Log.Message) (index : Nat) :
    ∃ ds, (inOrder v (fun _ => read) reader before index paths).result = .ok ds ∧
      List.Forall₂ (fun path d => (documents v read [path]).result = .ok [d]) paths ds := by
  induction paths generalizing reader before index with
  | nil => exact ⟨[], rfl, .nil⟩
  | cons path paths ih =>
      obtain ⟨hFirst, hOthers⟩ := List.forall_mem_cons.mp h
      obtain ⟨d, hDocument⟩ := exists_document hFirst v path
      obtain ⟨after, hAfter⟩ := hDocument reader index
      obtain ⟨_, hAlone⟩ := hDocument {} 1
      obtain ⟨ds, hResult, hDocuments⟩ :=
        ih hOthers after (before ++ (ofText v reader index path (read path)).messages) (index + 1)
      refine ⟨d :: ds, ?_, .cons (documents_singleton hAlone) hDocuments⟩
      rw [inOrder_cons_of_result hAfter]
      simp only [hResult, Except.map]

/-- A run ends at the first file that fails. -/
theorem inOrder_of_first_failure (v : Visibility) {front : List Text}
    (h : ∀ path ∈ front, failure? (read path) = none) {failure : Failure ε}
    (hFailure : failure? (read path) = some failure) (reader : Outline.Reader)
    (before : List Log.Message) (index : Nat) (rest : List Text) :
    inOrder v (fun _ => read) reader before index (front ++ path :: rest) =
      ⟨(inOrder v (fun _ => read) reader before index front).messages ++
        [begun (index + front.length) path], .error failure⟩ := by
  induction front generalizing reader before index with
  | nil => exact inOrder_cons_of_failure hFailure v reader rest
  | cons first others ih =>
      obtain ⟨hFirst, hOthers⟩ := List.forall_mem_cons.mp h
      obtain ⟨d, hDocument⟩ := exists_document hFirst v first
      obtain ⟨next, hNext⟩ := hDocument reader index
      rw [List.cons_append, inOrder_cons_of_result hNext, inOrder_cons_of_result hNext]
      dsimp only
      rw [ih hOthers, List.length_cons, List.append_assoc, Nat.add_right_comm index 1,
        Nat.add_assoc index]
      rfl

/-- The order in which paths are given leaves no trace. -/
theorem documents_eq_of_perm (v : Visibility) (read : Text → Except ε Text)
    {paths others : List Text} (h : others.Perm paths) :
    documents v read others = documents v read paths := by
  rw [documents, documents, documentsInTurn, documentsInTurn, Text.ascending_eq_of_perm h]

/-- Files that do not fail have their own documents, in the order of the paths. -/
theorem documents_of_ok (v : Visibility) {paths : List Text}
    (h : ∀ path ∈ paths, failure? (read path) = none) :
    ∃ ds, (documents v read paths).result = .ok ds ∧
      List.Forall₂ (fun path d => (documents v read [path]).result = .ok [d])
        (Text.ascending paths) ds := by
  apply inOrder_of_ok
  intro path hMem
  exact h path ((Text.ascending_perm paths).mem_iff.mp hMem)

/-- The first file that fails ends the run, behind the messages of those before it. -/
theorem documents_of_first_failure (v : Visibility) {paths before after : List Text}
    {failure : Failure ε} (hSplit : Text.ascending paths = before ++ path :: after)
    (hBefore : ∀ p ∈ before, failure? (read p) = none)
    (hFailure : failure? (read path) = some failure) :
    documents v read paths =
      ⟨(documents v read before).messages ++ [begun (before.length + 1) path], .error failure⟩ := by
  -- The paths before the failure are sorted already, so a run over them alone takes them as here.
  have hSorted : Text.Sorted (before ++ path :: after) := hSplit ▸ Text.ascending_sorted paths
  have hPart : Text.Sorted before := (List.pairwise_append.mp hSorted).1
  rw [documents, documentsInTurn, hSplit, inOrder_of_first_failure v hBefore hFailure, documents,
    documentsInTurn, hPart.ascending_eq, Nat.add_comm]

/-- A run succeeds exactly if no file fails. -/
theorem documents_ok_iff (v : Visibility) (read : Text → Except ε Text) (paths : List Text) :
    (∃ ds, (documents v read paths).result = .ok ds) ↔
      ∀ path ∈ paths, failure? (read path) = none := by
  have hMem : ∀ path, path ∈ Text.ascending paths ↔ path ∈ paths :=
    fun _ => (Text.ascending_perm paths).mem_iff
  rw [documents, documentsInTurn, inOrder_ok_iff]
  constructor
  · intro hAll path hPath
    obtain ⟨front, rest, hSplit⟩ := List.append_of_mem ((hMem path).mpr hPath)
    exact hAll front path rest hSplit
  · intro hNone front path rest hSplit
    refine hNone path ((hMem path).mp ?_)
    rw [hSplit]
    exact List.mem_append_right _ List.mem_cons_self

/-- Files that are in order already succeed exactly if each of them can be read in its turn and has
tokens. -/
theorem documentsInTurn_ok_iff (v : Visibility) (read : List Log.Message → Text → Except ε Text)
    {paths : List Text} (h : Text.Sorted paths) :
    (∃ ds, (documentsInTurn v read paths).result = .ok ds) ↔
      ∀ front path rest, paths = front ++ path :: rest →
        ∃ source tokens, read ((documentsInTurn v read front).messages ++
          [begun (front.length + 1) path]) path = .ok source ∧ Token.tokenize source = .ok tokens := by
  rw [documentsInTurn, h.ascending_eq, inOrder_ok_iff]
  refine forall₄_congr fun front path rest hSplit => ?_
  subst hSplit
  have hFront : Text.Sorted front := (List.pairwise_append.mp h).1
  rw [documentsInTurn, hFront.ascending_eq, List.nil_append, Nat.add_comm]
  exact failure?_eq_none_iff

/-- Files are resolved independently and in the order of their paths. Paths are sorted by the numbers
of their code points, so the order in which they are given does not matter. A run succeeds exactly
if no file fails, and then has for each path the document that a run over this path alone has. If
some file fails, the run fails as the first such file does; the log has what a run over the files
before it logs, and the line that begins this file. -/
theorem documents_independent (o : Options) (read : Text → Except ε Text) (paths : List Text) :
    let run := documents o.visibility read paths
    let sorted := Text.ascending paths
    sorted.Perm paths ∧ Text.Sorted sorted ∧
    (∀ others : List Text, others.Perm paths → documents o.visibility read others = run) ∧
    ((∃ ds, run.result = .ok ds) ↔ ∀ path ∈ paths, failure? (read path) = none) ∧
    (∀ ds, run.result = .ok ds →
      List.Forall₂ (fun path d => (documents o.visibility read [path]).result = .ok [d]) sorted ds) ∧
    (∀ (before : List Text) (path : Text) (after : List Text) (failure : Failure ε),
      sorted = before ++ path :: after → (∀ p ∈ before, failure? (read p) = none) →
      failure? (read path) = some failure →
        run.result = .error failure ∧
        run.messages = (documents o.visibility read before).messages ++
          [begun (before.length + 1) path]) := by
  intro run sorted
  have hOk := documents_ok_iff o.visibility read paths
  refine ⟨Text.ascending_perm paths, Text.ascending_sorted paths,
    fun others => documents_eq_of_perm o.visibility read, hOk, ?_, ?_⟩
  · intro ds hResult
    obtain ⟨found, hFound, hDocuments⟩ := documents_of_ok o.visibility (hOk.mp ⟨ds, hResult⟩)
    obtain rfl : found = ds := Except.ok.inj (hFound.symm.trans hResult)
    exact hDocuments
  · intro before path after failure hSplit hBefore hFailure
    have hRun : run = _ := documents_of_first_failure o.visibility hSplit hBefore hFailure
    rw [hRun]
    exact ⟨rfl, rfl⟩

/-- Three files: one that leaves a function open, one that closes a brace too many, and one with a
comment that does not end. -/
def shelfFiles : List (Text × Text) :=
  [("c.js", "x = 1;\n/* open"), ("a.js", "/** Opens. */ shelf = function(lid) \x7b"),
    ("b.js", "\x7d this.size = 1; /** @overview B. */ function fill() \x7b\x7d")]

def readShelf (path : Text) : Except Text Text :=
  (shelfFiles.lookup path).elim (.error path) .ok

theorem documents_independent_shelf :
    documents ({} : Options).visibility readShelf ["b.js", "a.js"] =
        documents ({} : Options).visibility readShelf ["a.js", "b.js"] ∧
      (∃ ds, (documents ({} : Options).visibility readShelf ["b.js", "a.js"]).result = .ok ds ∧
        List.Forall₂ (fun path d =>
          (documents ({} : Options).visibility readShelf [path]).result = .ok [d])
            ["a.js", "b.js"] ds) ∧
      (documents ({} : Options).visibility readShelf ["d.js", "c.js", "b.js", "a.js"]).result =
        .error (.unterminated ⟨.comment, 2⟩) ∧
      (documents ({} : Options).visibility readShelf ["d.js", "c.js", "b.js", "a.js"]).messages =
        (documents ({} : Options).visibility readShelf ["a.js", "b.js"]).messages ++
          [begun 3 "c.js"] := by
  have hNone : ∀ path ∈ (["a.js", "b.js"] : List Text), failure? (readShelf path) = none := by
    decide +kernel
  have hOpen : Token.tokenize "x = 1;\n/* open" = .error ⟨.comment, 2⟩ := by decide +kernel
  have hFailure : failure? (readShelf "c.js") = some (.unterminated ⟨.comment, 2⟩) := by
    change failure? (.ok "x = 1;\n/* open" : Except Text Text) = _
    rw [failure?, hOpen]
  obtain ⟨_, _, hPerm, hOk, hDocuments, _⟩ :=
    documents_independent {} readShelf (["b.js", "a.js"] : List Text)
  obtain ⟨_, _, _, _, _, hFirst⟩ :=
    documents_independent {} readShelf (["d.js", "c.js", "b.js", "a.js"] : List Text)
  obtain ⟨ds, hResult⟩ := hOk.mpr fun path hMem => hNone path (by simpa [or_comm] using hMem)
  refine ⟨(hPerm _ (List.Perm.swap _ _ _)).symm, ⟨ds, hResult, ?_⟩, ?_⟩
  · exact hDocuments ds hResult
  · exact hFirst ["a.js", "b.js"] "c.js" ["d.js"] _ (by decide +kernel) hNone hFailure

end Resolution
end ScriptDoc
