import ScriptDoc.Outline.Reader
import ScriptDoc.Proofs.Outline.Nesting

/-! Statements at the top level are read independently. As long as brackets nest, the depth of a
state counts the open braces, and every scope lies inside one of them or is entered by the very next
token. At the end of a statement no brace is open, so no scope and no comment is left over. -/
namespace ScriptDoc.Outline

variable {s : State} {t : Token} {b : Bracket} {stack : List Bracket}
variable {rest tokens ahead : List Token}

/-- How deep scopes may lie: inside the open braces, or inside a brace that comes next. -/
def reach (s : State) : List Token → Int
  | t :: _ => if t.isPunctuation ['{'] then s.depth + 1 else s.depth
  | [] => s.depth

/-- A state that fits the open brackets and the tokens ahead. Scopes are ordered, since leaving a
brace looks at the innermost ones only. -/
structure Fits (stack : List Bracket) (s : State) (ahead : List Token) : Prop where
  depth : s.depth = stack.count .brace
  positive : ∀ scope ∈ s.scopes, 0 < scope.depth
  within : ∀ scope ∈ s.scopes, scope.depth ≤ reach s ahead
  ordered : s.scopes.Pairwise fun inner outer => outer.depth ≤ inner.depth

theorem depth_le_reach (s : State) (ahead : List Token) : s.depth ≤ reach s ahead := by
  unfold reach
  split
  · split <;> omega
  · exact Int.le_refl _

/-- Of ordered scopes, those that remain when the first deep ones are dropped are not deep. -/
theorem depth_le_of_mem_dropWhile {scopes : List Scope} {scope : Scope} {depth : Int}
    (hOrdered : scopes.Pairwise fun inner outer => outer.depth ≤ inner.depth)
    (hMem : scope ∈ scopes.dropWhile fun scope => depth < scope.depth) : scope.depth ≤ depth := by
  induction scopes with
  | nil => cases hMem
  | cons first others ih =>
      obtain ⟨hFirst, hOthers⟩ := List.pairwise_cons.mp hOrdered
      rw [List.dropWhile_cons] at hMem
      split at hMem
      · exact ih hOthers hMem
      · next hStop =>
          simp only [decide_eq_true_eq, Int.not_lt] at hStop
          rcases List.mem_cons.mp hMem with rfl | hMem
          · exact hStop
          · exact Int.le_trans (hFirst scope hMem) hStop

namespace Fits

theorem start (tokens : List Token) : Fits [] {} tokens where
  depth := rfl
  positive := nofun
  within := nofun
  ordered := List.Pairwise.nil

/-- Once no scope waits for its brace, any tokens may come. -/
theorem anyAhead (h : Fits stack s []) (ahead : List Token) : Fits stack s ahead :=
  { h with within := fun scope hMem => Int.le_trans (h.within scope hMem) (depth_le_reach s ahead) }

/-- Unless a brace comes next, a state fits whatever comes. -/
theorem settled (h : Fits stack s (t :: rest)) (hBrace : t.isPunctuation ['{'] = false) :
    Fits stack s [] :=
  { h with within := by simpa [reach, hBrace] using h.within }

/-- The doc comment that waits has no part in it. -/
theorem withDoc (h : Fits stack s ahead) (doc : Option Token) :
    Fits stack { s with doc } ahead where
  depth := h.depth
  positive := h.positive
  within := by
    intro scope hMem
    cases ahead <;> exact h.within scope hMem
  ordered := h.ordered

/-- A scope is opened for the brace that comes next. -/
theorem enter (h : Fits stack s []) (path : Text) (isFunction : Bool) (ahead : List Token) :
    Fits stack (s.enter path isFunction ahead) ahead := by
  cases ahead with
  | nil => exact h
  | cons t rest =>
      by_cases hBrace : t.isPunctuation ['{'] = true
      · simp only [State.enter, hBrace, ↓reduceIte]
        have hInside : ∀ scope ∈ s.scopes, scope.depth ≤ s.depth := h.within
        have hDepth : 0 ≤ s.depth := by rw [h.depth]; omega
        refine ⟨h.depth, ?_, ?_, ?_⟩
        · intro scope hMem
          rcases List.mem_cons.mp hMem with rfl | hMem
          · change 0 < s.depth + 1
            omega
          · exact h.positive scope hMem
        · intro scope hMem
          simp only [reach, hBrace, ↓reduceIte]
          rcases List.mem_cons.mp hMem with rfl | hMem
          · exact Int.le_refl _
          · have hLe := hInside scope hMem
            omega
        · refine List.pairwise_cons.mpr ⟨?_, h.ordered⟩
          intro scope hMem
          have hLe := hInside scope hMem
          change scope.depth ≤ s.depth + 1
          omega
      · simp only [State.enter, hBrace, ↓reduceIte, Bool.false_eq_true]
        exact h.anyAhead _

/-- A brace more is open. -/
theorem openBrace (h : Fits stack s (t :: rest)) (hBrace : t.isPunctuation ['{'] = true) :
    Fits (.brace :: stack) s.openBrace [] where
  depth := by simp [State.openBrace, h.depth]
  positive := h.positive
  within := by
    intro scope hMem
    have hLe := h.within scope hMem
    simpa [reach, hBrace, State.openBrace] using hLe
  ordered := h.ordered

/-- Leaving a brace leaves every scope that lies deeper. The order of scopes makes them the first
ones. -/
theorem closeBrace (h : Fits (.brace :: stack) s []) : Fits stack s.closeBrace [] where
  depth := by
    have hDepth := h.depth
    rw [List.count_cons_self] at hDepth
    change s.depth - 1 = _
    omega
  positive := fun scope hMem => h.positive scope ((List.dropWhile_sublist _).subset hMem)
  within := fun _ hMem => depth_le_of_mem_dropWhile h.ordered hMem
  ordered := h.ordered.sublist (List.dropWhile_sublist _)

theorem congr {other : List Bracket} (h : Fits stack s ahead)
    (hCount : other.count .brace = stack.count .brace) : Fits other s ahead :=
  { h with depth := by rw [hCount, h.depth] }

/-- A scope that is open lies in a bracket. -/
theorem exists_cons {scope : Scope} (h : Fits stack s ahead) (hMem : scope ∈ s.scopes)
    (hDepth : scope.depth = s.depth) : ∃ b below, stack = b :: below := by
  cases stack with
  | nil =>
      have hZero := h.depth
      have hPositive := h.positive scope hMem
      simp at hZero
      omega
  | cons b below => exact ⟨b, below, rfl⟩

/-- Outside of all brackets no scope is open. -/
theorem eq_start (h : Fits [] s []) : s.forget = {} := by
  have hDepth : s.depth = 0 := h.depth
  have hScopes : s.scopes = [] := by
    apply List.eq_nil_iff_forall_not_mem.mpr
    intro scope hMem
    have hPositive := h.positive scope hMem
    have hLe : scope.depth ≤ s.depth := h.within scope hMem
    omega
  simp [State.forget, hDepth, hScopes]

end Fits

/-- A step with more tokens behind those that it leaves. -/
def Step.followedBy (step : Step) (more : List Token) : Step :=
  { step with rest := step.rest ++ more }

/-- A reader that begins inside of a statement stays in it: it leaves tokens that complete the same
brackets and a state that fits them, and takes no notice of tokens after the statement. -/
structure StaysIn (stack : List Bracket) (read : List Token → Step) (tokens : List Token) :
    Prop where
  completes : Completes stack (read tokens).rest
  fits : Fits stack (read tokens).state (read tokens).rest
  followed : ∀ more, read (tokens ++ more) = (read tokens).followedBy more

/-- A reader that goes over to another one behind some tokens stays in the statement with it. -/
theorem StaysIn.of_eq {read next : List Token → Step} {after : List Token}
    (h : StaysIn stack next after) (hEq : ∀ more, read (tokens ++ more) = next (after ++ more)) :
    StaysIn stack read tokens := by
  have hRead : read tokens = next after := by simpa only [List.append_nil] using hEq []
  refine ⟨hRead ▸ h.completes, hRead ▸ h.fits, ?_⟩
  intro more
  rw [hEq, hRead, h.followed]

/-- Whether a scope is opened is told by the next token. -/
theorem enter_append (s : State) (path : Text) (isFunction : Bool) (hAhead : ahead ≠ [])
    (more : List Token) :
    s.enter path isFunction (ahead ++ more) = s.enter path isFunction ahead := by
  cases ahead with
  | nil => exact absurd rfl hAhead
  | cons t rest => rfl

theorem isInner_of_isName (h : t.isName = true) : IsInner t := by
  apply isInner_of_kind
  rw [eq_of_beq h]
  decide

theorem isInner_of_isNamed {text : Text} (h : t.isNamed text = true) : IsInner t :=
  isInner_of_isName (Bool.and_eq_true_iff.mp h).1

/-- A token that is passed by itself changes at most the comment that waits. -/
theorem pass_staysIn (event : Option Event) (doc : Option Token) (h : Completes stack rest)
    (hs : Fits stack s []) : StaysIn stack (fun rest => ⟨event, { s with doc }, rest⟩) rest :=
  ⟨h, (hs.withDoc doc).anyAhead _, fun _ => rfl⟩

/-- A function ends inside the brackets around it. -/
theorem readFunction_staysIn (h : Completes stack tokens) (hs : Fits stack s []) (path : Text)
    (line : Nat) : StaysIn stack (readFunction s path line) tokens := by
  obtain ⟨hAfter, hMore⟩ := h.readParams
  refine ⟨hAfter, (hs.enter path true _).withDoc none, ?_⟩
  intro more
  simp only [readFunction, hMore, enter_append _ _ _ hAfter.ne_nil, Step.followedBy]

/-- Dropping a name leaves the brackets as they are. -/
theorem Completes.dropName (h : Completes stack tokens) :
    Completes stack (dropName tokens) ∧
      ∀ more, dropName (tokens ++ more) = dropName tokens ++ more := by
  cases tokens with
  | nil => exact absurd rfl h.ne_nil
  | cons t rest =>
      simp only [List.cons_append, Outline.dropName]
      split
      · next hName => exact ⟨h.of_isInner (isInner_of_isName hName), fun _ => rfl⟩
      · exact ⟨h, fun _ => rfl⟩

theorem enter_staysIn (event : Option Event) (h : Completes stack tokens) (hs : Fits stack s [])
    (path : Text) : StaysIn stack
      (fun ahead => ⟨event, (s.enter path false ahead).forget, ahead⟩) tokens := by
  refine ⟨h, (hs.enter path false tokens).withDoc none, ?_⟩
  intro more
  simp only [enter_append _ _ _ h.ne_nil, Step.followedBy]

/-- A value ends inside the brackets around it. -/
theorem readValue_staysIn (h : Completes stack tokens) (hs : Fits stack s []) (path : Text)
    (line : Nat) : StaysIn stack (readValue s path line) tokens := by
  cases tokens with
  | nil => exact absurd rfl h.ne_nil
  | cons t rest =>
      by_cases hFunction : t.isNamed "function" = true
      · obtain ⟨hAfter, hMore⟩ := (h.of_isInner (isInner_of_isNamed hFunction)).dropName
        apply (readFunction_staysIn hAfter hs path line).of_eq
        intro more
        simp only [List.cons_append, readValue, hFunction, ↓reduceIte, hMore]
      · apply (enter_staysIn _ h hs path).of_eq
        intro more
        simp only [List.cons_append, readValue, hFunction, ↓reduceIte, Bool.false_eq_true]
        rfl

theorem Completes.functionName? (h : Completes stack rest) (t : Token) :
    (∀ name after, functionName? t rest = some (name, after) → Completes stack after) ∧
      ∀ more, functionName? t (rest ++ more) =
        (functionName? t rest).map fun found => (found.1, found.2 ++ more) := by
  cases rest with
  | nil => exact absurd rfl h.ne_nil
  | cons next others =>
      simp only [List.cons_append, Outline.functionName?]
      split
      · next hNames =>
          have hName : next.isName = true := (Bool.and_eq_true_iff.mp hNames).2
          refine ⟨?_, fun _ => rfl⟩
          rintro name after ⟨⟩
          exact h.of_isInner (isInner_of_isName hName)
      · exact ⟨nofun, fun _ => rfl⟩

theorem Completes.afterAssign? (h : Completes stack tokens) :
    (∀ value, afterAssign? tokens = some value → Completes stack value) ∧
      ∀ more, afterAssign? (tokens ++ more) = (afterAssign? tokens).map (· ++ more) := by
  cases tokens with
  | nil => exact absurd rfl h.ne_nil
  | cons t rest =>
      by_cases hEquals : t.isPunctuation "=" = true
      · have hRest := h.of_isInner (isInner_of_isPunctuation hEquals (Or.inl rfl))
        cases rest with
        | nil => exact absurd rfl hRest.ne_nil
        | cons next others =>
            simp only [List.cons_append, Outline.afterAssign?, hEquals, ↓reduceIte]
            split
            · exact ⟨nofun, fun _ => rfl⟩
            · refine ⟨?_, fun _ => rfl⟩
              rintro value ⟨⟩
              exact hRest
      · simp only [List.cons_append, Outline.afterAssign?, hEquals, ↓reduceIte, Bool.false_eq_true]
        exact ⟨nofun, fun _ => rfl⟩

theorem Completes.assigned? (h : Completes stack rest) (t : Token) :
    (∀ value, (if t.isName then Outline.afterAssign? rest else none) = some value →
      Completes stack value) ∧
      ∀ more, (if t.isName then Outline.afterAssign? (rest ++ more) else none) =
        (if t.isName then Outline.afterAssign? rest else none).map (· ++ more) := by
  cases t.isName with
  | true => exact h.afterAssign?
  | false => exact ⟨nofun, fun _ => rfl⟩

/-- A key belongs to the literal around it, whatever follows. -/
theorem Completes.afterKey? (h : Completes stack tokens) (s : State) :
    (∀ scope value, afterKey? s tokens = some (scope, value) →
      Completes stack value ∧ scope ∈ s.scopes ∧ scope.depth = s.depth) ∧
      ∀ more, afterKey? s (tokens ++ more) =
        (afterKey? s tokens).map fun found => (found.1, found.2 ++ more) := by
  cases tokens with
  | nil => exact absurd rfl h.ne_nil
  | cons t rest =>
      cases hScopes : s.scopes with
      | nil =>
          simp only [List.cons_append, Outline.afterKey?, hScopes]
          exact ⟨nofun, fun _ => rfl⟩
      | cons scope others =>
          simp only [List.cons_append, Outline.afterKey?, hScopes]
          split
          · next hKey =>
              obtain ⟨_, hDepth, hColon⟩ := hKey
              refine ⟨?_, fun _ => rfl⟩
              rintro found value ⟨⟩
              exact ⟨h.of_isInner (isInner_of_isPunctuation hColon (Or.inr rfl)),
                List.mem_cons_self, hDepth⟩
          · exact ⟨nofun, fun _ => rfl⟩

theorem Completes.key? (h : Completes stack rest) (s : State) (t : Token) :
    (∀ scope value, (if t.isName || t.kind == .string then Outline.afterKey? s rest else none) =
      some (scope, value) → Completes stack value ∧ scope ∈ s.scopes ∧ scope.depth = s.depth) ∧
      ∀ more, (if t.isName || t.kind == .string then Outline.afterKey? s (rest ++ more) else none) =
        (if t.isName || t.kind == .string then Outline.afterKey? s rest else none).map
          fun found => (found.1, found.2 ++ more) := by
  cases t.isName || t.kind == .string with
  | true => exact h.afterKey? s
  | false => exact ⟨nofun, fun _ => rfl⟩

/-- After a key the value is read where the key stands, and then passed over. Only an open scope
makes a key, so there is a bracket before whose end the value ends. -/
theorem readKey_staysIn {scope : Scope} (h : Completes stack tokens) (hs : Fits stack s [])
    (hMem : scope ∈ s.scopes) (hDepth : scope.depth = s.depth) (path : Text) (line : Nat) :
    StaysIn stack (fun value =>
      { readValue s path line value with
        rest := skipPlain value (readValue s path line value).rest }) tokens := by
  obtain ⟨b, below, rfl⟩ := hs.exists_cons hMem hDepth
  cases tokens with
  | nil => exact absurd rfl h.ne_nil
  | cons t rest =>
      by_cases hStructured : (t.isNamed "function" || t.isPunctuation ['{']) = true
      · -- The members of a structured value are left to later steps.
        apply (readValue_staysIn h hs path line).of_eq
        intro more
        simp only [List.cons_append, skipPlain, hStructured, ↓reduceIte]
      · obtain ⟨hFunction, hBrace⟩ := Bool.or_eq_false_iff.mp (Bool.not_eq_true _ ▸ hStructured)
        obtain ⟨hAfter, hMore⟩ := h.skipValue
        let event := s.doc.map fun doc =>
          Event.symbol (documented path .object (DocComment.parse doc.text) [] line)
        have hSkip : StaysIn (b :: below) (fun value => ⟨event, s.forget, skipValue value⟩)
            (t :: rest) :=
          ⟨hAfter, (hs.withDoc none).anyAhead _, fun more => by rw [hMore]; rfl⟩
        apply hSkip.of_eq
        intro more
        simp only [List.cons_append, readValue, hFunction, ↓reduceIte, Bool.false_eq_true,
          readValue.readOther, State.enter, hBrace, skipPlain, Bool.or_self]
        rfl

/-- Other punctuation only ends the waiting of a comment. -/
theorem readPlain_of_punctuation (h : t.kind = .punctuation) (s : State) (rest : List Token) :
    readPlain s t rest = ⟨none, s.forget, rest⟩ := by
  have hNamed (text : Text) : t.isNamed text = false := by simp [Token.isNamed, h]
  have hName : t.isName = false := by simp [Token.isName, h]
  have hFunction : functionName? t rest = none := by
    unfold functionName?
    split
    · simp [hNamed]
    · rfl
  simp [readPlain, hFunction, hNamed, hName, h]

/-- A token that is neither comment nor brace begins a declaration, or is passed. -/
theorem readPlain_staysIn (h : Completes stack rest) (hs : Fits stack s []) (t : Token) :
    StaysIn stack (readPlain s t) rest := by
  obtain ⟨hNameAfter, hNameMore⟩ := h.functionName? t
  obtain ⟨hAssignAfter, hAssignMore⟩ := h.assigned? t
  obtain ⟨hKeyAfter, hKeyMore⟩ := h.key? s t
  cases hFunction : functionName? t rest with
  | some found =>
      apply (readFunction_staysIn (hNameAfter _ _ hFunction) hs _ found.1.line).of_eq
      intro more
      simp only [readPlain, hNameMore, hFunction, Option.map_some]
      rfl
  | none =>
      by_cases hVar : (t.isNamed "var" || t.isNamed "let" || t.isNamed "const") = true
      · apply (pass_staysIn none s.doc h hs).of_eq
        intro more
        simp only [readPlain, hNameMore, hFunction, Option.map_none, hVar, ↓reduceIte]
      · cases hAssign : (if t.isName then afterAssign? rest else none) with
        | some value =>
            have hValue := hAssignAfter value hAssign
            by_cases hPrototype : isPrototype t.text = true
            · apply (enter_staysIn none hValue hs (s.qualify t.text)).of_eq
              intro more
              simp only [readPlain, hNameMore, hFunction, Option.map_none, hVar, ↓reduceIte,
                Bool.false_eq_true, hAssignMore, hAssign, Option.map_some, hPrototype]
            · apply (readValue_staysIn hValue hs (s.qualify t.text) t.line).of_eq
              intro more
              simp only [readPlain, hNameMore, hFunction, Option.map_none, hVar, ↓reduceIte,
                Bool.false_eq_true, hAssignMore, hAssign, Option.map_some, hPrototype]
        | none =>
            cases hKey : (if t.isName || t.kind == .string then afterKey? s rest else none) with
            | some found =>
                obtain ⟨hValue, hMem, hDepth⟩ := hKeyAfter _ _ hKey
                apply (readKey_staysIn hValue hs hMem hDepth _ t.line).of_eq
                intro more
                simp only [readPlain, hNameMore, hFunction, Option.map_none, hVar, ↓reduceIte,
                  Bool.false_eq_true, hAssignMore, hAssign, hKeyMore, hKey, Option.map_some]
                rfl
            | none =>
                apply (pass_staysIn none none h hs).of_eq
                intro more
                simp only [readPlain, hNameMore, hFunction, Option.map_none, hVar, ↓reduceIte,
                  Bool.false_eq_true, hAssignMore, hAssign, hKeyMore, hKey]
                rfl

/-- A doc comment takes nothing but itself. -/
theorem readDoc_staysIn (h : Completes stack rest) (hs : Fits stack s []) (t : Token) :
    StaysIn stack (readDoc s t) rest := by
  unfold readDoc
  dsimp only
  split
  · exact pass_staysIn _ none h hs
  · split
    · exact pass_staysIn _ none h hs
    · exact pass_staysIn none (some t) h hs

theorem step_eq_readPlain {text : Text} (h : t.isPunctuation text = true) (hOpen : text ≠ [.char '{'])
    (hClose : text ≠ [.char '}']) (s : State) : step s t = readPlain s t := by
  obtain ⟨hKind, rfl⟩ := isPunctuation_iff.mp h
  funext rest
  simp [step, Token.isPunctuation, hKind, hOpen, hClose]

/-- The last token of a statement leads back to the beginning. -/
theorem step_last (hs : Fits [] s [t]) (hLast : t.isPunctuation ";" = true) (rest : List Token) :
    step s t rest = ⟨none, {}, rest⟩ := by
  have hOutside := hs.settled (isPunctuation_eq_false_of_ne hLast (by decide))
  rw [step_eq_readPlain hLast (by decide) (by decide),
    readPlain_of_punctuation (isPunctuation_iff.mp hLast).1, hOutside.eq_start]

/-- An opening brace counts, and nothing else happens. -/
theorem step_of_openBrace (h : t.isPunctuation ['{'] = true) (s : State) :
    step s t = fun rest => ⟨none, s.openBrace, rest⟩ := by
  funext rest
  have hKind := (isPunctuation_iff.mp h).1
  simp [step, hKind, h]

/-- A closing brace counts, and the scopes that lie deeper are left. -/
theorem step_of_closeBrace (h : t.isPunctuation ['}'] = true) (s : State) :
    step s t = fun rest => ⟨none, s.closeBrace, rest⟩ := by
  funext rest
  have hKind := (isPunctuation_iff.mp h).1
  have hOpen : t.isPunctuation ['{'] = false := isPunctuation_eq_false_of_ne h (by decide)
  simp [step, hKind, hOpen, h]

/-- A step over an opening bracket stays behind it. -/
theorem step_opening_staysIn (h : Completes (b :: stack) rest) (hs : Fits stack s (t :: rest))
    (hOpen : t.isPunctuation b.opening = true) : StaysIn (b :: stack) (step s t) rest := by
  by_cases hBrace : b = .brace
  · subst hBrace
    rw [step_of_openBrace hOpen]
    exact ⟨h, (hs.openBrace hOpen).anyAhead _, fun _ => rfl⟩
  · have hNotOpen : b.opening ≠ [.char '{'] := by
      cases b with
      | brace => exact absurd rfl hBrace
      | _ => decide
    have hNotClose : b.opening ≠ [.char '}'] := by cases b <;> decide
    have hSettled := hs.settled (isPunctuation_eq_false_of_ne hOpen hNotOpen)
    rw [step_eq_readPlain hOpen hNotOpen hNotClose]
    exact readPlain_staysIn h (hSettled.congr (List.count_cons_of_ne hBrace)) t

/-- A step over a closing bracket stays in those around it. -/
theorem step_closing_staysIn (h : Completes stack rest) (hs : Fits (b :: stack) s (t :: rest))
    (hClose : t.isPunctuation b.closing = true) : StaysIn stack (step s t) rest := by
  have hNotOpen : b.closing ≠ [.char '{'] := by cases b <;> decide
  have hOpen := isPunctuation_eq_false_of_ne hClose hNotOpen
  have hSettled := hs.settled hOpen
  by_cases hBrace : b = .brace
  · subst hBrace
    rw [step_of_closeBrace hClose]
    exact ⟨h, hSettled.closeBrace.anyAhead _, fun _ => rfl⟩
  · have hNotClose : b.closing ≠ [.char '}'] := by
      cases b with
      | brace => exact absurd rfl hBrace
      | _ => decide
    rw [step_eq_readPlain hClose hNotOpen hNotClose]
    exact readPlain_staysIn h (hSettled.congr (List.count_cons_of_ne hBrace).symm) t

/-- A step over anything else stays in the same brackets. -/
theorem step_plain_staysIn (h : Completes stack rest) (hs : Fits stack s (t :: rest))
    (hOpen : opens t = false) (hClose : closes t = false) : StaysIn stack (step s t) rest := by
  have hNotOpen : t.isPunctuation ['{'] = false := (Bool.or_eq_false_iff.mp hOpen).2
  have hNotClose : t.isPunctuation ['}'] = false := (Bool.or_eq_false_iff.mp hClose).2
  have hSettled := hs.settled hNotOpen
  unfold step
  split
  · split
    · exact readDoc_staysIn h hSettled t
    · exact pass_staysIn none s.doc h hSettled
  · simp only [hNotOpen, hNotClose, Bool.false_eq_true, ↓reduceIte]
    exact readPlain_staysIn h hSettled t

/-- A step stays in the statement, with one bracket more or less about it, unless it takes the last
token. -/
theorem step_cases (h : Completes stack (t :: rest)) (hs : Fits stack s (t :: rest)) :
    (rest = [] ∧ ∀ more, step s t more = ⟨none, {}, more⟩) ∨
      ∃ after, StaysIn after (step s t) rest := by
  cases h with
  | last hLast => exact Or.inl ⟨rfl, step_last hs hLast⟩
  | opening b hOpen after => exact Or.inr ⟨b :: stack, step_opening_staysIn after hs hOpen⟩
  | closing b hClose after => exact Or.inr ⟨_, step_closing_staysIn after hs hClose⟩
  | plain hOpen hClose after => exact Or.inr ⟨stack, step_plain_staysIn after hs hOpen hClose⟩

/-- Steps lead from a state with the tokens before it to another such place, and give events. -/
inductive Reads : State → List Token → List Event → State → List Token → Prop
  | refl (s : State) (tokens : List Token) : Reads s tokens [] s tokens
  | head {s next last : State} {t : Token} {rest ahead behind : List Token} {event : Option Event}
      {found : List Event} (hStep : step s t rest = ⟨event, next, ahead⟩)
      (after : Reads next ahead found last behind) :
      Reads s (t :: rest) (event.toList ++ found) last behind

/-- What is read from some place on comes behind what was read up to there. -/
theorem Reads.events_eq {last : State} {behind : List Token} {found : List Event}
    (h : Reads s tokens found last behind) : events s tokens = found ++ events last behind := by
  induction h with
  | refl s tokens => rfl
  | head hStep after ih => rw [events, hStep, ih, List.append_assoc]

/-- Reading goes on where it has stopped. -/
theorem Reads.trans {middle last : State} {between behind : List Token} {first second : List Event}
    (h : Reads s tokens first middle between) (hNext : Reads middle between second last behind) :
    Reads s tokens (first ++ second) last behind := by
  induction h with
  | refl s tokens => exact hNext
  | head hStep after ih =>
      rw [List.append_assoc]
      exact .head hStep (ih hNext)

/-- Reading a statement to its end leads back to the beginning, and nothing after the statement has
an influence on what it gives. -/
theorem Completes.reads (h : Completes stack tokens) (hs : Fits stack s tokens)
    (more : List Token) : Reads s (tokens ++ more) (events s tokens) {} more := by
  -- The induction follows the steps, which may take many tokens at once. Each of them leaves a
  -- state that fits some stack of brackets, not always the one before.
  fun_induction events s tokens generalizing stack with
  | case1 s => exact absurd rfl h.ne_nil
  | case2 s t rest ih =>
      rcases step_cases h hs with ⟨rfl, hStep⟩ | ⟨after, hInside⟩
      · rw [hStep [], events]
        exact .head (hStep more) (.refl {} more)
      · exact .head (hInside.followed more) (ih hInside.completes hInside.fits)

/-- Of two overviews the later counts, and symbols come one after the other. -/
theorem ofEvents_append (first second : List Event) :
    ofEvents (first ++ second) =
      ⟨(ofEvents second).overview.or (ofEvents first).overview,
        (ofEvents first).symbols ++ (ofEvents second).symbols⟩ := by
  simp only [ofEvents, List.filterMap_append, List.getLast?_append]

/-- Statements at the top level are read independently. Tokens whose brackets nest and that end with
a semicolon contribute their own symbols, whatever tokens come after them, and an overview that
gives way to a later one. Where these tokens end, reading is as at the beginning of a script: no
brace and no scope is open, and no comment waits. -/
theorem ofTokens_append_of_statement (xs ys : List Token) (hNested : IsNested xs)
    (hEnd : EndsStatement xs) :
    (ofTokens (xs ++ ys)).symbols = (ofTokens xs).symbols ++ (ofTokens ys).symbols ∧
      (ofTokens (xs ++ ys)).overview = (ofTokens ys).overview.or (ofTokens xs).overview ∧
      Reads {} (xs ++ ys) (events {} xs) { scopes := [], depth := 0, doc := none } ys := by
  have hReads := (Completes.of_unclosed hNested hEnd).reads (Fits.start xs) ys
  have hOutline : ofTokens (xs ++ ys) = ofEvents (events {} xs ++ events {} ys) := by
    rw [ofTokens, hReads.events_eq]
  rw [hOutline, ofEvents_append]
  exact ⟨rfl, rfl, hReads⟩

/-- A documented function with all kinds of brackets. -/
def boxStatement : List Token :=
  [⟨.comment, "/** Reads a cell. */", 1⟩, ⟨.name, "Box.get", 2⟩, ⟨.punctuation, "=", 2⟩,
    ⟨.name, "function", 2⟩, ⟨.punctuation, "(", 2⟩, ⟨.name, "at", 2⟩, ⟨.punctuation, ")", 2⟩,
    ⟨.punctuation, ['{'], 2⟩, ⟨.name, "return", 3⟩, ⟨.name, "cells", 3⟩, ⟨.punctuation, "[", 3⟩,
    ⟨.name, "at", 3⟩, ⟨.punctuation, "]", 3⟩, ⟨.punctuation, ['}'], 4⟩, ⟨.punctuation, ";", 4⟩]

/-- A function after a brace that closes nothing. -/
def strayTokens : List Token :=
  [⟨.punctuation, ['}'], 5⟩, ⟨.name, "function", 6⟩, ⟨.name, "empty", 6⟩, ⟨.punctuation, "(", 6⟩]

theorem ofTokens_append_of_statement_box :
    IsNested boxStatement ∧ EndsStatement boxStatement ∧
      (ofTokens (boxStatement ++ strayTokens)).symbols.map Symbol.name =
        [("Box/get" : Text), "empty"] ∧
      Reads {} (boxStatement ++ strayTokens) (events {} boxStatement) {} strayTokens := by
  obtain ⟨hSymbols, _, hReads⟩ :=
    ofTokens_append_of_statement boxStatement strayTokens (by decide) (by decide)
  refine ⟨by decide, by decide, ?_, hReads⟩
  rw [hSymbols]
  decide +kernel

end ScriptDoc.Outline
