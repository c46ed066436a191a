import ScriptDoc.Outline.Reader
import ScriptDoc.Proofs.Outline.Literals

/-! The order of open scopes. Brackets need not match: more braces may be closed than were opened,
and lists of parameters and values are passed with the braces in them. Still every scope lies deeper
than the ones around it, and only the innermost may lie deeper than the open braces, namely as long
as its own brace has not been read. So a closing brace leaves one scope at most. -/
namespace ScriptDoc.Outline

variable {s next : State} {t : Token} {tokens rest ahead : List Token}

/-- Whether an opening brace comes next. -/
def bracesAhead (ahead : List Token) : Prop :=
  ∃ t ∈ ahead.head?, t.isPunctuation ['{'] = true

/-- Open scopes between two tokens, innermost first. -/
structure InOrder (s : State) (ahead : List Token) : Prop where
  ascending : s.scopes.Pairwise fun inner outer => outer.depth < inner.depth
  around : ∀ scope ∈ s.scopes.tail, scope.depth ≤ s.depth
  innermost : ∀ scope ∈ s.scopes.head?,
    scope.depth ≤ s.depth ∨ scope.depth = s.depth + 1 ∧ bracesAhead ahead

/-- What one step can do to the depth and to the open scopes. A scope is opened where a brace comes
next, and never on an opening brace itself. -/
inductive Turn (s : State) (t : Token) (next : State) (ahead : List Token) : Prop
  | keep (hBrace : t.isPunctuation ['{'] = false) (hScopes : next.scopes = s.scopes)
      (hDepth : next.depth = s.depth)
  | enter (scope : Scope) (hBrace : t.isPunctuation ['{'] = false)
      (hScope : scope.depth = s.depth + 1) (hScopes : next.scopes = scope :: s.scopes)
      (hDepth : next.depth = s.depth) (hAhead : bracesAhead ahead)
  | openBrace (hBrace : t.isPunctuation ['{'] = true) (hScopes : next.scopes = s.scopes)
      (hDepth : next.depth = s.depth + 1)
  | closeBrace (hBrace : t.isPunctuation ['{'] = false)
      (hScopes : next.scopes = s.scopes.dropWhile fun scope => s.depth - 1 < scope.depth)
      (hDepth : next.depth = s.depth - 1)

/-! What a step does. -/

section Turns

variable (hBrace : t.isPunctuation ['{'] = false)

include hBrace

/-- A scope is opened at the depth of its brace. -/
theorem turn_enter (path : Text) (isFunction : Bool) (ahead : List Token) :
    Turn s t (s.enter path isFunction ahead).forget ahead := by
  cases ahead with
  | nil => exact .keep hBrace rfl rfl
  | cons next rest =>
      by_cases hNext : next.isPunctuation ['{'] = true
      · refine .enter ⟨path, s.depth + 1, isFunction⟩ hBrace rfl ?_ ?_ ⟨next, rfl, hNext⟩
        · simp [State.enter, hNext, State.forget]
        · simp [State.enter, hNext, State.forget]
      · simp only [State.enter, hNext, Bool.false_eq_true, ↓reduceIte]
        exact .keep hBrace rfl rfl

/-- A function opens at most the scope of its body. -/
theorem turn_readFunction (path : Text) (line : Nat) (tokens : List Token) :
    Turn s t (readFunction s path line tokens).state (readFunction s path line tokens).rest :=
  turn_enter hBrace path true _

/-- A value opens at most one scope. -/
theorem turn_readValue (path : Text) (line : Nat) (tokens : List Token) :
    Turn s t (readValue s path line tokens).state (readValue s path line tokens).rest := by
  have hOther : Turn s t (readValue.readOther s path line tokens).state
      (readValue.readOther s path line tokens).rest := turn_enter hBrace path false tokens
  unfold readValue
  split
  · split
    · exact turn_readFunction hBrace path line _
    · exact hOther
  · exact hOther

/-- A value is passed over only if it opens no scope. -/
theorem turn_skipPlain (path : Text) (line : Nat) (value : List Token) :
    Turn s t (readValue s path line value).state
      (skipPlain value (readValue s path line value).rest) := by
  have hRead := turn_readValue (s := s) hBrace path line value
  cases value with
  | nil => exact hRead
  | cons first rest =>
      by_cases hStructured : (first.isNamed "function" || first.isPunctuation ['{']) = true
      · rw [skipPlain, if_pos hStructured]
        exact hRead
      · obtain ⟨hFunction, hOpen⟩ := Bool.or_eq_false_iff.mp (Bool.not_eq_true _ ▸ hStructured)
        refine .keep hBrace ?_ ?_
        · simp [readValue, hFunction, readValue.readOther, State.enter, hOpen, State.forget]
        · simp [readValue, hFunction, readValue.readOther, State.enter, hOpen, State.forget]

/-- Any other token opens at most one scope. -/
theorem turn_readPlain (s : State) (rest : List Token) :
    Turn s t (readPlain s t rest).state (readPlain s t rest).rest := by
  unfold readPlain
  split
  · exact turn_readFunction hBrace _ _ _
  · split
    · exact .keep hBrace rfl rfl
    · split
      · split
        · exact turn_enter hBrace _ _ _
        · exact turn_readValue hBrace _ _ _
      · split
        · exact turn_skipPlain hBrace _ _ _
        · exact .keep hBrace rfl rfl

theorem turn_readDoc (s : State) (rest : List Token) :
    Turn s t (readDoc s t rest).state (readDoc s t rest).rest := by
  unfold readDoc
  dsimp only
  split
  · exact .keep hBrace rfl rfl
  · split <;> exact .keep hBrace rfl rfl

end Turns

/-- What one step can do to the scopes. -/
theorem step_turn (s : State) (t : Token) (rest : List Token) :
    Turn s t (step s t rest).state (step s t rest).rest := by
  unfold step
  split
  · next hComment =>
      have hBrace : t.isPunctuation ['{'] = false :=
        isPunctuation_eq_false_of_kind (by simp [hComment])
      split
      · exact turn_readDoc hBrace s rest
      · exact .keep hBrace rfl rfl
  · split
    · next hBrace => exact .openBrace hBrace rfl rfl
    · next hOpen =>
        have hBrace : t.isPunctuation ['{'] = false := Bool.eq_false_iff.mpr hOpen
        split
        · exact .closeBrace hBrace rfl rfl
        · exact turn_readPlain hBrace s rest

/-! Scopes stay in order. -/

namespace InOrder

/-- In the beginning there are no scopes. -/
theorem start (tokens : List Token) : InOrder {} tokens where
  ascending := List.Pairwise.nil
  around := by simp
  innermost := by simp

/-- An open scope lies inside the open braces, or its brace comes next. -/
theorem cases {scope : Scope} (h : InOrder s ahead) (hMem : scope ∈ s.scopes) :
    scope.depth ≤ s.depth ∨ scope.depth = s.depth + 1 ∧ bracesAhead ahead := by
  obtain ⟨_, hAround, hInnermost⟩ := h
  cases hScopes : s.scopes with
  | nil => simp [hScopes] at hMem
  | cons inner outer =>
      rw [hScopes] at hMem hAround hInnermost
      rcases List.mem_cons.mp hMem with rfl | hOuter
      · exact hInnermost scope rfl
      · exact Or.inl (hAround scope hOuter)

/-- Where no brace comes next, no scope lies deeper than the open braces. -/
theorem depth_le (h : InOrder s (t :: rest)) (hBrace : t.isPunctuation ['{'] = false) :
    ∀ scope ∈ s.scopes, scope.depth ≤ s.depth := by
  intro scope hMem
  rcases h.cases hMem with hLe | ⟨_, next, hNext, hOpen⟩
  · exact hLe
  · cases hNext
    rw [hOpen] at hBrace
    cases hBrace

/-- Scopes in order none of which waits for its brace. -/
theorem of_depth_le (hAscending : s.scopes.Pairwise fun inner outer => outer.depth < inner.depth)
    (hLe : ∀ scope ∈ s.scopes, scope.depth ≤ s.depth) (ahead : List Token) : InOrder s ahead where
  ascending := hAscending
  around := fun scope hMem => hLe scope (List.mem_of_mem_tail hMem)
  innermost := fun scope hHead => Or.inl (hLe scope (List.mem_of_head? hHead))

/-- A step keeps scopes in order, whatever it does. -/
theorem of_turn (h : InOrder s (t :: rest)) (hTurn : Turn s t next ahead) : InOrder next ahead := by
  cases hTurn with
  | keep hBrace hScopes hDepth =>
      have hLe := h.depth_le hBrace
      apply of_depth_le
      · rw [hScopes]
        exact h.ascending
      · rw [hScopes, hDepth]
        exact hLe
  | enter scope hBrace hScope hScopes hDepth hAhead =>
      have hLe := h.depth_le hBrace
      refine ⟨?_, ?_, ?_⟩
      · rw [hScopes]
        refine List.pairwise_cons.mpr ⟨?_, h.ascending⟩
        intro outer hMem
        have hOuter := hLe outer hMem
        omega
      · rw [hScopes, hDepth]
        exact hLe
      · rw [hScopes, hDepth]
        rintro _ ⟨⟩
        exact Or.inr ⟨hScope, hAhead⟩
  | openBrace hBrace hScopes hDepth =>
      -- The scope that waited for this brace lies inside of it now.
      apply of_depth_le
      · rw [hScopes]
        exact h.ascending
      · rw [hScopes, hDepth]
        intro scope hMem
        rcases h.cases hMem with hLe | ⟨hEq, _⟩ <;> omega
  | closeBrace hBrace hScopes hDepth =>
      have hOrdered := h.ascending.imp fun hLt => Int.le_of_lt hLt
      apply of_depth_le
      · rw [hScopes]
        exact h.ascending.sublist (List.dropWhile_sublist _)
      · rw [hScopes, hDepth]
        exact fun scope hMem => depth_le_of_mem_dropWhile hOrdered hMem

/-- A closing brace leaves the innermost scope if that lies as deep as the brace, and no other. -/
theorem closeBrace (h : InOrder s (t :: rest)) (hBrace : t.isPunctuation ['{'] = false) :
    (∃ inner, inner.depth = s.depth ∧ s.scopes = inner :: s.closeBrace.scopes) ∨
      (∀ inner ∈ s.scopes.head?, inner.depth ≠ s.depth) ∧ s.scopes = s.closeBrace.scopes := by
  have hLe := h.depth_le hBrace
  have hAscending := h.ascending
  simp only [State.closeBrace]
  cases hScopes : s.scopes with
  | nil => simp
  | cons inner outer =>
      rw [hScopes] at hLe hAscending
      have hInner := hLe inner List.mem_cons_self
      by_cases hDepth : inner.depth = s.depth
      · left
        refine ⟨inner, hDepth, ?_⟩
        have hDeep : s.depth - 1 < inner.depth := by omega
        have hOuter : outer.dropWhile (fun scope => s.depth - 1 < scope.depth) = outer := by
          cases outer with
          | nil => rfl
          | cons second others =>
              -- Depths differ, so the next scope is no longer deep.
              have hSecond := (List.pairwise_cons.mp hAscending).1 second List.mem_cons_self
              have hStays : ¬ s.depth - 1 < second.depth := by omega
              rw [List.dropWhile_cons, if_neg (mt of_decide_eq_true hStays)]
        rw [List.dropWhile_cons, if_pos (decide_eq_true hDeep), hOuter]
      · right
        have hStays : ¬ s.depth - 1 < inner.depth := by omega
        constructor
        · rintro _ ⟨⟩
          exact hDepth
        · rw [List.dropWhile_cons, if_neg (mt of_decide_eq_true hStays)]

end InOrder

/-- From scopes in order, steps lead to scopes in order. -/
theorem Reads.inOrder {last : State} {behind : List Token} {found : List Event}
    (h : Reads s tokens found last behind) (hs : InOrder s tokens) : InOrder last behind := by
  induction h with
  | refl s tokens => exact hs
  | @head s next last t rest ahead behind event found hStep after ih =>
      have hTurn := step_turn s t rest
      rw [hStep] at hTurn
      exact ih (hs.of_turn hTurn)

/-- Whatever tokens a reader is given, before each of its steps the open scopes are in order, and a
closing brace leaves one scope or none: the innermost, if it lies exactly as deep as the brace. -/
theorem reads_scopes_in_order (r : Reader) {tokens ahead : List Token} {found : List Event} {s : State}
    (h : Reads (r.reset.state none) tokens found s ahead) :
    InOrder s ahead ∧
      ∀ t rest, ahead = t :: rest → t.isPunctuation ['}'] = true →
        (s.scopes = (step s t rest).state.scopes ∨
          ∃ inner, s.scopes = inner :: (step s t rest).state.scopes) ∧
        ((∃ inner, s.scopes = inner :: (step s t rest).state.scopes) ↔
          ∃ inner ∈ s.scopes.head?, inner.depth = s.depth) := by
  have hs : InOrder s ahead := h.inOrder (.start tokens)
  refine ⟨hs, ?_⟩
  rintro t rest rfl hClose
  rw [step_of_closeBrace hClose]
  have hBrace : t.isPunctuation ['{'] = false := isPunctuation_eq_false_of_ne hClose (by decide)
  rcases hs.closeBrace hBrace with ⟨inner, hDepth, hLeft⟩ | ⟨hDepth, hSame⟩
  · have hHead : ∃ inner ∈ s.scopes.head?, inner.depth = s.depth := by
      rw [hLeft]
      exact ⟨inner, rfl, hDepth⟩
    exact ⟨.inr ⟨inner, hLeft⟩, fun _ => hHead, fun _ => ⟨inner, hLeft⟩⟩
  · refine ⟨.inl hSame, ?_, ?_⟩
    · rintro ⟨inner, hLeft⟩
      have hLength := congrArg List.length (hSame.symm.trans hLeft)
      simp at hLength
    · rintro ⟨inner, hHead, hSameDepth⟩
      exact absurd hSameDepth (hDepth inner hHead)

/-- A brace that closes nothing, and an object literal behind it. -/
def strayLiteral : List Token :=
  [⟨.punctuation, ['}'], 1⟩, ⟨.name, "Box", 1⟩, ⟨.punctuation, "=", 1⟩, ⟨.punctuation, ['{'], 1⟩,
    ⟨.punctuation, ['}'], 1⟩]

theorem reads_scopes_in_order_stray :
    Reads (Reader.state (Reader.reset {}) none) strayLiteral [] ⟨[⟨"Box", 0, false⟩], -1, none⟩
        (strayLiteral.drop 3) ∧
      InOrder ⟨[⟨"Box", 0, false⟩], -1, none⟩ (strayLiteral.drop 3) ∧
      Reads (Reader.state (Reader.reset {}) none) strayLiteral [] ⟨[⟨"Box", 0, false⟩], 0, none⟩
        (strayLiteral.drop 4) ∧
      ∃ inner, [⟨"Box", 0, false⟩] =
        inner :: (step ⟨[⟨"Box", 0, false⟩], 0, none⟩ ⟨.punctuation, ['}'], 1⟩ []).state.scopes := by
  have hStray : step {} ⟨.punctuation, ['}'], 1⟩ (strayLiteral.drop 1) =
      ⟨none, ⟨[], -1, none⟩, strayLiteral.drop 1⟩ := rfl
  have hName : step ⟨[], -1, none⟩ ⟨.name, "Box", 1⟩ (strayLiteral.drop 2) =
      ⟨none, ⟨[⟨"Box", 0, false⟩], -1, none⟩, strayLiteral.drop 3⟩ :=
    Literal.step_assigned ⟨⟨'B', rfl, by decide⟩, by decide +kernel⟩ rfl rfl ⟨⟨.punctuation, "=", 1⟩, rfl⟩
      ⟨⟨.punctuation, ['{'], 1⟩, rfl⟩ (strayLiteral.drop 4)
  have hBrace : step ⟨[⟨"Box", 0, false⟩], -1, none⟩ ⟨.punctuation, ['{'], 1⟩ (strayLiteral.drop 4) =
      ⟨none, ⟨[⟨"Box", 0, false⟩], 0, none⟩, strayLiteral.drop 4⟩ := rfl
  have hBefore : Reads (Reader.state (Reader.reset {}) none) strayLiteral []
      ⟨[⟨"Box", 0, false⟩], -1, none⟩ (strayLiteral.drop 3) :=
    .head hStray (.head hName (.refl _ _))
  have hBehind : Reads (Reader.state (Reader.reset {}) none) strayLiteral []
      ⟨[⟨"Box", 0, false⟩], 0, none⟩ (strayLiteral.drop 4) :=
    .head hStray (.head hName (.head hBrace (.refl _ _)))
  obtain ⟨hOrder, _⟩ := reads_scopes_in_order {} hBefore
  obtain ⟨_, hClose⟩ := reads_scopes_in_order {} hBehind
  exact ⟨hBefore, hOrder, hBehind, (hClose _ _ rfl rfl).2.mpr ⟨_, rfl, rfl⟩⟩

end ScriptDoc.Outline
