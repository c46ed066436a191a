import ScriptDoc.Proofs.Outline.Statements

/-! Tokens that are passed over. A value is passed up to a comma or a closing bracket outside of its
own brackets. The body of a function is not passed at once, but its tokens give nothing as long as
they neither assign nor declare nor document anything. -/
namespace ScriptDoc.Outline

variable {s : State} {t : Token} {stack : List Bracket} {tokens rest ahead : List Token}

/-! Values that are passed over. -/

/-- The tokens outside of all brackets, behind a number of brackets that are open. -/
def outside (nesting : Nat) : List Token → List Token
  | [] => []
  | t :: rest =>
    if opens t then outside (nesting + 1) rest
    else if closes t then outside (nesting - 1) rest
    else if nesting = 0 then t :: outside nesting rest
    else outside nesting rest

/-- Tokens before which a value ends. -/
def endsValue (t : Token) : Bool :=
  closes t || t.isPunctuation ","

/-- A comma is no bracket. -/
theorem not_bracket_of_comma (h : t.isPunctuation "," = true) :
    opens t = false ∧ closes t = false := by
  obtain ⟨hKind, hText⟩ := isPunctuation_iff.mp h
  simp only [opens, closes, Token.isPunctuation, hKind, hText]
  decide

/-- What ends a value opens nothing. -/
theorem opens_eq_false_of_endsValue (h : endsValue t = true) : opens t = false := by
  rcases Bool.or_eq_true_iff.mp h with hClose | hComma
  · obtain ⟨b, hClosing⟩ := closes_iff.mp hClose
    exact opens_eq_false_of_closing hClosing
  · exact (not_bracket_of_comma hComma).1

/-- A value ends at the first token that can end it, if brackets nest and no comma stands outside of
them. -/
theorem skipFrom_append (hNested : unclosed stack tokens = some [])
    (hComma : ∀ t ∈ outside stack.length tokens, t.isPunctuation "," = false)
    (hEnds : ∃ t ∈ rest.head?, endsValue t = true) :
    skipFrom stack.length (tokens ++ rest) = rest := by
  induction tokens generalizing stack with
  | nil =>
      obtain rfl : stack = [] := Option.some.inj hNested
      obtain ⟨t, hHead, hEnd⟩ := hEnds
      obtain ⟨behind, rfl⟩ := List.head?_eq_some_iff.mp hHead
      have hOpens := opens_eq_false_of_endsValue hEnd
      rcases Bool.or_eq_true_iff.mp hEnd with hClose | hSign
      · simp [skipFrom, hOpens, hClose]
      · simp [skipFrom, hOpens, hSign]
  | cons t tokens ih =>
      rw [outside] at hComma
      rcases unclosed_cons hNested with ⟨b, hOpen, hAfter⟩ | ⟨b, below, rfl, hClose, hAfter⟩ |
        ⟨hOpen, hClose, hAfter⟩
      · have hOpens : opens t = true := opens_iff.mpr ⟨b, hOpen⟩
        rw [if_pos hOpens] at hComma
        simp only [List.cons_append, skipFrom, hOpens, ↓reduceIte]
        exact ih hAfter hComma
      · have hOpens := opens_eq_false_of_closing hClose
        have hCloses : closes t = true := closes_iff.mpr ⟨b, hClose⟩
        rw [hOpens, if_neg Bool.false_ne_true, if_pos hCloses] at hComma
        simp only [List.cons_append, List.length_cons, skipFrom, hOpens, hCloses, Bool.false_eq_true,
          ↓reduceIte]
        exact ih hAfter hComma
      · rw [hOpen, hClose, if_neg Bool.false_ne_true, if_neg Bool.false_ne_true] at hComma
        have hNot : (t.isPunctuation "," && stack.length == 0) = false := by
          by_cases hOutside : stack.length = 0
          · rw [if_pos hOutside, List.forall_mem_cons] at hComma
            rw [hComma.1, Bool.false_and]
          · rw [beq_false_of_ne hOutside, Bool.and_false]
        simp only [List.cons_append, skipFrom, hOpen, hClose, hNot, Bool.false_eq_true, ↓reduceIte]
        refine ih hAfter fun other hMem => ?_
        split at hComma
        · exact hComma other (List.mem_cons_of_mem t hMem)
        · exact hComma other hMem

/-! Bodies of functions. -/

/-- Tokens that neither assign nor declare nor document anything. -/
structure IsQuiet (t : Token) : Prop where
  noSign : t.isPunctuation "=" = false
  noFunction : t.isNamed "function" = false
  noDoc : t.isDocComment = false

instance (t : Token) : Decidable (IsQuiet t) :=
  decidable_of_iff (t.isPunctuation "=" = false ∧ t.isNamed "function" = false ∧
      t.isDocComment = false)
    ⟨fun ⟨hSign, hFunction, hDoc⟩ => ⟨hSign, hFunction, hDoc⟩,
      fun h => ⟨h.noSign, h.noFunction, h.noDoc⟩⟩

theorem functionName?_of_not_function (h : t.isNamed "function" = false) (rest : List Token) :
    functionName? t rest = none := by
  cases rest with
  | nil => rfl
  | cons name after => simp [functionName?, h]

/-- Without a sign there is no assignment. -/
theorem afterAssign?_of_not_sign (h : ∀ next ∈ ahead.head?, next.isPunctuation "=" = false) :
    afterAssign? ahead = none := by
  cases ahead with
  | nil => rfl
  | cons next after => simp [afterAssign?, h next rfl]

/-- In the body of a function there are no keys. -/
theorem afterKey?_of_function {scope : Scope} {outer : List Scope} (hScopes : s.scopes = scope :: outer)
    (hFunction : scope.isFunction = true) (ahead : List Token) : afterKey? s ahead = none := by
  cases ahead with
  | nil => simp [afterKey?, hScopes]
  | cons next after => simp [afterKey?, hScopes, hFunction]

theorem openBrace_inner (scopes : List Scope) (depth : Int) (inner : Nat) :
    State.openBrace ⟨scopes, depth + inner, none⟩ = ⟨scopes, depth + (inner + 1 : Nat), none⟩ := by
  simp only [State.openBrace, State.mk.injEq, true_and, and_true]
  omega

/-- A scope stays open when a brace inside it is closed, since it lies no deeper than the brace. -/
theorem closeBrace_inner (scope : Scope) (outer : List Scope) (inner : Nat) :
    State.closeBrace ⟨scope :: outer, scope.depth + (inner + 1 : Nat), none⟩ =
      ⟨scope :: outer, scope.depth + inner, none⟩ := by
  have hDepth : scope.depth + (inner + 1 : Nat) - 1 = scope.depth + inner := by omega
  have hStays : ¬ scope.depth + inner < scope.depth := by omega
  simp only [State.closeBrace, hDepth, List.dropWhile_cons, hStays, decide_false, Bool.false_eq_true,
    ↓reduceIte]

section Bodies

variable (scope : Scope) (outer : List Scope) (hFunction : scope.isFunction = true)

include hFunction

/-- A quiet token that is no brace is passed, if no sign comes behind it. -/
theorem step_quiet (depth : Int) (hQuiet : IsQuiet t) (hOpen : t.isPunctuation ['{'] = false)
    (hClose : t.isPunctuation ['}'] = false)
    (hAhead : ∀ next ∈ ahead.head?, next.isPunctuation "=" = false) :
    step ⟨scope :: outer, depth, none⟩ t ahead = ⟨none, ⟨scope :: outer, depth, none⟩, ahead⟩ := by
  have hKey := afterKey?_of_function (s := ⟨scope :: outer, depth, none⟩) rfl hFunction ahead
  by_cases hComment : t.kind = .comment
  · simp [step, hComment, hQuiet.noDoc]
  · simp only [step, hComment, hOpen, hClose, Bool.false_eq_true, ↓reduceIte, readPlain,
      functionName?_of_not_function hQuiet.noFunction, afterAssign?_of_not_sign hAhead, hKey, ite_self,
      State.forget]

/-- Quiet tokens whose brackets nest are passed. -/
theorem reads_quiet (hQuiet : ∀ t ∈ tokens, IsQuiet t) (hNested : unclosed stack tokens = some [])
    (hRest : ∀ next ∈ rest.head?, next.isPunctuation "=" = false) :
    Reads ⟨scope :: outer, scope.depth + stack.count .brace, none⟩ (tokens ++ rest) []
      ⟨scope :: outer, scope.depth, none⟩ rest := by
  induction tokens generalizing stack with
  | nil =>
      obtain rfl : stack = [] := Option.some.inj hNested
      simpa using Reads.refl _ rest
  | cons t tokens ih =>
      obtain ⟨hFirst, hOthers⟩ := List.forall_mem_cons.mp hQuiet
      have hAhead : ∀ next ∈ (tokens ++ rest).head?, next.isPunctuation "=" = false := by
        cases tokens with
        | nil => exact hRest
        | cons next tokens =>
            rintro _ ⟨⟩
            exact (hOthers next List.mem_cons_self).noSign
      -- A bracket that is no brace changes the stack, but not the number of its braces.
      have hPass : ∀ after : List Bracket, t.isPunctuation ['{'] = false →
          t.isPunctuation ['}'] = false → unclosed after tokens = some [] →
          after.count .brace = stack.count .brace →
          Reads ⟨scope :: outer, scope.depth + stack.count .brace, none⟩ (t :: (tokens ++ rest)) []
            ⟨scope :: outer, scope.depth, none⟩ rest := by
        intro after hOpen hClose hAfter hCount
        exact .head (step_quiet scope outer hFunction _ hFirst hOpen hClose hAhead)
          (hCount ▸ ih hOthers hAfter)
      rcases unclosed_cons hNested with ⟨b, hOpen, hAfter⟩ | ⟨b, below, rfl, hClose, hAfter⟩ |
        ⟨hOpen, hClose, hAfter⟩
      · cases b with
        | brace =>
            refine .head (congrFun (step_of_openBrace hOpen _) _) ?_
            rw [openBrace_inner, ← List.count_cons_self]
            exact ih hOthers hAfter
        | _ =>
            exact hPass _ (isPunctuation_eq_false_of_ne hOpen (by decide))
              (isPunctuation_eq_false_of_ne hOpen (by decide)) hAfter (List.count_cons_of_ne (by decide))
      · cases b with
        | brace =>
            refine .head (congrFun (step_of_closeBrace hClose _) _) ?_
            rw [List.count_cons_self, closeBrace_inner]
            exact ih hOthers hAfter
        | _ =>
            exact hPass _ (isPunctuation_eq_false_of_ne hClose (by decide))
              (isPunctuation_eq_false_of_ne hClose (by decide)) hAfter
              (List.count_cons_of_ne (by decide)).symm
      · exact hPass stack (Bool.or_eq_false_iff.mp hOpen).2 (Bool.or_eq_false_iff.mp hClose).2 hAfter rfl

end Bodies

end ScriptDoc.Outline
