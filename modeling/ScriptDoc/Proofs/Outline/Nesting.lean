import ScriptDoc.Outline.Scope

/-! Nested brackets. Tokens are followed with the brackets that are open, innermost first. Readers
of bracketed lists count brackets without telling their kinds apart; on properly nested tokens they
stop at the bracket that belongs to the one they began with, so what comes later has no influence
on them. -/
namespace ScriptDoc.Outline

/-- The three kinds of brackets. -/
inductive Bracket
  | round
  | square
  | brace
  deriving DecidableEq, Repr

namespace Bracket

/-- The punctuation that opens a bracket. -/
def opening : Bracket → Text
  | .round => "("
  | .square => "["
  | .brace => [.char '{']

/-- The punctuation that closes a bracket. -/
def closing : Bracket → Text
  | .round => ")"
  | .square => "]"
  | .brace => [.char '}']

/-- The brackets of all kinds. -/
def all : List Bracket :=
  [.round, .square, .brace]

end Bracket

/-- The bracket that a token opens. -/
def opened? (t : Token) : Option Bracket :=
  Bracket.all.find? fun b => t.isPunctuation b.opening

/-- The bracket that a token closes. -/
def closed? (t : Token) : Option Bracket :=
  Bracket.all.find? fun b => t.isPunctuation b.closing

/-- The brackets that are open after some tokens, if each bracket that was closed was of the same
kind as the innermost one open. -/
def unclosed (stack : List Bracket) : List Token → Option (List Bracket)
  | [] => some stack
  | t :: rest =>
    match opened? t, closed? t, stack with
    | some b, _, _ => unclosed (b :: stack) rest
    | none, some b, top :: below => if top = b then unclosed below rest else none
    | none, some _, [] => none
    | none, none, _ => unclosed stack rest

/-- All brackets are properly nested and matched. -/
def IsNested (tokens : List Token) : Prop :=
  unclosed [] tokens = some []

/-- The last token is a semicolon. -/
def EndsStatement (tokens : List Token) : Prop :=
  tokens.getLast?.any (·.isPunctuation ";") = true

instance (tokens : List Token) : Decidable (IsNested tokens) :=
  inferInstanceAs (Decidable (_ = _))

instance (tokens : List Token) : Decidable (EndsStatement tokens) :=
  inferInstanceAs (Decidable (_ = _))

/-- The tokens close the brackets of the stack, innermost first, nest their own properly, and end
with a semicolon outside of all of them. -/
inductive Completes : List Bracket → List Token → Prop
  | last {t : Token} (hLast : t.isPunctuation ";" = true) : Completes [] [t]
  | opening {t : Token} {stack : List Bracket} {rest : List Token} (b : Bracket)
      (hOpen : t.isPunctuation b.opening = true) (after : Completes (b :: stack) rest) :
      Completes stack (t :: rest)
  | closing {t : Token} {stack : List Bracket} {rest : List Token} (b : Bracket)
      (hClose : t.isPunctuation b.closing = true) (after : Completes stack rest) :
      Completes (b :: stack) (t :: rest)
  | plain {t : Token} {stack : List Bracket} {rest : List Token}
      (hOpen : opens t = false) (hClose : closes t = false) (after : Completes stack rest) :
      Completes stack (t :: rest)

variable {t : Token} {b : Bracket} {stack : List Bracket} {rest tokens : List Token}

theorem isPunctuation_iff {text : Text} :
    t.isPunctuation text = true ↔ t.kind = .punctuation ∧ t.text = text := by
  simp [Token.isPunctuation]

/-- A token is at most one piece of punctuation. -/
theorem isPunctuation_inj {text other : Text} (h : t.isPunctuation text = true)
    (hOther : t.isPunctuation other = true) : text = other :=
  (isPunctuation_iff.mp h).2.symm.trans (isPunctuation_iff.mp hOther).2

theorem isPunctuation_eq_false_of_ne {text other : Text} (h : t.isPunctuation text = true)
    (hNe : text ≠ other) : t.isPunctuation other = false := by
  rw [← Bool.not_eq_true]
  exact fun hOther => hNe (isPunctuation_inj h hOther)

theorem isPunctuation_eq_false_of_kind {text : Text} (h : t.kind ≠ .punctuation) :
    t.isPunctuation text = false := by
  simp [Token.isPunctuation, h]

theorem Bracket.exists_iff {P : Bracket → Prop} :
    (∃ b, P b) ↔ (P .round ∨ P .square) ∨ P .brace := by
  constructor
  · rintro ⟨b, h⟩
    cases b with
    | round => exact Or.inl (Or.inl h)
    | square => exact Or.inl (Or.inr h)
    | brace => exact Or.inr h
  · rintro ((h | h) | h) <;> exact ⟨_, h⟩

/-- A token opens exactly if it is one of the opening brackets. -/
theorem opens_iff : opens t = true ↔ ∃ b : Bracket, t.isPunctuation b.opening = true := by
  rw [Bracket.exists_iff, opens, Bool.or_eq_true, Bool.or_eq_true]
  rfl

/-- A token closes exactly if it is one of the closing brackets. -/
theorem closes_iff : closes t = true ↔ ∃ b : Bracket, t.isPunctuation b.closing = true := by
  rw [Bracket.exists_iff, closes, Bool.or_eq_true, Bool.or_eq_true]
  rfl

theorem closes_eq_false_of_opening (h : t.isPunctuation b.opening = true) : closes t = false := by
  rw [← Bool.not_eq_true, closes_iff]
  rintro ⟨other, hClose⟩
  have hSame := isPunctuation_inj h hClose
  revert hSame
  cases b <;> cases other <;> decide

theorem opens_eq_false_of_closing (h : t.isPunctuation b.closing = true) : opens t = false := by
  rw [← Bool.not_eq_true, opens_iff]
  rintro ⟨other, hOpen⟩
  have hSame := isPunctuation_inj h hOpen
  revert hSame
  cases b <;> cases other <;> decide

/-- A token opens at most one kind of bracket. -/
theorem opening_injective {c : Bracket} (h : t.isPunctuation b.opening = true)
    (hOther : t.isPunctuation c.opening = true) : b = c := by
  have hSame := isPunctuation_inj h hOther
  revert hSame
  cases b <;> cases c <;> decide

/-- Neither a bracket nor the end of a statement. -/
def IsInner (t : Token) : Prop :=
  opens t = false ∧ closes t = false ∧ t.isPunctuation ";" = false

theorem isInner_of_kind (h : t.kind ≠ .punctuation) : IsInner t := by
  simp [IsInner, opens, closes, isPunctuation_eq_false_of_kind h]

/-- Signs of assignments and colons neither open nor close. -/
theorem isInner_of_isPunctuation {text : Text} (h : t.isPunctuation text = true)
    (hText : text = "=" ∨ text = ":") : IsInner t := by
  obtain ⟨hKind, rfl⟩ := isPunctuation_iff.mp h
  simp only [IsInner, opens, closes, Token.isPunctuation, hKind]
  rcases hText with hText | hText <;> rw [hText] <;> decide

namespace Completes

theorem ne_nil (h : Completes stack tokens) : tokens ≠ [] := by
  cases h <;> exact List.cons_ne_nil _ _

/-- Behind an opening bracket there is one more to close. -/
theorem of_opening (h : Completes stack (t :: rest)) (hOpen : t.isPunctuation b.opening = true) :
    Completes (b :: stack) rest := by
  have hNot := closes_eq_false_of_opening hOpen
  cases h with
  | last hLast =>
      have hSame := isPunctuation_inj hOpen hLast
      cases b <;> exact absurd hSame (by decide)
  | opening c hOther after => rwa [opening_injective hOpen hOther]
  | closing c hClose after =>
      rw [closes_iff.mpr ⟨c, hClose⟩] at hNot
      cases hNot
  | plain hPlain _ after =>
      rw [opens_iff.mpr ⟨b, hOpen⟩] at hPlain
      cases hPlain

/-- A token that is no bracket changes nothing about what is open. -/
theorem of_isInner (h : Completes stack (t :: rest)) (hInner : IsInner t) :
    Completes stack rest := by
  obtain ⟨hOpen, hClose, hEnd⟩ := hInner
  cases h with
  | last hLast =>
      rw [hLast] at hEnd
      cases hEnd
  | opening c hOther after =>
      rw [opens_iff.mpr ⟨c, hOther⟩] at hOpen
      cases hOpen
  | closing c hOther after =>
      rw [closes_iff.mpr ⟨c, hOther⟩] at hClose
      cases hClose
  | plain _ _ after => exact after

end Completes

theorem opening_of_opened? (h : opened? t = some b) : t.isPunctuation b.opening = true :=
  List.find?_some (p := fun b : Bracket => t.isPunctuation b.opening) h

theorem closing_of_closed? (h : closed? t = some b) : t.isPunctuation b.closing = true :=
  List.find?_some (p := fun b : Bracket => t.isPunctuation b.closing) h

theorem opens_eq_false_of_opened? (h : opened? t = none) : opens t = false := by
  rw [← Bool.not_eq_true, opens_iff]
  rintro ⟨b, hOpen⟩
  exact List.find?_eq_none.mp h b (by cases b <;> decide) hOpen

theorem closes_eq_false_of_closed? (h : closed? t = none) : closes t = false := by
  rw [← Bool.not_eq_true, closes_iff]
  rintro ⟨b, hClose⟩
  exact List.find?_eq_none.mp h b (by cases b <;> decide) hClose

/-- A statement ends with its last semicolon. -/
theorem EndsStatement.tail (h : EndsStatement (t :: rest)) :
    (rest = [] ∧ t.isPunctuation ";" = true) ∨ EndsStatement rest := by
  cases rest with
  | nil => exact Or.inl ⟨rfl, by simpa [EndsStatement] using h⟩
  | cons next others =>
      refine Or.inr ?_
      unfold EndsStatement at h ⊢
      rwa [List.getLast?_cons_cons] at h

/-- What a first token can be among tokens that the stack of brackets accepts. -/
theorem unclosed_cons {left : List Bracket} (h : unclosed stack (t :: rest) = some left) :
    (∃ b : Bracket, t.isPunctuation b.opening = true ∧ unclosed (b :: stack) rest = some left) ∨
      (∃ b below, stack = b :: below ∧ t.isPunctuation b.closing = true ∧
        unclosed below rest = some left) ∨
      opens t = false ∧ closes t = false ∧ unclosed stack rest = some left := by
  cases hOpened : opened? t with
  | some b =>
      simp only [unclosed, hOpened] at h
      exact Or.inl ⟨b, opening_of_opened? hOpened, h⟩
  | none =>
      have hOpen := opens_eq_false_of_opened? hOpened
      cases hClosed : closed? t with
      | some b =>
          cases stack with
          | nil => simp [unclosed, hOpened, hClosed] at h
          | cons top below =>
              simp only [unclosed, hOpened, hClosed] at h
              split at h
              · next hTop =>
                  subst hTop
                  exact Or.inr (Or.inl ⟨top, below, rfl, closing_of_closed? hClosed, h⟩)
              · cases h
      | none =>
          simp only [unclosed, hOpened, hClosed] at h
          exact Or.inr (Or.inr ⟨hOpen, closes_eq_false_of_closed? hClosed, h⟩)

/-- A statement that the stack of brackets accepts completes that stack. -/
theorem Completes.of_unclosed (h : unclosed stack tokens = some []) (hEnd : EndsStatement tokens) :
    Completes stack tokens := by
  induction tokens generalizing stack with
  | nil => cases hEnd
  | cons t rest ih =>
      rcases unclosed_cons h with ⟨b, hOpen, hRest⟩ | ⟨b, below, rfl, hClose, hRest⟩ |
        ⟨hOpen, hClose, hRest⟩
      · rcases hEnd.tail with ⟨rfl, _⟩ | hAfter
        · cases hRest
        · exact .opening b hOpen (ih hRest hAfter)
      · rcases hEnd.tail with ⟨_, hLast⟩ | hAfter
        · have hSame := isPunctuation_inj hClose hLast
          cases b <;> exact absurd hSame (by decide)
        · exact .closing b hClose (ih hRest hAfter)
      · rcases hEnd.tail with ⟨rfl, hLast⟩ | hAfter
        · cases hRest
          exact .last hLast
        · exact .plain hOpen hClose (ih hRest hAfter)

/-- Reading parameters stops at the bracket that closes the list. The stack has the brackets opened
inside the list before the one of the list itself. -/
theorem Completes.paramsFrom {inner outer : List Bracket}
    (h : Completes (inner ++ b :: outer) tokens) (expecting : Bool) :
    Completes outer (paramsFrom inner.length expecting tokens).2 ∧
      ∀ more, paramsFrom inner.length expecting (tokens ++ more) =
        ((paramsFrom inner.length expecting tokens).1,
          (paramsFrom inner.length expecting tokens).2 ++ more) := by
  generalize hStack : inner ++ b :: outer = stack at h
  induction h generalizing inner expecting with
  | last hLast => simp at hStack
  | @opening t stack rest c hOpen after ih =>
      have hOpens : opens t = true := opens_iff.mpr ⟨c, hOpen⟩
      subst hStack
      simp only [List.cons_append, Outline.paramsFrom, hOpens, ↓reduceIte]
      exact @ih (c :: inner) expecting rfl
  | @closing t stack rest c hClose after ih =>
      have hOpens := opens_eq_false_of_closing hClose
      have hCloses : closes t = true := closes_iff.mpr ⟨c, hClose⟩
      cases inner with
      | nil =>
          -- Of all closing brackets only this one belongs to the list itself.
          cases hStack
          simpa [Outline.paramsFrom, hOpens, hCloses] using after
      | cons first inner =>
          cases hStack
          simp only [List.cons_append, Outline.paramsFrom, hOpens, hCloses, ↓reduceIte,
            Bool.false_eq_true, List.length_cons]
          exact ih expecting rfl
  | @plain t stack rest hOpens hCloses after ih =>
      simp only [List.cons_append, Outline.paramsFrom, hOpens, hCloses, ↓reduceIte,
        Bool.false_eq_true]
      split
      · exact ih true hStack
      · split
        · obtain ⟨hAfter, hMore⟩ := ih false hStack
          exact ⟨hAfter, fun more => by rw [hMore]⟩
        · exact ih expecting hStack

/-- Parameters end before the brackets around them do, so what follows does not matter. -/
theorem Completes.readParams (h : Completes stack tokens) :
    Completes stack (readParams tokens).2 ∧
      ∀ more, readParams (tokens ++ more) =
        ((readParams tokens).1, (readParams tokens).2 ++ more) := by
  cases tokens with
  | nil => exact absurd rfl h.ne_nil
  | cons t rest =>
      by_cases hOpen : t.isPunctuation "(" = true
      · have hInside : Completes ([] ++ .round :: stack) rest := h.of_opening hOpen
        simp only [List.cons_append, Outline.readParams, hOpen, ↓reduceIte]
        exact hInside.paramsFrom true
      · simp only [List.cons_append, Outline.readParams, hOpen, ↓reduceIte, Bool.false_eq_true]
        exact ⟨h, fun _ => trivial⟩

/-- Passing over a value stops at the latest before the bracket that closes what the value stands
in. -/
theorem Completes.skipFrom {inner outer : List Bracket}
    (h : Completes (inner ++ b :: outer) tokens) :
    Completes (b :: outer) (skipFrom inner.length tokens) ∧
      ∀ more, skipFrom inner.length (tokens ++ more) = skipFrom inner.length tokens ++ more := by
  generalize hStack : inner ++ b :: outer = stack at h
  induction h generalizing inner with
  | last hLast => simp at hStack
  | @opening t stack rest c hOpen after ih =>
      have hOpens : opens t = true := opens_iff.mpr ⟨c, hOpen⟩
      subst hStack
      simp only [List.cons_append, Outline.skipFrom, hOpens, ↓reduceIte]
      exact @ih (c :: inner) rfl
  | @closing t stack rest c hClose after ih =>
      have hOpens := opens_eq_false_of_closing hClose
      have hCloses : closes t = true := closes_iff.mpr ⟨c, hClose⟩
      cases inner with
      | nil =>
          cases hStack
          simpa [Outline.skipFrom, hOpens, hCloses] using Completes.closing b hClose after
      | cons first inner =>
          cases hStack
          simp only [List.cons_append, Outline.skipFrom, hOpens, hCloses, ↓reduceIte,
            Bool.false_eq_true, List.length_cons]
          exact ih rfl
  | @plain t stack rest hOpens hCloses after ih =>
      simp only [List.cons_append, Outline.skipFrom, hOpens, hCloses, ↓reduceIte,
        Bool.false_eq_true]
      split
      · next hComma =>
          -- A comma ends the value only outside of its own brackets.
          have hInner : inner = [] := by
            simpa using (Bool.and_eq_true_iff.mp hComma).2
          subst hInner
          cases hStack
          exact ⟨.plain hOpens hCloses after, fun _ => rfl⟩
      · exact ih hStack

/-- A value ends before the bracket around it does. -/
theorem Completes.skipValue {below : List Bracket} (h : Completes (b :: below) tokens) :
    Completes (b :: below) (skipValue tokens) ∧
      ∀ more, skipValue (tokens ++ more) = skipValue tokens ++ more := by
  have hOutside : Completes ([] ++ b :: below) tokens := h
  exact hOutside.skipFrom

end ScriptDoc.Outline
