import ScriptDoc.Proofs.Token.Concatenation

/-! Scripts put together from pieces. A piece whose tokens do not depend on what follows is read by
itself, and so are names and strings that are not known beforehand; the tokens of the whole are
those of its pieces. All pieces are on one line. -/
namespace ScriptDoc.Token

/-- Where the token ends does not depend on what follows it, as long as no word goes on. -/
def isSettled (t : Token) : Bool :=
  match t.kind with
  | .comment => (Text.ofString "/*").isPrefixOf t.text
  | .regex => false
  | .punctuation => t.text != [.char '/']
  | _ => true

/-- A settled lexeme stays the same before a character that ends words. -/
theorem Lexes.append_of_isSettled {regexAllowed : Bool} {c d : CodePoint} {w : Text} {line : Nat}
    {lexeme : Lexeme} (h : Lexes regexAllowed c w lexeme)
    (hSettled : isSettled ⟨lexeme.kind, lexeme.text, line⟩ = true) (hEnds : EndsWords d)
    (more : Text) :
    Lexes regexAllowed c (w ++ d :: more) (lexeme.followedBy (d :: more)) := by
  cases h with
  | block hClose => exact .block (closeComment_isClosed.append_right _ hClose)
  | line rest =>
      simp [isSettled, Cut.lexeme, Cut.cons, spanWhile, Text.ofString, Text.ofChars] at hSettled
  | slash hBlock hLine =>
      unfold slashLexeme at hSettled
      split at hSettled <;> simp [isSettled, Cut.lexeme] at hSettled
  | string hQuote hClose => exact .string hQuote ((closeString_isClosed _).append_right _ hClose)
  | plain hSlash hQuote =>
      rw [← plainLexeme_endsWords hEnds]
      exact .plain hSlash hQuote

/-- Settled tokens are read again before a character that ends words, and the scan goes on there. -/
theorem Scans.append_of_isSettled {line : Nat} {last : Option Token} {cs more : Text}
    {c : CodePoint} {tokens others : List Token} (h : Scans line last cs tokens)
    (hSettled : ∀ t ∈ tokens, isSettled t = true) (hEnds : EndsWords c)
    (hMore : Scans (line + Text.newlines cs) (tokens.foldl significant last) (c :: more) others) :
    Scans line last (cs ++ c :: more) (tokens ++ others) := by
  induction h with
  | done line last => exact hMore
  | @space line last d rest tokens hSpace after ih =>
      rw [← List.singleton_append, Text.newlines_append, ← Nat.add_assoc] at hMore
      exact .space hSpace (ih hSettled hMore)
  | @token line last d rest tokens lexeme hSpace hRead after ih =>
      obtain ⟨hFirst, hOthers⟩ := List.forall_mem_cons.mp hSettled
      rw [← readLexeme_append hRead, Text.newlines_append, ← Nat.add_assoc] at hMore
      have hLexes := (Lexes.of_readLexeme hRead).append_of_isSettled hFirst hEnds more
      have hNext := Scans.token hSpace hLexes.readLexeme_eq (ih hOthers hMore)
      exact hNext

/-- A name without dots. -/
structure IsIdentifier (name : Text) : Prop where
  start : ∃ c ∈ name.head?, isNameStart c = true
  part : ∀ c ∈ name, isNamePart c = true

namespace IsIdentifier

variable {name : Text} {c : CodePoint}

/-- Identifiers have no dots, slashes or line ends. -/
theorem ne_of_mem (h : IsIdentifier name) (hMem : c ∈ name) : c ≠ '.' ∧ c ≠ '/' ∧ c ≠ '\n' := by
  have hPart := h.part c hMem
  refine ⟨?_, ?_, ?_⟩ <;>
  · rintro rfl
    exact absurd hPart (by decide +kernel)

theorem ne_nil (h : IsIdentifier name) : name ≠ [] := by
  rintro rfl
  obtain ⟨c, hHead, _⟩ := h.start
  cases hHead

end IsIdentifier

/-- A text of letters is one name to its end. -/
theorem nameTail_of_isNamePart {w : Text} (h : ∀ c ∈ w, isNamePart c = true) :
    nameTail w = (w, []) := by
  induction w with
  | nil => rfl
  | cons c w ih =>
      obtain ⟨hPart, hRest⟩ := List.forall_mem_cons.mp h
      have hDot : c ≠ '.' := by
        rintro rfl
        exact absurd hPart (by decide +kernel)
      rw [nameTail_cons_of_ne hDot, if_pos hPart, ih hRest]
      rfl

/-- A known piece of a script: it is on one line, begins with no slash, comments apart, and its
tokens end by themselves. -/
structure IsPiece (cs : Text) (tokens : List Token) : Prop where
  tokenize_eq : tokenize cs = .ok tokens
  first : ∀ t ∈ firstSignificant? tokens, t.text.head? ≠ some (.char '/')
  settled : ∀ t ∈ tokens, isSettled t = true
  line : Text.newlines cs = 0

instance (cs : Text) (tokens : List Token) : Decidable (IsPiece cs tokens) :=
  decidable_of_iff
    (tokenize cs = .ok tokens ∧
      (∀ t ∈ firstSignificant? tokens, t.text.head? ≠ some (.char '/')) ∧
      (∀ t ∈ tokens, isSettled t = true) ∧ Text.newlines cs = 0)
    ⟨fun ⟨h₁, h₂, h₃, h₄⟩ => ⟨h₁, h₂, h₃, h₄⟩, fun ⟨h₁, h₂, h₃, h₄⟩ => ⟨h₁, h₂, h₃, h₄⟩⟩

/-- The text has the given tokens, whatever stands before it on the first line. -/
def ReadsAs (cs : Text) (tokens : List Token) : Prop :=
  ∀ last, Scans 1 last cs tokens

namespace ReadsAs

variable {cs more : Text} {c : CodePoint} {tokens others : List Token}

theorem tokenize_eq (h : ReadsAs cs tokens) : tokenize cs = .ok tokens :=
  (h none).scanFrom_eq

/-- A space before changes nothing. -/
theorem space (h : ReadsAs cs tokens) : ReadsAs (.char ' ' :: cs) tokens :=
  fun last => .space (by decide) (h last)

theorem of_isPiece (h : IsPiece cs tokens) : ReadsAs cs tokens := by
  intro last
  have hShifted := (Scans.of_scanFrom h.tokenize_eq).shift_of_not_slash h.first last 0
  rwa [show shifted 0 = id from rfl, List.map_id] at hShifted

/-- A piece of a script in front of more. -/
theorem append (h : IsPiece cs tokens) (hEnds : EndsWords c) (hMore : ReadsAs (c :: more) others) :
    ReadsAs (cs ++ c :: more) (tokens ++ others) := by
  intro last
  refine (of_isPiece h last).append_of_isSettled h.settled hEnds ?_
  rw [h.line]
  exact hMore _

/-- A string in double quotes, inside of which nothing is escaped. -/
theorem string {key : Text} (hKey : ∀ c ∈ key, c ≠ '"' ∧ c ≠ '\\' ∧ c ≠ '\n')
    (hMore : ReadsAs more others) :
    ReadsAs (.char '"' :: (key ++ .char '"' :: more))
      (⟨.string, .char '"' :: (key ++ [.char '"']), 1⟩ :: others) := by
  intro last
  have hClose : closeString '"' (key ++ .char '"' :: more) =
      some (key ++ [.char '"'], more) := by
    induction key with
    | nil => rw [List.nil_append, closeString_cons_of_ne (by decide), if_pos rfl]; rfl
    | cons c key ih =>
        obtain ⟨⟨hQuote, hEscape, hLine⟩, hRest⟩ := List.forall_mem_cons.mp hKey
        rw [List.cons_append, closeString_cons_of_ne hEscape, if_neg hQuote,
          if_neg fun hEnd => hLine hEnd.1, ih hRest]
        rfl
  have hCount : Text.newlines (.char '"' :: (key ++ [.char '"'])) = 0 := by
    apply List.count_eq_zero.mpr
    intro hMem
    have hIn : .char '\n' ∈ key := by simpa using hMem
    exact (hKey _ hIn).2.2 rfl
  have hLexes : Lexes (regexAllowedAfter last) '"' (key ++ .char '"' :: more) _ :=
    .string rfl hClose
  refine .token (by decide) hLexes.readLexeme_eq ?_
  change Scans (1 + Text.newlines (.char '"' :: (key ++ [.char '"']))) _ more others
  rw [hCount]
  exact hMore _

/-- An identifier before a character that ends words. -/
theorem name {name : Text} (hName : IsIdentifier name) (hEnds : EndsWords c)
    (hMore : ReadsAs (c :: more) others) :
    ReadsAs (name ++ c :: more) (⟨.name, name, 1⟩ :: others) := by
  intro last
  obtain ⟨d, hHead, hStart⟩ := hName.start
  obtain ⟨rest, rfl⟩ := List.head?_eq_some_iff.mp hHead
  have hSpace : Text.isSpace d = false := by
    by_contra hNot
    have hEndsWords := endsWords_of_isSpace (Bool.not_eq_false _ ▸ hNot)
    rw [hEndsWords.nameStart] at hStart
    cases hStart
  have hSlash : d ≠ '/' := by
    rintro rfl
    exact absurd hStart (by decide)
  have hQuote : isQuote d = false := by
    simp only [isQuote, Bool.or_eq_false_iff, beq_eq_false_iff_ne]
    refine ⟨⟨?_, ?_⟩, ?_⟩ <;>
    · rintro rfl
      exact absurd hStart (by decide)
  have hTail : nameTail rest = (rest, []) :=
    nameTail_of_isNamePart fun e hMem => hName.part e (List.mem_cons_of_mem _ hMem)
  have hPlain : plainLexeme d (rest ++ c :: more) = ⟨.name, d :: rest, c :: more⟩ := by
    rw [plainLexeme_endsWords hEnds, plainLexeme, if_pos hStart, hTail]
    rfl
  have hLexes : Lexes (regexAllowedAfter last) d (rest ++ c :: more) _ := .plain hSlash hQuote
  rw [hPlain] at hLexes
  refine .token hSpace hLexes.readLexeme_eq ?_
  have hCount : Text.newlines (d :: rest) = 0 :=
    List.count_eq_zero.mpr fun hMem => (hName.ne_of_mem hMem).2.2 rfl
  change Scans (1 + Text.newlines (d :: rest)) _ (c :: more) others
  rw [hCount]
  exact hMore _

end ReadsAs
end ScriptDoc.Token
