import ScriptDoc.Proofs.Token.BlankLines

/-! Scripts one after the other. A blank line between them keeps their tokens apart: one line feed
may be taken by a backslash at the end of the first script, and then the other one ends the line. Of
the first script the second one sees only whether a regular expression may stand behind it. -/
namespace ScriptDoc.Token

/-- The first token that is no comment. -/
def firstSignificant? (tokens : List Token) : Option Token :=
  tokens.find? fun t => t.kind != .comment

/-- The last token that is no comment. -/
def lastSignificant? (tokens : List Token) : Option Token :=
  (tokens.filter fun t => t.kind != .comment).getLast?

/-- A regular expression may stand behind the token. -/
def AllowsRegex (t : Token) : Prop :=
  (t.kind = .punctuation ∧ ∃ c ∈ regexPreceders, t.text = [c]) ∨
    (t.kind = .name ∧ (t.text = "return" ∨ t.text = "typeof"))

theorem regexAllowedAfter_some {t : Token} (h : AllowsRegex t) :
    regexAllowedAfter (some t) = true := by
  obtain ⟨kind, text, line⟩ := t
  rcases h with ⟨rfl, c, hMem, rfl⟩ | ⟨rfl, rfl | rfl⟩
  · simpa [regexAllowedAfter] using hMem
  · rfl
  · rfl

/-- The token that a scan remembers is the last significant one of those it has read. -/
theorem foldl_significant (last : Option Token) (tokens : List Token) :
    tokens.foldl significant last = (lastSignificant? tokens).or last := by
  induction tokens generalizing last with
  | nil => rfl
  | cons t rest ih =>
      rw [List.foldl_cons, ih]
      by_cases hComment : t.kind = .comment
      · simp [significant, lastSignificant?, hComment]
      · simp [significant, lastSignificant?, hComment, List.getLast?_cons]

/-! The first script. -/

section BlankLine

variable (more : Text)

/-- A slash that began no regular expression begins none when a blank line follows the text. -/
theorem closeRegex_blankLine_eq_none {inClass : Bool} {w : Text}
    (h : closeRegex inClass w = none) :
    closeRegex inClass (w ++ .char '\n' :: .char '\n' :: more) = none := by
  fun_induction closeRegex inClass w with
  | case1 inClass => exact closeRegex_newline _ _
  | case2 inClass d rest ih =>
      simp only [List.cons_append, closeRegex, Option.map_eq_none_iff] at h ⊢
      exact ih h
  | case3 inClass d rest hAlone hEnd =>
      rcases hEnd with rfl | rfl
      · exact closeRegex_newline _ _
      · -- A backslash at the very end takes the first line feed with it.
        cases rest with
        | nil => simp [closeRegex, closeRegex_newline]
        | cons e others => exact absurd rfl (hAlone e others rfl)
  | case4 inClass rest _ _ ih =>
      rw [Option.map_eq_none_iff] at h
      rw [List.cons_append, closeRegex_cons_of_ne (by decide), if_neg (by decide), if_pos rfl, ih h]
      rfl
  | case5 inClass rest _ _ _ ih =>
      rw [Option.map_eq_none_iff] at h
      rw [List.cons_append, closeRegex_cons_of_ne (by decide), if_neg (by decide),
        if_neg (by decide), if_pos rfl, ih h]
      rfl
  | case6 => cases h
  | case7 inClass d rest _ hEnd hOpen hClose hSlash ih =>
      obtain ⟨hNotEnd, hNotEscape⟩ := not_or.mp hEnd
      rw [Option.map_eq_none_iff] at h
      rw [List.cons_append, closeRegex_cons_of_ne hNotEscape, if_neg hNotEnd, if_neg hOpen,
        if_neg hClose, if_neg hSlash, ih h]
      rfl

/-- What is closed stays so, whatever is added. -/
theorem IsClosed.append_right {read : Text → Option Cut} (h : IsClosed read) {cs : Text} {cut : Cut}
    (hRead : read cs = some cut) : read (cs ++ more) = some (cut.followedBy more) := by
  have hAlone := h.alone hRead (cut.2 ++ more)
  rwa [← List.append_assoc, h.append hRead] at hAlone

/-- A blank line keeps a slash from reading on, even if it has found no end so far. -/
theorem slashLexeme_blankLine (regexAllowed : Bool) (w : Text) :
    slashLexeme regexAllowed (w ++ .char '\n' :: .char '\n' :: more) =
      (slashLexeme regexAllowed w).followedBy (.char '\n' :: .char '\n' :: more) := by
  by_cases hNone : regexAllowed = true → closeRegex false w = none
  · rw [slashLexeme_of_none hNone, slashLexeme_of_none]
    · rfl
    · intro hAllowed
      exact closeRegex_blankLine_eq_none more (hNone hAllowed)
  · obtain ⟨rfl, hSome⟩ := Classical.not_imp.mp hNone
    obtain ⟨body, hBody⟩ := Option.ne_none_iff_exists'.mp hSome
    have hFlags := spanWhile_append_of_stop (p := Text.isWord) (c := '\n') (by decide +kernel)
      body.2 (.char '\n' :: more)
    rw [slashLexeme_of_some hBody rfl,
      slashLexeme_of_some ((closeRegex_isClosed false).append_right _ hBody) hFlags]
    rfl

/-- A lexeme of a text is also one of the text with a blank line and more behind it. -/
theorem Lexes.blankLine {regexAllowed : Bool} {c : CodePoint} {w : Text} {lexeme : Lexeme}
    (h : Lexes regexAllowed c w lexeme) :
    Lexes regexAllowed c (w ++ .char '\n' :: .char '\n' :: more)
      (lexeme.followedBy (.char '\n' :: .char '\n' :: more)) := by
  cases h with
  | block hClose => exact .block (closeComment_isClosed.append_right _ hClose)
  | line rest =>
      have hLine : Lexes regexAllowed '/'
          (.char '/' :: (rest ++ .char '\n' :: .char '\n' :: more)) _ := .line _
      rw [← List.cons_append, spanWhile_append_of_stop (by decide)] at hLine
      exact hLine
  | slash hBlock hLine =>
      rw [← slashLexeme_blankLine]
      cases w with
      | nil => exact .slash (by simp) (by simp)
      | cons d rest => exact .slash hBlock hLine
  | string hQuote hClose =>
      exact .string hQuote ((closeString_isClosed _).append_right _ hClose)
  | plain hSlash hQuote =>
      have hEnds : EndsWords '\n' := by decide +kernel
      rw [← plainLexeme_endsWords hEnds]
      exact .plain hSlash hQuote

/-- A scan of a text goes on behind it, over a blank line, with the token that it remembers. -/
theorem Scans.append {line : Nat} {last : Option Token} {cs : Text} {tokens others : List Token}
    (h : Scans line last cs tokens)
    (hMore : Scans (line + Text.newlines cs + 2) (tokens.foldl significant last) more others) :
    Scans line last (cs ++ .char '\n' :: .char '\n' :: more) (tokens ++ others) := by
  induction h with
  | done line last => exact .space (by decide) (.space (by decide) hMore)
  | @space line last c rest tokens hSpace after ih =>
      rw [← List.singleton_append, Text.newlines_append, ← Nat.add_assoc] at hMore
      exact .space hSpace (ih hMore)
  | @token line last c rest tokens lexeme hSpace hRead after ih =>
      rw [← readLexeme_append hRead, Text.newlines_append, ← Nat.add_assoc] at hMore
      have hLexes := (Lexes.of_readLexeme hRead).blankLine more
      have hNext := Scans.token hSpace hLexes.readLexeme_eq (ih hMore)
      exact hNext

end BlankLine

/-! The second script. -/

/-- Only a slash that begins no comment is read by what stands before it. -/
theorem Lexes.of_not_slash {regexAllowed : Bool} {c : CodePoint} {rest : Text} {lexeme : Lexeme}
    (h : Lexes regexAllowed c rest lexeme)
    (hNot : lexeme.kind = .comment ∨ lexeme.text.head? ≠ some (.char '/')) (other : Bool) :
    Lexes other c rest lexeme := by
  cases h with
  | block hClose => exact .block hClose
  | line rest => exact .line rest
  | slash hBlock hLine =>
      have hHead : (slashLexeme regexAllowed rest).text.head? = some (.char '/') := by
        unfold slashLexeme
        split <;> simp [Cut.lexeme, Cut.extend, Cut.cons]
      exact absurd hHead (hNot.resolve_left (slashLexeme_kind_ne _ _).1)
  | string hQuote hClose => exact .string hQuote hClose
  | plain hSlash hQuote => exact .plain hSlash hQuote

/-- A scan whose first significant token begins with no slash does not depend on the token before
it. -/
theorem Scans.shift_of_not_slash {line : Nat} {last : Option Token} {cs : Text}
    {tokens : List Token} (h : Scans line last cs tokens)
    (hFirst : ∀ t, firstSignificant? tokens = some t → t.text.head? ≠ some (.char '/'))
    (other : Option Token) (n : Nat) :
    Scans (line + n) other cs (tokens.map (shifted n)) := by
  induction h generalizing other with
  | done line last => exact .done _ _
  | space hSpace after ih =>
      have hAfter := ih hFirst other
      rw [Nat.add_right_comm] at hAfter
      exact .space hSpace hAfter
  | @token line last c rest tokens lexeme hSpace hRead after ih =>
      by_cases hComment : lexeme.kind = .comment
      · have hLexes := (Lexes.of_readLexeme hRead).of_not_slash (.inl hComment)
          (regexAllowedAfter other)
        have hAfter := ih (by simpa [firstSignificant?, hComment] using hFirst) other
        rw [Nat.add_right_comm] at hAfter
        refine .token hSpace hLexes.readLexeme_eq ?_
        simpa [significant, hComment] using hAfter
      · have hHead : lexeme.text.head? ≠ some (.char '/') := by
          apply hFirst ⟨lexeme.kind, lexeme.text, line⟩
          simp [firstSignificant?, hComment]
        have hLexes := (Lexes.of_readLexeme hRead).of_not_slash (.inr hHead)
          (regexAllowedAfter other)
        -- From here on both scans remember the same token, on different lines.
        have hSame : regexAllowedAfter (significant other ⟨lexeme.kind, lexeme.text, line + n⟩) =
            regexAllowedAfter (significant last ⟨lexeme.kind, lexeme.text, line⟩) := by
          simp only [significant, hComment, ↓reduceIte]
          rfl
        have hAfter := after.shift hSame n
        rw [Nat.add_right_comm] at hAfter
        exact .token hSpace hLexes.readLexeme_eq hAfter

/-- Scripts can be read one by one or behind each other. If the second script does not begin with a
slash, comments apart, or a regular expression may stand behind the first one, then both scripts
with a blank line between them have the tokens of the first and then those of the second, as many
lines further down as there are line feeds before it. -/
theorem tokenize_append (first second : Text) (tokens others : List Token)
    (hFirst : tokenize first = .ok tokens) (hSecond : tokenize second = .ok others)
    (hSeam : (∀ t, firstSignificant? others = some t → t.text.head? ≠ some (.char '/')) ∨
      lastSignificant? tokens = none ∨
      ∃ t, lastSignificant? tokens = some t ∧ AllowsRegex t) :
    tokenize (first ++ "\n\n" ++ second) =
      .ok (tokens ++ others.map (shifted (Text.newlines first + 2))) := by
  have hScans : Scans 1 none second others := Scans.of_scanFrom hSecond
  have hLast : tokens.foldl significant none = lastSignificant? tokens := by
    rw [foldl_significant, Option.or_none]
  have hBehind : Scans (1 + (Text.newlines first + 2)) (tokens.foldl significant none) second
      (others.map (shifted (Text.newlines first + 2))) := by
    rw [hLast]
    rcases hSeam with hNoSlash | hNone | ⟨t, hSome, hAllows⟩
    · exact hScans.shift_of_not_slash hNoSlash _ _
    · rw [hNone]
      exact hScans.shift rfl _
    · rw [hSome]
      exact hScans.shift (regexAllowedAfter_some hAllows) _
  rw [← Nat.add_assoc] at hBehind
  rw [List.append_assoc]
  exact ((Scans.of_scanFrom hFirst).append second hBehind).scanFrom_eq

/-- Two seams: a regular expression that begins a script, comments apart, behind a sign that allows
it, and a backslash that ends a script inside of what could have been a regular expression. -/
theorem tokenize_append_pattern :
    tokenize "x = /a\\" = .ok [⟨.name, "x", 1⟩, ⟨.punctuation, "=", 1⟩, ⟨.punctuation, "/", 1⟩,
        ⟨.name, "a", 1⟩, ⟨.punctuation, "\\", 1⟩] ∧
      tokenize "y = // end\n" =
        .ok [⟨.name, "y", 1⟩, ⟨.punctuation, "=", 1⟩, ⟨.comment, "// end", 1⟩] ∧
      tokenize "// c\n/b/g" = .ok [⟨.comment, "// c", 1⟩, ⟨.regex, "/b/g", 2⟩] ∧
      tokenize ("y = // end\n" ++ "\n\n" ++ "// c\n/b/g") =
        .ok [⟨.name, "y", 1⟩, ⟨.punctuation, "=", 1⟩, ⟨.comment, "// end", 1⟩,
          ⟨.comment, "// c", 4⟩, ⟨.regex, "/b/g", 5⟩] ∧
      tokenize ("x = /a\\" ++ "\n\n" ++ "y = // end\n") =
        .ok [⟨.name, "x", 1⟩, ⟨.punctuation, "=", 1⟩, ⟨.punctuation, "/", 1⟩, ⟨.name, "a", 1⟩,
          ⟨.punctuation, "\\", 1⟩, ⟨.name, "y", 3⟩, ⟨.punctuation, "=", 3⟩,
          ⟨.comment, "// end", 3⟩] := by
  have hOpen : tokenize "x = /a\\" = .ok [⟨.name, "x", 1⟩, ⟨.punctuation, "=", 1⟩,
      ⟨.punctuation, "/", 1⟩, ⟨.name, "a", 1⟩, ⟨.punctuation, "\\", 1⟩] := by decide +kernel
  have hAssign : tokenize "y = // end\n" =
      .ok [⟨.name, "y", 1⟩, ⟨.punctuation, "=", 1⟩, ⟨.comment, "// end", 1⟩] := by decide +kernel
  have hRegex : tokenize "// c\n/b/g" = .ok [⟨.comment, "// c", 1⟩, ⟨.regex, "/b/g", 2⟩] := by
    decide +kernel
  refine ⟨hOpen, hAssign, hRegex, ?_, ?_⟩
  · refine tokenize_append _ _ _ _ hAssign hRegex (.inr (.inr ⟨⟨.punctuation, "=", 1⟩, rfl, ?_⟩))
    exact .inl ⟨rfl, '=', by decide, rfl⟩
  · refine tokenize_append _ _ _ _ hOpen hAssign (.inl ?_)
    rintro t hFound
    cases hFound
    decide

end ScriptDoc.Token
