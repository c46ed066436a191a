import Mathlib.Data.List.TakeWhile
import ScriptDoc.Proofs.Text.Lines
import ScriptDoc.Proofs.Token.Placement

/-! How far the reader of a lexeme looks. Names and numbers end before a character that neither goes
on with, whatever comes after it. Comments, strings and regular expressions end at their own mark.
Only a slash that begins none of these may have been followed to the end of its line. -/
namespace ScriptDoc

namespace Token

/-- Neither a name nor a number goes on with the character. -/
structure EndsWords (c : CodePoint) : Prop where
  nameStart : isNameStart c = false
  namePart : isNamePart c = false
  decimal : Text.isDecimal c = false
  hexDigit : isHexDigit c = false
  dot : c ≠ '.'
  plus : c ≠ '+'
  minus : c ≠ '-'

/-- The characters that end words are those which no name and no number goes on with. -/
theorem endsWords_iff {c : CodePoint} :
    EndsWords c ↔ isNameStart c = false ∧ isNamePart c = false ∧ Text.isDecimal c = false ∧
      isHexDigit c = false ∧ c ≠ '.' ∧ c ≠ '+' ∧ c ≠ '-' :=
  ⟨fun ⟨h₁, h₂, h₃, h₄, h₅, h₆, h₇⟩ => ⟨h₁, h₂, h₃, h₄, h₅, h₆, h₇⟩,
    fun ⟨h₁, h₂, h₃, h₄, h₅, h₆, h₇⟩ => ⟨h₁, h₂, h₃, h₄, h₅, h₆, h₇⟩⟩

instance (c : CodePoint) : Decidable (EndsWords c) :=
  decidable_of_iff _ endsWords_iff.symm

/-- White space ends words. -/
theorem endsWords_of_isSpace {c : CodePoint} (h : Text.isSpace c = true) : EndsWords c :=
  Text.forall_isSpace (by decide +kernel) h

/-- White space begins no comment, and escapes nothing. -/
theorem ne_of_isSpace {c : CodePoint} (h : Text.isSpace c = true) :
    c ≠ '/' ∧ c ≠ '*' ∧ c ≠ '\\' :=
  Text.forall_isSpace (P := fun c => c ≠ '/' ∧ c ≠ '*' ∧ c ≠ '\\') (by decide +kernel) h

/-- The same characters taken, with more behind those that are left. -/
def Cut.followedBy (cut : Cut) (more : Text) : Cut :=
  (cut.1, cut.2 ++ more)

theorem Cut.cons_followedBy (c : CodePoint) (cut : Cut) (more : Text) :
    (cut.cons c).followedBy more = (cut.followedBy more).cons c := rfl

/-- A run ends at the latest where a character is not accepted. -/
theorem spanWhile_append_of_stop {p : CodePoint → Bool} {c : CodePoint} (h : p c = false)
    (w tail : Text) : spanWhile p (w ++ c :: tail) = (spanWhile p w).followedBy (c :: tail) := by
  induction w with
  | nil => simp [spanWhile, Cut.followedBy, h]
  | cons d w ih =>
      simp only [spanWhile, Cut.followedBy, Prod.mk.injEq] at ih
      by_cases hGoes : p d = true
      · simp [spanWhile, Cut.followedBy, hGoes, ih]
      · simp [spanWhile, Cut.followedBy, hGoes]

/-- What follows an extension makes no difference to it if it makes none to the part. -/
theorem Cut.extend_followedBy (cut : Cut) {part : Text → Option Cut} {more : Text}
    (h : part (cut.2 ++ more) = (part cut.2).map (·.followedBy more)) :
    (cut.followedBy more).extend part = (cut.extend part).followedBy more := by
  unfold Cut.extend
  rw [show (cut.followedBy more).2 = cut.2 ++ more from rfl, h]
  cases part cut.2 with
  | none => rfl
  | some found => rfl

/-- The same lexeme, with more text behind it. -/
def Lexeme.followedBy (lexeme : Lexeme) (more : Text) : Lexeme :=
  { lexeme with rest := lexeme.rest ++ more }

theorem nameTail_cons_of_ne {c : CodePoint} (h : c ≠ '.') (rest : Text) :
    nameTail (c :: rest) = if isNamePart c then (nameTail rest).cons c else ([], c :: rest) :=
  nameTail.eq_2 c rest fun _ _ hDot _ => h hDot

section Words

variable {c : CodePoint} (h : EndsWords c) (w tail : Text)

include h

/-- A name that ends at this character depends on nothing behind it. -/
theorem nameTail_endsWords :
    nameTail (w ++ c :: tail) = (nameTail w).followedBy (c :: tail) := by
  fun_induction nameTail w with
  | case1 d rest hStart ih => simp [nameTail, hStart, ih, Cut.cons_followedBy]
  | case2 d rest hStart => simp [nameTail, hStart, Cut.followedBy]
  | case3 d rest _ hPart ih =>
      have hDot : d ≠ '.' := by
        rintro rfl
        exact absurd hPart (by decide +kernel)
      rw [List.cons_append, nameTail_cons_of_ne hDot, if_pos hPart, ih, Cut.cons_followedBy]
  | case4 d rest hLone hPart =>
      by_cases hDot : d = '.'
      · -- A dot at the very end: the character behind it begins no identifier.
        cases rest with
        | nil => simp [hDot, nameTail, h.nameStart, Cut.followedBy]
        | cons e others => exact absurd rfl (hLone e others hDot)
      · rw [List.cons_append, nameTail_cons_of_ne hDot, if_neg hPart]
        rfl
  | case5 => simp [nameTail_cons_of_ne h.dot, h.namePart, Cut.followedBy]

theorem fraction?_endsWords :
    fraction? (w ++ c :: tail) = (fraction? w).map (·.followedBy (c :: tail)) := by
  match w with
  | [] =>
    simp [fraction?, h.dot]
  | [d] =>
    by_cases hDot : d = '.'
    · simp [fraction?, hDot, h.decimal]
    · simp [fraction?, hDot]
  | d :: e :: rest =>
    by_cases hDot : d = '.'
    · by_cases hDigit : Text.isDecimal e = true
      · have hSpan := spanWhile_append_of_stop h.decimal (e :: rest) tail
        simp only [List.cons_append] at hSpan
        simp [fraction?, hDot, hDigit, hSpan, Cut.cons_followedBy]
      · simp [fraction?, hDot, hDigit]
    · simp [fraction?, hDot]

theorem hexNumber?_endsWords :
    hexNumber? (w ++ c :: tail) = (hexNumber? w).map (·.followedBy (c :: tail)) := by
  have hZero : c ≠ '0' := by
    rintro rfl
    exact absurd h.decimal (by decide)
  have hMark : ¬ (c = 'x' ∨ c = 'X') := by
    rintro (rfl | rfl) <;> exact absurd h.nameStart (by decide)
  match w with
  | [] => simp [hexNumber?, hZero]
  | [d] =>
    by_cases hFirst : d = '0'
    · cases tail <;> simp [hexNumber?, hFirst, hMark]
    · simp [hexNumber?, hFirst]
  | [d, x] =>
    by_cases hFirst : d = '0'
    · simp [hexNumber?, hFirst, h.hexDigit]
    · simp [hexNumber?, hFirst]
  | d :: x :: e :: rest =>
    by_cases hFirst : d = '0'
    · have hSpan := spanWhile_append_of_stop h.hexDigit (e :: rest) tail
      simp only [List.cons_append] at hSpan
      by_cases hHex : (x = 'x' ∨ x = 'X') ∧ isHexDigit e = true
      · simp [hexNumber?, hFirst, hHex, hSpan, Cut.cons_followedBy]
      · simp [hexNumber?, hFirst, hHex]
    · simp [hexNumber?, hFirst]

theorem exponent?_endsWords :
    exponent? (w ++ c :: tail) = (exponent? w).map (·.followedBy (c :: tail)) := by
  have hMark : ¬ (c = 'e' ∨ c = 'E') := by
    rintro (rfl | rfl) <;> exact absurd h.nameStart (by decide)
  match w with
  | [] =>
    match tail with
    | [] => simp [exponent?]
    | [_] => simp [exponent?, hMark]
    | _ :: _ :: _ => simp [exponent?, hMark]
  | [d] => cases tail <;> simp [exponent?, h.decimal, h.plus, h.minus]
  | [d, s] =>
    by_cases hExponent : d = 'e' ∨ d = 'E'
    · by_cases hDigit : Text.isDecimal s = true
      · simp [exponent?, hExponent, hDigit, Cut.followedBy, Cut.cons, spanWhile, h.decimal]
      · simp [exponent?, hExponent, hDigit, h.decimal]
    · simp [exponent?, hExponent]
  | d :: s :: e :: rest =>
    have hSpan := spanWhile_append_of_stop h.decimal (s :: e :: rest) tail
    have hSigned := spanWhile_append_of_stop h.decimal (e :: rest) tail
    simp only [List.cons_append] at hSpan hSigned
    simp only [List.cons_append, exponent?]
    split
    · split
      · rw [hSpan]
        rfl
      · split
        · rw [hSigned]
          rfl
        · rfl
    · rfl

/-- A number that ends at this character depends on nothing behind it. -/
theorem number?_endsWords :
    number? (w ++ c :: tail) = (number? w).map (·.followedBy (c :: tail)) := by
  unfold number?
  rw [hexNumber?_endsWords h]
  cases hexNumber? w with
  | some cut => rfl
  | none =>
      rw [spanWhile_append_of_stop h.decimal, fraction?_endsWords h]
      obtain ⟨digits, rest⟩ := spanWhile Text.isDecimal w
      cases digits with
      | nil => rfl
      | cons digit digits =>
          have hFraction := Cut.extend_followedBy (digit :: digits, rest)
            (fraction?_endsWords h rest tail)
          have hExponent := Cut.extend_followedBy (Cut.extend (digit :: digits, rest) fraction?)
            (exponent?_endsWords h _ tail)
          simp only [Option.map_none, Option.map_some]
          rw [← hExponent, ← hFraction]
          rfl

/-- A name, a number or a piece of punctuation before a character that ends words does not depend on
what comes after that character. -/
theorem plainLexeme_endsWords (d : CodePoint) :
    plainLexeme d (w ++ c :: tail) = (plainLexeme d w).followedBy (c :: tail) := by
  unfold plainLexeme
  split
  · rw [nameTail_endsWords h]
    rfl
  · rw [← List.cons_append, number?_endsWords h]
    cases number? (d :: w) with
    | none => rfl
    | some cut => rfl

end Words

/-- A reader that ends at its own mark and never looks at what it leaves. -/
structure IsClosed (read : Text → Option Cut) : Prop where
  append : ∀ {cs : Text} {cut : Cut}, read cs = some cut → cut.1 ++ cut.2 = cs
  alone : ∀ {cs : Text} {cut : Cut}, read cs = some cut →
    ∀ rest, read (cut.1 ++ rest) = some (cut.1, rest)

/-- What stands behind the mark can be replaced. -/
theorem IsClosed.replace {read : Text → Option Cut} (h : IsClosed read) {w old taken left : Text}
    (hRead : read (w ++ old) = some (taken, left ++ old)) (new : Text) :
    read (w ++ new) = some (taken, left ++ new) := by
  have hAppend : taken ++ (left ++ old) = w ++ old := h.append hRead
  have hBefore : taken ++ left = w := by
    rw [← List.append_assoc] at hAppend
    exact List.append_cancel_right hAppend
  rw [← hBefore, List.append_assoc]
  exact h.alone hRead (left ++ new)

theorem closeComment_ne_nil {cs : Text} {cut : Cut} (h : closeComment cs = some cut) :
    cut.1 ≠ [] := by
  fun_induction closeComment cs generalizing cut with
  | case1 => cases h
  | case2 rest =>
      cases h
      exact List.cons_ne_nil _ _
  | case3 c rest _ ih =>
      obtain ⟨inner, _, rfl⟩ := Option.map_eq_some_iff.mp h
      exact List.cons_ne_nil _ _

theorem closeComment_isClosed : IsClosed closeComment where
  append := closeComment_append
  alone := by
    intro cs cut h rest
    fun_induction closeComment cs generalizing cut with
    | case1 => cases h
    | case2 => cases h; rfl
    | case3 c others hNotEnd ih =>
        obtain ⟨inner, hInner, rfl⟩ := Option.map_eq_some_iff.mp h
        obtain ⟨d, taken, hTaken⟩ := List.exists_cons_of_ne_nil (closeComment_ne_nil hInner)
        have hOthers : d :: (taken ++ inner.2) = others := by
          rw [← closeComment_append hInner, hTaken, List.cons_append]
        -- The star and the slash that would end the comment here stood there before.
        have hSame : ∀ more, c = '*' → d :: taken ++ rest = .char '/' :: more → False := by
          rintro more rfl hMore
          cases hMore
          exact hNotEnd _ rfl hOthers.symm
        have hRest := ih hInner
        rw [hTaken] at hRest
        simp only [Cut.cons, hTaken, List.cons_append] at hSame ⊢
        rw [closeComment.eq_3 _ _ hSame]
        rw [← List.cons_append, hRest]
        rfl

theorem closeString_cons_of_ne {quote c : CodePoint} (h : c ≠ '\\') (rest : Text) :
    closeString quote (c :: rest) =
      if c = quote then some ([c], rest)
      else if c = '\n' ∧ quote ≠ '`' then none
      else (closeString quote rest).map (Cut.cons c) := by
  rw [closeString.eq_3 _ _ _ fun _ _ hEscape _ => h hEscape, if_neg h]

theorem closeString_isClosed (quote : CodePoint) : IsClosed (closeString quote) where
  append := closeString_append
  alone := by
    intro cs cut h rest
    fun_induction closeString quote cs generalizing cut with
    | case1 => cases h
    | case2 c others ih =>
        obtain ⟨inner, hInner, rfl⟩ := Option.map_eq_some_iff.mp h
        simp [Cut.cons, closeString, ih hInner]
    | case3 => cases h
    | case4 others hNotEscape hQuote =>
        cases h
        simp [closeString_cons_of_ne hQuote]
    | case5 => cases h
    | case6 c others _ hNotEscape hNotQuote hNotEnd ih =>
        obtain ⟨inner, hInner, rfl⟩ := Option.map_eq_some_iff.mp h
        simp only [Cut.cons, List.cons_append]
        rw [closeString_cons_of_ne hNotEscape, if_neg hNotQuote, if_neg hNotEnd, ih hInner]
        rfl

theorem closeRegex_cons_of_ne {c : CodePoint} (h : c ≠ '\\') (inClass : Bool) (rest : Text) :
    closeRegex inClass (c :: rest) =
      if c = '\n' then none
      else if c = '[' then (closeRegex true rest).map (Cut.cons c)
      else if c = ']' then (closeRegex false rest).map (Cut.cons c)
      else if c = '/' ∧ inClass = false then some ([c], rest)
      else (closeRegex inClass rest).map (Cut.cons c) := by
  rw [closeRegex.eq_3 _ _ _ fun _ _ hEscape _ => h hEscape]
  simp only [h, or_false]

/-- A regular expression does not go on after its line. -/
theorem closeRegex_newline (inClass : Bool) (rest : Text) :
    closeRegex inClass (.char '\n' :: rest) = none := by
  rw [closeRegex_cons_of_ne (by decide), if_pos rfl]

theorem closeRegex_isClosed (inClass : Bool) : IsClosed (closeRegex inClass) where
  append := closeRegex_append
  alone := by
    intro cs cut h rest
    fun_induction closeRegex inClass cs generalizing cut with
    | case1 => cases h
    | case2 inClass c others ih =>
        obtain ⟨inner, hInner, rfl⟩ := Option.map_eq_some_iff.mp h
        simp [Cut.cons, closeRegex, ih hInner]
    | case3 => cases h
    | case4 inClass others _ hEnd ih =>
        obtain ⟨inner, hInner, rfl⟩ := Option.map_eq_some_iff.mp h
        simp [Cut.cons, closeRegex, ih hInner]
    | case5 inClass others _ _ _ ih =>
        obtain ⟨inner, hInner, rfl⟩ := Option.map_eq_some_iff.mp h
        simp [Cut.cons, closeRegex, ih hInner]
    | case6 inClass c others _ _ _ _ hSlash =>
        cases h
        simp [closeRegex, hSlash]
    | case7 inClass c others _ hEnd hOpen hClose hSlash ih =>
        obtain ⟨inner, hInner, rfl⟩ := Option.map_eq_some_iff.mp h
        obtain ⟨hNotEnd, hNotEscape⟩ := not_or.mp hEnd
        simp only [Cut.cons, List.cons_append]
        rw [closeRegex_cons_of_ne hNotEscape, if_neg hNotEnd, if_neg hOpen, if_neg hClose,
          if_neg hSlash, ih hInner]
        rfl

/-- A slash that began no regular expression begins none when a line ends earlier, behind a
character that is no backslash. Either the search stopped before, or it now stops there. -/
theorem closeRegex_newline_eq_none {c : CodePoint} (hEscape : c ≠ '\\') {inClass : Bool}
    {w tail : Text} (h : closeRegex inClass (w ++ c :: tail) = none) :
    closeRegex inClass (w ++ c :: .char '\n' :: tail) = none := by
  fun_induction closeRegex inClass w with
  | case1 inClass =>
      rw [List.nil_append, closeRegex_cons_of_ne hEscape] at h ⊢
      by_cases hSlash : c = '/' ∧ inClass = false
      · obtain ⟨rfl, rfl⟩ := hSlash
        cases h
      · simp [closeRegex_newline, hSlash]
  | case2 inClass d rest ih =>
      simp only [List.cons_append, closeRegex, Option.map_eq_none_iff] at h ⊢
      exact ih h
  | case3 inClass d rest hAlone hEnd =>
      rcases hEnd with rfl | rfl
      · exact closeRegex_cons_of_ne (by decide) inClass _
      · -- A backslash at the very end takes the character before the new line with it.
        cases rest with
        | nil => simp [closeRegex, closeRegex_newline]
        | cons e others => exact absurd rfl (hAlone e others rfl)
  | case4 inClass rest _ _ ih =>
      rw [List.cons_append, closeRegex_cons_of_ne (by decide), if_neg (by decide), if_pos rfl,
        Option.map_eq_none_iff] at h ⊢
      exact ih h
  | case5 inClass rest _ _ _ ih =>
      rw [List.cons_append, closeRegex_cons_of_ne (by decide), if_neg (by decide),
        if_neg (by decide), if_pos rfl, Option.map_eq_none_iff] at h ⊢
      exact ih h
  | case6 inClass d rest _ _ _ _ hSlash =>
      obtain ⟨rfl, rfl⟩ := hSlash
      cases h
  | case7 inClass d rest _ hEnd hOpen hClose hSlash ih =>
      obtain ⟨hNotEnd, hNotEscape⟩ := not_or.mp hEnd
      rw [List.cons_append, closeRegex_cons_of_ne hNotEscape, if_neg hNotEnd, if_neg hOpen,
        if_neg hClose, if_neg hSlash, Option.map_eq_none_iff] at h ⊢
      exact ih h

/-- What stands behind the stop can be replaced. -/
theorem spanWhile_replace {p : CodePoint → Bool} {c : CodePoint} {w old taken left : Text}
    (h : spanWhile p (w ++ c :: old) = (taken, left ++ c :: old)) (new : Text) :
    spanWhile p (w ++ c :: new) = (taken, left ++ c :: new) := by
  have hAppend : taken ++ (left ++ c :: old) = w ++ c :: old := by
    rw [← spanWhile_append p (w ++ c :: old), h]
  have hBefore : taken ++ left = w := by
    rw [← List.append_assoc] at hAppend
    exact List.append_cancel_right hAppend
  obtain ⟨hTaken, hLeft⟩ := Prod.mk.inj h
  have hGoes : ∀ d ∈ taken, p d = true := by
    intro d hMem
    rw [← hTaken] at hMem
    exact List.mem_takeWhile_imp hMem
  -- The first character left is there in both texts.
  obtain ⟨d, others, hSplit⟩ : ∃ d others, left ++ [c] = d :: others := by
    cases left with
    | nil => exact ⟨c, [], rfl⟩
    | cons d others => exact ⟨d, others ++ [c], rfl⟩
  have hStop : p d = false := by
    have hHead := List.head?_dropWhile_not p (w ++ c :: old)
    rw [hLeft, List.append_cons, hSplit] at hHead
    simpa using hHead
  rw [← hBefore, List.append_assoc, List.append_cons left, hSplit, List.cons_append,
    spanWhile_append_of_stop hStop]
  simp [spanWhile, Cut.followedBy, List.takeWhile_eq_self_iff.mpr hGoes,
    List.dropWhile_eq_nil_iff.mpr hGoes]

/-- The ways in which a lexeme is read. -/
inductive Lexes (regexAllowed : Bool) : CodePoint → Text → Lexeme → Prop
  | block {rest : Text} {cut : Cut} (hClose : closeComment rest = some cut) :
      Lexes regexAllowed '/' (.char '*' :: rest) (Cut.lexeme .comment ((cut.cons '*').cons '/'))
  | line (rest : Text) :
      Lexes regexAllowed '/' (.char '/' :: rest)
        (Cut.lexeme .comment ((spanWhile (· != .char '\n') (.char '/' :: rest)).cons '/'))
  | slash {rest : Text} (hBlock : rest.head? ≠ some (.char '*')) (hLine : rest.head? ≠ some (.char '/')) :
      Lexes regexAllowed '/' rest (slashLexeme regexAllowed rest)
  | string {quote : CodePoint} {rest : Text} {cut : Cut} (hQuote : isQuote quote = true)
      (hClose : closeString quote rest = some cut) :
      Lexes regexAllowed quote rest (Cut.lexeme .string (cut.cons quote))
  | plain {c : CodePoint} {rest : Text} (hSlash : c ≠ '/') (hQuote : isQuote c = false) :
      Lexes regexAllowed c rest (plainLexeme c rest)

/-- Whatever is read is read in one of the ways listed. -/
theorem Lexes.of_readLexeme {regexAllowed : Bool} {c : CodePoint} {rest : Text} {lexeme : Lexeme}
    (h : readLexeme regexAllowed c rest = .ok lexeme) : Lexes regexAllowed c rest lexeme := by
  unfold readLexeme closed at h
  split at h
  · next hSlash =>
      subst hSlash
      split at h
      · next rest =>
          split at h
          · next cut hCut =>
              obtain ⟨inner, hInner, rfl⟩ := Option.map_eq_some_iff.mp hCut
              cases h
              exact .block hInner
          · cases h
      · next rest =>
          cases h
          exact .line rest
      · next rest hNotBlock hNotLine =>
          cases h
          refine .slash ?_ ?_
          · intro hHead
            obtain ⟨more, rfl⟩ := List.head?_eq_some_iff.mp hHead
            exact hNotBlock more rfl
          · intro hHead
            obtain ⟨more, rfl⟩ := List.head?_eq_some_iff.mp hHead
            exact hNotLine more rfl
  · next hSlash =>
      split at h
      · next hQuote =>
          split at h
          · next cut hCut =>
              obtain ⟨inner, hInner, rfl⟩ := Option.map_eq_some_iff.mp hCut
              cases h
              exact .string hQuote hInner
          · cases h
      · next hQuote =>
          cases h
          exact .plain hSlash (Bool.eq_false_iff.mpr hQuote)

/-- Each of the ways listed is how the lexeme is read. -/
theorem Lexes.readLexeme_eq {regexAllowed : Bool} {c : CodePoint} {rest : Text} {lexeme : Lexeme}
    (h : Lexes regexAllowed c rest lexeme) : readLexeme regexAllowed c rest = .ok lexeme := by
  cases h with
  | block hClose => simp [readLexeme, closed, hClose]
  | line rest => simp [readLexeme]
  | slash hBlock hLine =>
      unfold readLexeme
      rw [if_pos rfl]
      split
      · exact absurd rfl hBlock
      · exact absurd rfl hLine
      · rfl
  | string hQuote hClose =>
      have hSlash : c ≠ '/' := by
        rintro rfl
        cases hQuote
      simp [readLexeme, closed, hSlash, hQuote, hClose]
  | plain hSlash hQuote => simp [readLexeme, hSlash, hQuote]

/-- A slash that is read by itself gives no comment and no string. -/
theorem slashLexeme_kind_ne (regexAllowed : Bool) (rest : Text) :
    (slashLexeme regexAllowed rest).kind ≠ .comment ∧
      (slashLexeme regexAllowed rest).kind ≠ .string := by
  unfold slashLexeme
  split <;> simp [Cut.lexeme]

/-- Without an end a slash is a token by itself. -/
theorem slashLexeme_of_none {regexAllowed : Bool} {rest : Text}
    (h : regexAllowed = true → closeRegex false rest = none) :
    slashLexeme regexAllowed rest = ⟨.punctuation, ['/'], rest⟩ := by
  unfold slashLexeme
  cases regexAllowed with
  | false => rfl
  | true => rw [if_pos rfl, h rfl]

/-- With an end it is a regular expression, together with its flags. -/
theorem slashLexeme_of_some {rest : Text} {body flags : Cut} (h : closeRegex false rest = some body)
    (hFlags : spanWhile Text.isWord body.2 = flags) :
    slashLexeme true rest = ⟨.regex, .char '/' :: body.1 ++ flags.1, flags.2⟩ := by
  unfold slashLexeme
  rw [if_pos rfl, h, ← hFlags]
  rfl

section Newline

variable {regexAllowed : Bool} {c d : CodePoint} {w left tail : Text}

/-- A line feed after white space changes nothing before it. -/
theorem slashLexeme_newline (hSpace : Text.isSpace c = true)
    (h : (slashLexeme regexAllowed (w ++ c :: tail)).rest = left ++ c :: tail) :
    slashLexeme regexAllowed (w ++ c :: .char '\n' :: tail) =
      { slashLexeme regexAllowed (w ++ c :: tail) with rest := left ++ c :: .char '\n' :: tail } := by
  by_cases hNone : regexAllowed = true → closeRegex false (w ++ c :: tail) = none
  · have hAfter : regexAllowed = true → closeRegex false (w ++ c :: .char '\n' :: tail) = none :=
      fun hAllowed => closeRegex_newline_eq_none (ne_of_isSpace hSpace).2.2 (hNone hAllowed)
    rw [slashLexeme_of_none hNone] at h ⊢
    rw [slashLexeme_of_none hAfter, List.append_cancel_right h]
  · obtain ⟨rfl, hSome⟩ := Classical.not_imp.mp hNone
    obtain ⟨⟨body, after⟩, hBody⟩ := Option.ne_none_iff_exists'.mp hSome
    obtain ⟨⟨flags, others⟩, hFlags⟩ : ∃ flags, spanWhile Text.isWord after = flags := ⟨_, rfl⟩
    rw [slashLexeme_of_some hBody hFlags] at h ⊢
    obtain rfl : others = left ++ c :: tail := h
    have hSplit : after = flags ++ left ++ c :: tail := by
      rw [← spanWhile_append Text.isWord after, hFlags, List.append_assoc]
    rw [hSplit] at hBody hFlags
    rw [slashLexeme_of_some ((closeRegex_isClosed false).replace hBody _)
      (spanWhile_replace hFlags _)]

theorem head?_append_cons (w tail other : Text) (c : CodePoint) :
    (w ++ c :: tail).head? = (w ++ c :: other).head? := by
  cases w with
  | nil => rfl
  | cons e w => rfl

/-- A lexeme that ends before some white space stays the same when a line feed is put behind that
white space. -/
theorem Lexes.newline {lexeme : Lexeme} (h : Lexes regexAllowed d (w ++ c :: tail) lexeme)
    (hSpace : Text.isSpace c = true) (hRest : lexeme.rest = left ++ c :: tail) :
    Lexes regexAllowed d (w ++ c :: .char '\n' :: tail)
      { lexeme with rest := left ++ c :: .char '\n' :: tail } := by
  obtain ⟨hNotSlash, hNotStar, _⟩ := ne_of_isSpace hSpace
  generalize hText : w ++ c :: tail = text at h
  cases h with
  | @block rest cut hClose =>
      cases w with
      | nil => exact absurd (List.cons.inj hText).1 hNotStar
      | cons e w =>
          obtain ⟨rfl, rfl⟩ := List.cons.inj hText
          obtain ⟨taken, after⟩ := cut
          cases hRest
          exact .block (closeComment_isClosed.replace hClose _)
  | line rest =>
      cases w with
      | nil => exact absurd (List.cons.inj hText).1 hNotSlash
      | cons e w =>
          obtain ⟨rfl, rfl⟩ := List.cons.inj hText
          have hSpan : spanWhile (· != .char '\n') ((.char '/' :: w) ++ c :: tail) =
              (_, left ++ c :: tail) := Prod.ext rfl hRest
          have hLine : Lexes regexAllowed '/' (.char '/' :: (w ++ c :: .char '\n' :: tail)) _ :=
            .line _
          rw [← List.cons_append, spanWhile_replace hSpan] at hLine
          exact hLine
  | slash hBlock hLine =>
      subst hText
      rw [← slashLexeme_newline hSpace hRest]
      rw [head?_append_cons _ _ (.char '\n' :: tail)] at hBlock hLine
      exact .slash hBlock hLine
  | @string quote rest cut hQuote hClose =>
      subst hText
      obtain ⟨taken, after⟩ := cut
      cases hRest
      exact .string hQuote ((closeString_isClosed _).replace hClose _)
  | plain hSlash hQuote =>
      subst hText
      have hEnds := endsWords_of_isSpace hSpace
      rw [plainLexeme_endsWords hEnds] at hRest ⊢
      have hLeft : (plainLexeme d w).rest = left := List.append_cancel_right hRest
      have hPlain : Lexes regexAllowed d (w ++ c :: .char '\n' :: tail) _ := .plain hSlash hQuote
      rw [plainLexeme_endsWords hEnds] at hPlain
      rw [← hLeft]
      exact hPlain

end Newline

end Token
end ScriptDoc
