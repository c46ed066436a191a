import ScriptDoc.Text.Characters
import ScriptDoc.Token.Basic

/-! Where a token ends. Each reader takes the characters from some place on and gives back the
ones that belong to the token and the ones that follow; together they are what was given. -/
namespace ScriptDoc.Token

/-- Characters taken and characters left. -/
abbrev Cut := Text × Text

def Cut.cons (c : CodePoint) (cut : Cut) : Cut :=
  (c :: cut.1, cut.2)

/-- Up to and with the first star that a slash follows, the slash included. -/
def closeComment : Text → Option Cut
  | [] => none
  | .char '*' :: .char '/' :: rest => some (['*', '/'], rest)
  | c :: rest => (closeComment rest).map (Cut.cons c)

/-- Up to and with the closing quote. A backslash takes the next character with it, whatever it
is. A line feed leaves the string open unless the quote is a backtick. -/
def closeString (quote : CodePoint) : Text → Option Cut
  | [] => none
  | .char '\\' :: c :: rest => (closeString quote rest).map fun cut => (cut.cons c).cons '\\'
  | c :: rest =>
    if c = '\\' then none
    else if c = quote then some ([c], rest)
    else if c = '\n' ∧ quote ≠ '`' then none
    else (closeString quote rest).map (Cut.cons c)

/-- Up to and with the slash that ends a regular expression. A slash in a bracketed class does not
end it, a backslash takes the next character with it, and a line feed means that it is none. -/
def closeRegex (inClass : Bool) : Text → Option Cut
  | [] => none
  | .char '\\' :: c :: rest => (closeRegex inClass rest).map fun cut => (cut.cons c).cons '\\'
  | c :: rest =>
    if c = '\n' ∨ c = '\\' then none
    else if c = '[' then (closeRegex true rest).map (Cut.cons c)
    else if c = ']' then (closeRegex false rest).map (Cut.cons c)
    else if c = '/' ∧ inClass = false then some ([c], rest)
    else (closeRegex inClass rest).map (Cut.cons c)

def spanWhile (p : CodePoint → Bool) (cs : Text) : Cut :=
  (cs.takeWhile p, cs.dropWhile p)

def isNameStart (c : CodePoint) : Bool :=
  Text.isAsciiLetter c || c == '_' || c == '$'

def isNamePart (c : CodePoint) : Bool :=
  Text.isWord c || c == '$'

/-- The rest of a dotted name after its first character. A dot belongs to it only if an identifier
follows. -/
def nameTail : Text → Cut
  | .char '.' :: c :: rest =>
    if isNameStart c then ((nameTail rest).cons c).cons '.' else ([], '.' :: c :: rest)
  | c :: rest => if isNamePart c then (nameTail rest).cons c else ([], c :: rest)
  | [] => ([], [])

def isHexDigit : CodePoint → Bool
  | .char c =>
    c.isDigit || (decide ('a' ≤ c) && decide (c ≤ 'f')) || (decide ('A' ≤ c) && decide (c ≤ 'F'))
  | .half _ => false

/-- A point and at least one digit. -/
def fraction? : Text → Option Cut
  | .char '.' :: c :: rest =>
    if Text.isDecimal c then some ((spanWhile Text.isDecimal (c :: rest)).cons '.') else none
  | _ => none

/-- A letter `e`, an optional sign and at least one digit. -/
def exponent? : Text → Option Cut
  | e :: s :: c :: rest =>
    if e = 'e' ∨ e = 'E' then
      if Text.isDecimal s then some ((spanWhile Text.isDecimal (s :: c :: rest)).cons e)
      else if (s = '+' ∨ s = '-') ∧ Text.isDecimal c then
        some (((spanWhile Text.isDecimal (c :: rest)).cons s).cons e)
      else none
    else none
  | [e, s] => if (e = 'e' ∨ e = 'E') ∧ Text.isDecimal s then some ([e, s], []) else none
  | _ => none

/-- Continues a cut by an optional part. -/
def Cut.extend (cut : Cut) (part : Text → Option Cut) : Cut :=
  match part cut.2 with
  | some more => (cut.1 ++ more.1, more.2)
  | none => cut

def hexNumber? : Text → Option Cut
  | .char '0' :: x :: c :: rest =>
    if (x = 'x' ∨ x = 'X') ∧ isHexDigit c then
      some (((spanWhile isHexDigit (c :: rest)).cons x).cons '0')
    else none
  | _ => none

/-- A number: in base sixteen, or digits with optional fraction and exponent, or a fraction alone.
-/
def number? (cs : Text) : Option Cut :=
  match hexNumber? cs with
  | some cut => some cut
  | none =>
    match spanWhile Text.isDecimal cs with
    | ([], _) => fraction? cs
    | cut => some ((cut.extend fraction?).extend exponent?)

def isQuote (c : CodePoint) : Bool :=
  c == '"' || c == '\'' || c == '`'

inductive Construct
  | comment
  | string
  deriving DecidableEq, Repr

/-- A piece of a script: its class, its text and what follows it. -/
structure Lexeme where
  kind : Kind
  text : Text
  rest : Text
  deriving DecidableEq, Repr

def Cut.lexeme (kind : Kind) (cut : Cut) : Lexeme :=
  ⟨kind, cut.1, cut.2⟩

/-- A cut of the given class if the construct was closed. -/
def closed (kind : Kind) (construct : Construct) (cut : Option Cut) : Except Construct Lexeme :=
  match cut with
  | some cut => .ok (cut.lexeme kind)
  | none => .error construct

/-- A slash that begins no comment: a regular expression with its flags where one may stand and is
closed, and punctuation otherwise. -/
def slashLexeme (regexAllowed : Bool) (rest : Text) : Lexeme :=
  match (if regexAllowed then closeRegex false rest else none) with
  | some cut =>
    Cut.lexeme .regex ((Cut.cons '/' cut).extend fun cs => some (spanWhile Text.isWord cs))
  | none => ⟨.punctuation, ['/'], rest⟩

def plainLexeme (c : CodePoint) (rest : Text) : Lexeme :=
  if isNameStart c then Cut.lexeme .name ((nameTail rest).cons c)
  else
    match number? (c :: rest) with
    | some cut => Cut.lexeme .number cut
    | none => ⟨.punctuation, [c], rest⟩

def readLexeme (regexAllowed : Bool) (c : CodePoint) (rest : Text) : Except Construct Lexeme :=
  if c = '/' then
    match rest with
    | .char '*' :: rest =>
      closed .comment .comment ((closeComment rest).map fun cut => (cut.cons '*').cons '/')
    | .char '/' :: _ => .ok (Cut.lexeme .comment ((spanWhile (· != .char '\n') rest).cons '/'))
    | rest => .ok (slashLexeme regexAllowed rest)
  else if isQuote c then closed .string .string ((closeString c rest).map (Cut.cons c))
  else .ok (plainLexeme c rest)

/-! Every reader only cuts: what it takes and what it leaves make up what it was given. -/

/-- The cut at the end of a comment loses nothing. -/
theorem closeComment_append {cs : Text} {cut : Cut} (h : closeComment cs = some cut) :
    cut.1 ++ cut.2 = cs := by
  fun_induction closeComment cs generalizing cut with
  | case1 => simp at h
  | case2 rest => simp at h; subst h; simp
  | case3 c rest _ ih =>
    obtain ⟨inner, hInner, rfl⟩ := Option.map_eq_some_iff.1 h
    simp [Cut.cons, ih hInner]

/-- The cut at the end of a string loses nothing. -/
theorem closeString_append {quote : CodePoint} {cs : Text} {cut : Cut}
    (h : closeString quote cs = some cut) : cut.1 ++ cut.2 = cs := by
  fun_induction closeString quote cs generalizing cut with
  | case1 => simp at h
  | case2 c rest ih =>
    obtain ⟨inner, hInner, rfl⟩ := Option.map_eq_some_iff.1 h
    simp [Cut.cons, ih hInner]
  | case3 => simp at h
  | case4 => simp at h; subst h; simp
  | case5 => simp at h
  | case6 c rest _ _ _ _ ih =>
    obtain ⟨inner, hInner, rfl⟩ := Option.map_eq_some_iff.1 h
    simp [Cut.cons, ih hInner]

/-- The cut at the end of a regular expression loses nothing. -/
theorem closeRegex_append {inClass : Bool} {cs : Text} {cut : Cut}
    (h : closeRegex inClass cs = some cut) : cut.1 ++ cut.2 = cs := by
  fun_induction closeRegex inClass cs generalizing cut with
  | case1 => simp at h
  | case2 _ c rest ih =>
    obtain ⟨inner, hInner, rfl⟩ := Option.map_eq_some_iff.1 h
    simp [Cut.cons, ih hInner]
  | case3 => simp at h
  | case4 _ rest _ _ ih =>
    obtain ⟨inner, hInner, rfl⟩ := Option.map_eq_some_iff.1 h
    simp [Cut.cons, ih hInner]
  | case5 _ rest _ _ _ ih =>
    obtain ⟨inner, hInner, rfl⟩ := Option.map_eq_some_iff.1 h
    simp [Cut.cons, ih hInner]
  | case6 => simp at h; subst h; simp
  | case7 _ c rest _ _ _ _ _ ih =>
    obtain ⟨inner, hInner, rfl⟩ := Option.map_eq_some_iff.1 h
    simp [Cut.cons, ih hInner]

/-- The cut at the end of a run loses nothing. -/
@[simp] theorem spanWhile_append (p : CodePoint → Bool) (cs : Text) :
    (spanWhile p cs).1 ++ (spanWhile p cs).2 = cs := by
  simp [spanWhile]

/-- The cut at the end of a name loses nothing. -/
theorem nameTail_append (cs : Text) : (nameTail cs).1 ++ (nameTail cs).2 = cs := by
  fun_induction nameTail cs <;> simp_all [Cut.cons]

theorem fraction?_append {cs : Text} {cut : Cut} (h : fraction? cs = some cut) :
    cut.1 ++ cut.2 = cs := by
  unfold fraction? at h
  split at h
  · split at h
    · cases h; simp [Cut.cons]
    · cases h
  · cases h

theorem exponent?_append {cs : Text} {cut : Cut} (h : exponent? cs = some cut) :
    cut.1 ++ cut.2 = cs := by
  unfold exponent? at h
  split at h
  · split at h
    · split at h
      · cases h; simp [Cut.cons]
      · split at h
        · cases h; simp [Cut.cons]
        · cases h
    · cases h
  · split at h
    · cases h; simp
    · cases h
  · cases h

/-- Extending a cut loses nothing if the part does not. -/
theorem Cut.extend_append (cut : Cut) {part : Text → Option Cut}
    (h : ∀ cs more, part cs = some more → more.1 ++ more.2 = cs) :
    (cut.extend part).1 ++ (cut.extend part).2 = cut.1 ++ cut.2 := by
  unfold Cut.extend
  split
  · next more hPart => simp [h _ _ hPart]
  · rfl

theorem hexNumber?_append {cs : Text} {cut : Cut} (h : hexNumber? cs = some cut) :
    cut.1 ++ cut.2 = cs := by
  unfold hexNumber? at h
  split at h
  · split at h
    · cases h; simp [Cut.cons]
    · cases h
  · cases h

/-- The cut at the end of a number loses nothing. -/
theorem number?_append {cs : Text} {cut : Cut} (h : number? cs = some cut) :
    cut.1 ++ cut.2 = cs := by
  unfold number? at h
  split at h
  · next cut' hHex => cases h; exact hexNumber?_append hHex
  · split at h
    · exact fraction?_append h
    · cases h
      rw [Cut.extend_append _ fun _ _ => exponent?_append,
        Cut.extend_append _ fun _ _ => fraction?_append]
      exact spanWhile_append _ _

/-- What is read at a slash and what is left make up the text. -/
theorem slashLexeme_append (regexAllowed : Bool) (rest : Text) :
    (slashLexeme regexAllowed rest).text ++ (slashLexeme regexAllowed rest).rest =
      .char '/' :: rest := by
  unfold slashLexeme
  split
  · next cut hCut =>
    split at hCut
    · simp only [Cut.lexeme]
      rw [Cut.extend_append]
      · simp [Cut.cons, closeRegex_append hCut]
      · intro cs more hMore
        cases hMore
        simp
    · cases hCut
  · simp

/-- What is read elsewhere and what is left make up the text. -/
theorem plainLexeme_append (c : CodePoint) (rest : Text) :
    (plainLexeme c rest).text ++ (plainLexeme c rest).rest = c :: rest := by
  unfold plainLexeme
  split
  · simp [Cut.lexeme, Cut.cons, nameTail_append]
  · split
    · next cut hCut => simpa [Cut.lexeme] using number?_append hCut
    · simp

/-- Reading a lexeme loses nothing. -/
theorem readLexeme_append {regexAllowed : Bool} {c : CodePoint} {rest : Text} {lexeme : Lexeme}
    (h : readLexeme regexAllowed c rest = .ok lexeme) :
    lexeme.text ++ lexeme.rest = c :: rest := by
  unfold readLexeme at h
  split at h
  · next hSlash =>
    subst hSlash
    split at h
    · next rest =>
      unfold closed at h
      split at h
      · next cut hCut =>
        obtain ⟨inner, hInner, rfl⟩ := Option.map_eq_some_iff.1 hCut
        cases h
        simp [Cut.lexeme, Cut.cons, closeComment_append hInner]
      · cases h
    · cases h
      simp [Cut.lexeme, Cut.cons]
    · cases h
      exact slashLexeme_append _ _
  · split at h
    · unfold closed at h
      split at h
      · next cut hCut =>
        obtain ⟨inner, hInner, rfl⟩ := Option.map_eq_some_iff.1 hCut
        cases h
        simp [Cut.lexeme, Cut.cons, closeString_append hInner]
      · cases h
    · cases h
      exact plainLexeme_append _ _

/-- At a slash at least the slash is read. -/
theorem slashLexeme_text_ne_nil (regexAllowed : Bool) (rest : Text) :
    (slashLexeme regexAllowed rest).text ≠ [] := by
  unfold slashLexeme
  split
  · simp [Cut.lexeme, Cut.extend, Cut.cons]
  · simp

theorem Cut.extend_ne_nil {cut : Cut} (h : cut.1 ≠ []) (part : Text → Option Cut) :
    (cut.extend part).1 ≠ [] := by
  unfold Cut.extend
  split <;> simp [h]

/-- A number has a digit. -/
theorem number?_ne_nil {cs : Text} {cut : Cut} (h : number? cs = some cut) : cut.1 ≠ [] := by
  unfold number? at h
  split at h
  · next hHex =>
    cases h
    unfold hexNumber? at hHex
    split at hHex
    · split at hHex
      · cases hHex; simp [Cut.cons]
      · cases hHex
    · cases hHex
  · split at h
    · unfold fraction? at h
      split at h
      · split at h
        · cases h; simp [Cut.cons]
        · cases h
      · cases h
    · next cut' hDigits =>
      cases h
      refine Cut.extend_ne_nil (Cut.extend_ne_nil ?_ _) _
      intro hNil
      exact hDigits _ (Prod.ext hNil rfl)

/-- Elsewhere at least one character is read. -/
theorem plainLexeme_text_ne_nil (c : CodePoint) (rest : Text) :
    (plainLexeme c rest).text ≠ [] := by
  unfold plainLexeme
  split
  · simp [Cut.lexeme, Cut.cons]
  · split
    · next hCut => simpa [Cut.lexeme] using number?_ne_nil hCut
    · simp

/-- A lexeme has at least one character. -/
theorem readLexeme_text_ne_nil {regexAllowed : Bool} {c : CodePoint} {rest : Text}
    {lexeme : Lexeme} (h : readLexeme regexAllowed c rest = .ok lexeme) : lexeme.text ≠ [] := by
  unfold readLexeme at h
  split at h
  · split at h
    · unfold closed at h
      split at h
      · next hCut =>
        obtain ⟨inner, _, rfl⟩ := Option.map_eq_some_iff.1 hCut
        cases h
        simp [Cut.lexeme, Cut.cons]
      · cases h
    · cases h
      simp [Cut.lexeme, Cut.cons]
    · cases h
      exact slashLexeme_text_ne_nil _ _
  · split at h
    · unfold closed at h
      split at h
      · next hCut =>
        obtain ⟨inner, _, rfl⟩ := Option.map_eq_some_iff.1 hCut
        cases h
        simp [Cut.lexeme, Cut.cons]
      · cases h
    · cases h
      exact plainLexeme_text_ne_nil _ _

/-- Every lexeme takes something away, so that scanning comes to an end. -/
theorem readLexeme_rest_length_lt {regexAllowed : Bool} {c : CodePoint} {rest : Text}
    {lexeme : Lexeme} (h : readLexeme regexAllowed c rest = .ok lexeme) :
    lexeme.rest.length < (c :: rest).length := by
  have hLength := congrArg List.length (readLexeme_append h)
  have hPos := List.length_pos_iff.2 (readLexeme_text_ne_nil h)
  simp only [List.length_append] at hLength
  omega

end ScriptDoc.Token
