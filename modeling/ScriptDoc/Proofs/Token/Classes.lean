import ScriptDoc.Proofs.Token.Grammar

/-! The tokens of a script, each at its place. A scan reads the lexeme that begins at the place of a
token, so what is known of lexemes holds of all tokens: each belongs to its class and ends where it
has to, and a slash begins a regular expression where one may stand and is closed. -/
namespace ScriptDoc.Token

/-- Characters that are tokens by themselves, in front of the rest of a script. -/
structure IsSign (c : CodePoint) (rest : Text) : Prop where
  space : Text.isSpace c = false
  quote : isQuote c = false
  nameStart : isNameStart c = false
  decimal : Text.isDecimal c = false
  point : c = '.' → ∀ d ∈ rest.head?, Text.isDecimal d = false

/-- The text belongs to the class, and the rest of the script does not go on with it. -/
def WellCut (kind : Kind) (text rest : Text) : Prop :=
  match kind with
  | .comment => IsBlockComment text ∨
      IsLineComment text ∧ (rest = [] ∨ rest.head? = some (.char '\n'))
  | .string => ∃ quote body, isQuote quote = true ∧ StringBody quote body ∧
      text = quote :: (body ++ [quote])
  | .name => IsDottedName text ∧ ¬ GoesOnName rest
  | .number => IsNumber text
  | .regex => ∃ body flags, RegexBody body ∧ IsRun Text.isWord flags rest ∧
      text = .char '/' :: (body ++ .char '/' :: flags)
  | .punctuation => ∃ c, text = [c] ∧ IsSign c rest

/-- What is read at a slash is a regular expression or a slash. -/
theorem slashLexeme_wellCut (regexAllowed : Bool) (rest : Text) :
    WellCut (slashLexeme regexAllowed rest).kind (slashLexeme regexAllowed rest).text
      (slashLexeme regexAllowed rest).rest := by
  by_cases hRegex : regexAllowed = true ∧ BeginsRegex rest
  · obtain ⟨rfl, body, more, hBody, rfl⟩ := hRegex
    rw [hBody.slashLexeme_eq]
    exact ⟨body, _, hBody, (spanWhile_eq_iff.mp rfl).2, rfl⟩
  · rw [slashLexeme_of_not_beginsRegex fun hAllowed hBegins => hRegex ⟨hAllowed, hBegins⟩]
    refine ⟨'/', rfl, by decide, by decide, by decide, by decide, ?_⟩
    intro hDot
    exact absurd hDot (by decide)

/-- What is read elsewhere is a name, a number or one character. -/
theorem plainLexeme_wellCut {c : CodePoint} (hSpace : Text.isSpace c = false)
    (hQuote : isQuote c = false) (rest : Text) :
    WellCut (plainLexeme c rest).kind (plainLexeme c rest).text (plainLexeme c rest).rest := by
  unfold plainLexeme
  split
  · next hStart =>
      obtain ⟨_, hTail, hStop⟩ := nameTail_eq_iff.mp (rfl : nameTail rest = _)
      exact ⟨hTail.isDottedName hStart, hStop⟩
  · next hStart =>
      split
      · next hNumber => exact number?_isNumber hNumber
      · next hNone =>
          obtain ⟨hDecimal, hPoint⟩ := not_isDecimal_of_number?_eq_none hNone
          exact ⟨c, rfl, hSpace, hQuote, Bool.eq_false_iff.mpr hStart, hDecimal, hPoint⟩

/-- A comment of one line stops before the line feed. -/
theorem lineComment_wellCut (rest : Text) :
    WellCut .comment (.char '/' :: (spanWhile (· != .char '\n') (.char '/' :: rest)).1)
      (spanWhile (· != .char '\n') (.char '/' :: rest)).2 := by
  obtain ⟨⟨taken, left⟩, hSpan⟩ : ∃ cut, spanWhile (· != .char '\n') rest = cut := ⟨_, rfl⟩
  obtain ⟨_, hRun⟩ := spanWhile_eq_iff.mp hSpan
  have hCut : spanWhile (· != .char '\n') (.char '/' :: rest) = (.char '/' :: taken, left) :=
    congrArg (Cut.cons '/') hSpan
  rw [hCut]
  refine .inr ⟨⟨⟨taken, rfl⟩, ?_⟩, ?_⟩
  · intro hMem
    have hTaken : .char '\n' ∈ taken := by simpa using hMem
    exact absurd (hRun.accepted _ hTaken) (by decide)
  · cases left with
    | nil => exact .inl rfl
    | cons d others => exact .inr (by simpa using hRun.stop d rfl)

/-- Each case of reading gives a token of its class. -/
theorem Lexes.wellCut {regexAllowed : Bool} {c : CodePoint} {rest : Text} {lexeme : Lexeme}
    (h : Lexes regexAllowed c rest lexeme) (hSpace : Text.isSpace c = false) :
    WellCut lexeme.kind lexeme.text lexeme.rest := by
  cases h with
  | block hClose => exact .inl ⟨_, rfl, closeComment_endsAtMark hClose⟩
  | line rest => exact lineComment_wellCut rest
  | slash hBlock hLine => exact slashLexeme_wellCut regexAllowed rest
  | @string quote rest cut hQuote hClose =>
      obtain ⟨body, hBody, hTaken⟩ := exists_stringBody_of_closeString hClose
      exact ⟨c, body, hQuote, hBody, congrArg (c :: ·) hTaken⟩
  | plain hSlash hQuote => exact plainLexeme_wellCut hSpace hQuote rest

/-- A scan up to some place: it has read the given tokens and has the given text still ahead. -/
inductive Reaches : Nat → Option Token → Text → List Token → Text → Prop
  | here (line : Nat) (last : Option Token) (cs : Text) : Reaches line last cs [] cs
  | space {line : Nat} {last : Option Token} {c : CodePoint} {rest ahead : Text}
      {tokens : List Token} (hSpace : Text.isSpace c = true)
      (after : Reaches (line + Text.newlines [c]) last rest tokens ahead) :
      Reaches line last (c :: rest) tokens ahead
  | token {line : Nat} {last : Option Token} {c : CodePoint} {rest ahead : Text}
      {tokens : List Token} {lexeme : Lexeme} (hSpace : Text.isSpace c = false)
      (hLexes : Lexes (regexAllowedAfter last) c rest lexeme)
      (after : Reaches (line + Text.newlines lexeme.text)
        (significant last ⟨lexeme.kind, lexeme.text, line⟩) lexeme.rest tokens ahead) :
      Reaches line last (c :: rest) (⟨lexeme.kind, lexeme.text, line⟩ :: tokens) ahead

/-- The lexeme that begins at the place of a token is that token, and ends where the token ends.
Before it the given tokens have been read. -/
def ReadAt (text : Text) (last : Option Token) (before : List Span) (span : Span) : Prop :=
  ∃ c rest, text.drop span.start = c :: rest ∧ Text.isSpace c = false ∧
    Lexes (regexAllowedAfter ((before.map Span.token).foldl significant last)) c rest
      ⟨span.token.kind, span.token.text, text.drop span.stop⟩

/-- Every token of a scan is read at its place, and then the scan has come to the end of that token.
The induction follows the scan and the place that it has come to. -/
theorem Scans.readAt {line origin : Nat} {last : Option Token} {text : Text}
    {spans before after : List Span} {span : Span}
    (h : Scans line last (text.drop origin) (spans.map Span.token))
    (hPlaced : Placed text origin spans) (hSplit : spans = before ++ span :: after) :
    ReadAt text last before span ∧
      Reaches line last (text.drop origin) ((before ++ [span]).map Span.token)
        (text.drop span.stop) := by
  generalize hText : text.drop origin = cs at h
  generalize hMap : spans.map Span.token = tokens at h
  induction h generalizing origin spans before with
  | done line last =>
      rw [hSplit] at hMap
      simp at hMap
  | @space line last c rest tokens hSpace scans ih =>
      have hAt : text[origin]? = some c := by
        rw [← List.head?_drop, hText, List.head?_cons]
      have hPass : Placed text (origin + 1) spans := by
        refine hPlaced.pass hAt hSpace fun span hMem => ?_
        exact scans.head_not_space span.token (hMap ▸ List.mem_map_of_mem hMem)
      have hRest : text.drop (origin + 1) = rest := by
        rw [← List.tail_drop, hText, List.tail_cons]
      obtain ⟨hRead, hReaches⟩ := ih hPass hSplit hRest hMap
      exact ⟨hRead, .space hSpace hReaches⟩
  | @token line last c rest tokens lexeme hSpace hRead scans ih =>
      have hAt : text[origin]? = some c := by
        rw [← List.head?_drop, hText, List.head?_cons]
      have hLexes := Lexes.of_readLexeme hRead
      cases spans with
      | nil => cases hMap
      | cons first spans =>
          obtain ⟨hToken, hOthers⟩ := List.cons.inj hMap
          have hStart : first.start = origin := hPlaced.start_eq hAt hSpace
          have hRest : text.drop first.stop = lexeme.rest := by
            rw [Span.stop, hStart, hToken, ← List.drop_drop, hText, ← readLexeme_append hRead,
              List.drop_left]
          cases before with
          | nil =>
              obtain ⟨rfl, rfl⟩ := List.cons.inj hSplit
              constructor
              · refine ⟨c, rest, by rw [hStart, hText], hSpace, ?_⟩
                rw [hRest, hToken]
                exact hLexes
              · rw [hRest, List.nil_append, List.map_singleton, hToken]
                exact .token hSpace hLexes (.here _ _ _)
          | cons other before =>
              obtain ⟨rfl, hRight⟩ := List.cons.inj hSplit
              obtain ⟨hAfter, hReaches⟩ := ih hPlaced.tail hRight hRest hOthers
              rw [← hToken] at hAfter
              refine ⟨hAfter, ?_⟩
              rw [List.cons_append, List.map_cons, hToken]
              exact .token hSpace hLexes hReaches

/-- Every token was read where it stands, after those before it. -/
theorem exists_readAt {text : Text} {tokens : List Token} (h : tokenize text = .ok tokens) :
    ∃ spans : List Span, spans.map Span.token = tokens ∧ Placed text 0 spans ∧
      ∀ before span after, spans = before ++ span :: after → ReadAt text none before span ∧
        Reaches 1 none text ((before ++ [span]).map Span.token) (text.drop span.stop) := by
  have hScans : Scans 1 none text tokens := Scans.of_scanFrom h
  obtain ⟨spans, rfl, hPlaced⟩ := hScans.placed [] rfl
  exact ⟨spans, rfl, hPlaced, fun before span after hSplit => hScans.readAt hPlaced hSplit⟩

/-- Every token is a text of its class and is cut at the right place. The tokens have places in the
text, and what is right of a token there begins with nothing that would belong to it. -/
theorem tokenize_wellCut (text : Text) (tokens : List Token) (h : tokenize text = .ok tokens) :
    ∃ spans : List Span, spans.map Span.token = tokens ∧ Placed text 0 spans ∧
      ∀ span ∈ spans, WellCut span.token.kind span.token.text (text.drop span.stop) := by
  obtain ⟨spans, hTokens, hPlaced, hRead⟩ := exists_readAt h
  refine ⟨spans, hTokens, hPlaced, ?_⟩
  intro span hMem
  obtain ⟨before, after, hSplit⟩ := List.append_of_mem hMem
  obtain ⟨⟨c, rest, _, hSpace, hLexes⟩, _⟩ := hRead before span after hSplit
  exact hLexes.wellCut hSpace

/-- Names and numbers that end at the last character that fits, an escaped quote, a comment whose
opening mark looks like a closing one, and a regular expression with brackets in a class. -/
def classesScript : Text :=
  "$a.b1.é 0x1Fg 1.e5 2.5E-2 '\\'`' /*/ **/ .5. // /*\n=/[/\\]]+/gi"

def classesTokens : List Token :=
  [⟨.name, "$a.b1", 1⟩, ⟨.punctuation, ".", 1⟩, ⟨.punctuation, "é", 1⟩, ⟨.number, "0x1F", 1⟩,
    ⟨.name, "g", 1⟩, ⟨.number, "1", 1⟩, ⟨.punctuation, ".", 1⟩, ⟨.name, "e5", 1⟩,
    ⟨.number, "2.5E-2", 1⟩, ⟨.string, "'\\'`'", 1⟩, ⟨.comment, "/*/ **/", 1⟩, ⟨.number, ".5", 1⟩,
    ⟨.punctuation, ".", 1⟩, ⟨.comment, "// /*", 1⟩, ⟨.punctuation, "=", 2⟩,
    ⟨.regex, "/[/\\]]+/gi", 2⟩]

theorem tokenize_wellCut_classes :
    tokenize classesScript = .ok classesTokens ∧
      ∃ spans : List Span, spans.map Span.token = classesTokens ∧ Placed classesScript 0 spans ∧
        ∀ span ∈ spans, WellCut span.token.kind span.token.text (classesScript.drop span.stop) := by
  have hTokens : tokenize classesScript = .ok classesTokens := by decide +kernel
  exact ⟨hTokens, tokenize_wellCut classesScript classesTokens hTokens⟩

/-! Slashes. -/

/-- A regular expression may stand behind the tokens: none of them is more than a comment, or the
last one that is more allows it. -/
def RegexMayFollow (tokens : List Token) : Prop :=
  lastSignificant? tokens = none ∨ ∃ t, lastSignificant? tokens = some t ∧ AllowsRegex t

/-- The token that decides is one of those listed. -/
theorem allowsRegex_of_regexAllowedAfter {t : Token} (h : regexAllowedAfter (some t) = true) :
    AllowsRegex t := by
  obtain ⟨kind, text, line⟩ := t
  cases kind with
  | punctuation =>
      obtain ⟨c, hMem, hText⟩ := List.any_eq_true.mp h
      exact .inl ⟨rfl, c, hMem, eq_of_beq hText⟩
  | name =>
      refine .inr ⟨rfl, ?_⟩
      simpa [regexAllowedAfter] using h
  | comment | string | number | regex => cases h

/-- What decides is the last token that is no comment. -/
theorem regexAllowedAfter_lastSignificant? (tokens : List Token) :
    regexAllowedAfter (lastSignificant? tokens) = true ↔ RegexMayFollow tokens := by
  unfold RegexMayFollow
  cases lastSignificant? tokens with
  | none => exact ⟨fun _ => .inl rfl, fun _ => rfl⟩
  | some t =>
      constructor
      · intro h
        exact .inr ⟨t, rfl, allowsRegex_of_regexAllowedAfter h⟩
      · rintro (hNone | ⟨other, hSome, hAllows⟩)
        · cases hNone
        · cases hSome
          exact regexAllowedAfter_some hAllows

/-- Comments have no say. -/
theorem regexMayFollow_append_comments (tokens : List Token) {comments : List Token}
    (h : ∀ t ∈ comments, t.kind = .comment) :
    RegexMayFollow (tokens ++ comments) ↔ RegexMayFollow tokens := by
  have hNone : comments.filter (fun t => t.kind != .comment) = [] := by
    rw [List.filter_eq_nil_iff]
    intro t hMem
    simp [h t hMem]
  have hLast : lastSignificant? (tokens ++ comments) = lastSignificant? tokens := by
    rw [lastSignificant?, List.filter_append, hNone, List.append_nil]
    rfl
  rw [RegexMayFollow, hLast]
  rfl

/-- What a slash in front of the given text is read as, behind the given tokens. -/
structure IsSlashRead (before : List Token) (rest : Text) (t : Token) : Prop where
  /-- Comments in between do not count. -/
  regex_iff : ∀ earlier comments : List Token, before = earlier ++ comments →
    (∀ c ∈ comments, c.kind = .comment) →
    (t.kind = .regex ↔ RegexMayFollow earlier ∧ BeginsRegex rest)
  text_eq : t.kind = .regex → ∀ body more, RegexBody body → rest = body ++ .char '/' :: more →
    t.text = .char '/' :: (body ++ .char '/' :: more.takeWhile Text.isWord)
  sign : t.kind ≠ .regex → t.kind = .punctuation ∧ t.text = "/"

/-- At a slash that begins no comment there is one way to read. -/
theorem Lexes.eq_slashLexeme {regexAllowed : Bool} {rest : Text} {lexeme : Lexeme}
    (h : Lexes regexAllowed '/' rest lexeme) (hBlock : rest.head? ≠ some (.char '*'))
    (hLine : rest.head? ≠ some (.char '/')) : lexeme = slashLexeme regexAllowed rest := by
  have hSlash : Lexes regexAllowed '/' rest (slashLexeme regexAllowed rest) := .slash hBlock hLine
  have hSame := h.readLexeme_eq.symm.trans hSlash.readLexeme_eq
  exact Except.ok.inj hSame

/-- That way is the one described. -/
theorem isSlashRead_of_slashLexeme {before : List Token} {rest left : Text} {t : Token}
    (h : ⟨t.kind, t.text, left⟩ = slashLexeme (regexAllowedAfter (lastSignificant? before)) rest) :
    IsSlashRead before rest t := by
  have hAllowed := regexAllowedAfter_lastSignificant? before
  have hRegex : t.kind = .regex ↔ RegexMayFollow before ∧ BeginsRegex rest := by
    constructor
    · intro hKind
      by_contra hNot
      rw [slashLexeme_of_not_beginsRegex fun hMay hBegins => hNot ⟨hAllowed.mp hMay, hBegins⟩] at h
      rw [show t.kind = .punctuation from congrArg Lexeme.kind h] at hKind
      cases hKind
    · rintro ⟨hMay, body, more, hBody, rfl⟩
      rw [hAllowed.mpr hMay, hBody.slashLexeme_eq] at h
      exact congrArg Lexeme.kind h
  refine ⟨?_, ?_, ?_⟩
  · intro earlier comments hBefore hComments
    rw [hRegex, hBefore, regexMayFollow_append_comments earlier hComments]
  · intro hKind body more hBody hSplit
    rw [hAllowed.mpr (hRegex.mp hKind).1, hSplit, hBody.slashLexeme_eq] at h
    exact congrArg Lexeme.text h
  · intro hNot
    have hNone : regexAllowedAfter (lastSignificant? before) = true → ¬ BeginsRegex rest :=
      fun hMay hBegins => hNot (hRegex.mpr ⟨hAllowed.mp hMay, hBegins⟩)
    rw [slashLexeme_of_not_beginsRegex hNone] at h
    exact ⟨congrArg Lexeme.kind h, congrArg Lexeme.text h⟩

/-- Regular expressions are recognised exactly. At every place where a token begins with a slash
that opens no comment, the token is a regular expression if and only if one may stand behind the
tokens before it, comments apart, and the text goes on with the rest of one; it then ends with all
word characters behind the second slash. Otherwise the token is the slash alone. -/
theorem tokenize_regex_exact (text : Text) (tokens : List Token) (h : tokenize text = .ok tokens) :
    ∃ spans : List Span, spans.map Span.token = tokens ∧ Placed text 0 spans ∧
      ∀ before span after rest, spans = before ++ span :: after →
        text.drop span.start = .char '/' :: rest → rest.head? ≠ some (.char '/') →
        rest.head? ≠ some (.char '*') → IsSlashRead (before.map Span.token) rest span.token := by
  obtain ⟨spans, hTokens, hPlaced, hRead⟩ := exists_readAt h
  refine ⟨spans, hTokens, hPlaced, ?_⟩
  intro before span after rest hSplit hText hLine hBlock
  obtain ⟨⟨c, others, hDrop, _, hLexes⟩, _⟩ := hRead before span after hSplit
  rw [hText] at hDrop
  cases hDrop
  rw [foldl_significant, Option.or_none] at hLexes
  exact isSlashRead_of_slashLexeme (hLexes.eq_slashLexeme hBlock hLine)

/-- Slashes behind comments: in an assignment, where a regular expression with brackets in its class
begins; behind it and behind a name, where both divide; and behind a bracket, where a class is not
closed on the line. -/
def slashesScript : Text :=
  "x = /* c */ /[[/\\]]\\//g/2; y // c\n/ 3 + (/[/\n"

def slashesTokens : List Token :=
  [⟨.name, "x", 1⟩, ⟨.punctuation, "=", 1⟩, ⟨.comment, "/* c */", 1⟩,
    ⟨.regex, "/[[/\\]]\\//g", 1⟩, ⟨.punctuation, "/", 1⟩, ⟨.number, "2", 1⟩, ⟨.punctuation, ";", 1⟩,
    ⟨.name, "y", 1⟩, ⟨.comment, "// c", 1⟩, ⟨.punctuation, "/", 2⟩, ⟨.number, "3", 2⟩,
    ⟨.punctuation, "+", 2⟩, ⟨.punctuation, "(", 2⟩, ⟨.punctuation, "/", 2⟩, ⟨.punctuation, "[", 2⟩,
    ⟨.punctuation, "/", 2⟩]

theorem tokenize_regex_exact_slashes :
    tokenize slashesScript = .ok slashesTokens ∧
      ∃ spans : List Span, spans.map Span.token = slashesTokens ∧ Placed slashesScript 0 spans ∧
        ∀ before span after rest, spans = before ++ span :: after →
          slashesScript.drop span.start = .char '/' :: rest → rest.head? ≠ some (.char '/') →
          rest.head? ≠ some (.char '*') → IsSlashRead (before.map Span.token) rest span.token := by
  have hTokens : tokenize slashesScript = .ok slashesTokens := by decide +kernel
  exact ⟨hTokens, tokenize_regex_exact slashesScript slashesTokens hTokens⟩

end ScriptDoc.Token
