import ScriptDoc.Proofs.Token.Classes
import ScriptDoc.Proofs.Token.LineEnds

/-! Scripts that are cut short. A lexeme is read in the same way when the text ends earlier, as long
as it ends behind the lexeme: no reader takes more from less text. So what a scan has passed is a
script by itself, with the tokens that were read so far. -/
namespace ScriptDoc.Token

section Readers

variable {w left more : Text}

theorem head?_of_append {t : Text} {c : CodePoint} (h : c ∈ t.head?) (more : Text) :
    c ∈ (t ++ more).head? := by
  obtain ⟨rest, rfl⟩ := List.head?_eq_some_iff.mp h
  rfl

theorem append_of_append_append {taken : Text} (h : taken ++ (left ++ more) = w ++ more) :
    taken ++ left = w := by
  rw [← List.append_assoc] at h
  exact List.append_cancel_right h

/-- A run stays one if the text is cut off behind it. -/
theorem IsRun.short {p : CodePoint → Bool} {run : Text} (h : IsRun p run (left ++ more)) :
    IsRun p run left where
  accepted := h.accepted
  stop := fun c hHead => h.stop c (head?_of_append hHead more)

/-- A name that goes on does so with more behind it. -/
theorem GoesOnName.append (h : GoesOnName left) (more : Text) : GoesOnName (left ++ more) := by
  rcases h with ⟨c, hHead, hPart⟩ | ⟨c, rest, rfl, hStart⟩
  · exact .inl ⟨c, head?_of_append hHead more, hPart⟩
  · exact .inr ⟨c, rest ++ more, rfl, hStart⟩

/-- A regular expression that begins does so with more behind it. -/
theorem BeginsRegex.append (h : BeginsRegex left) (more : Text) : BeginsRegex (left ++ more) := by
  obtain ⟨body, rest, hBody, rfl⟩ := h
  exact ⟨body, rest ++ more, hBody, by rw [List.append_assoc, List.cons_append]⟩

/-- A reader that takes the same from a text that ends earlier, but behind what it takes, and that
takes nothing from a beginning of a text from which it takes nothing. -/
structure IsStable (read : Text → Option Cut) : Prop where
  append : ∀ {cs : Text} {cut : Cut}, read cs = some cut → cut.1 ++ cut.2 = cs
  short : ∀ {taken left more : Text}, read (taken ++ (left ++ more)) = some (taken, left ++ more) →
    read (taken ++ left) = some (taken, left)
  none : ∀ {w more : Text}, read (w ++ more) = none → read w = none

/-- What needs a mark is found in the longer text if in the shorter. -/
theorem ReadsMarked.isStable {read : Text → Option Cut} {IsMark : Text → Prop}
    {p : CodePoint → Bool} (h : ReadsMarked read IsMark p) : IsStable read where
  append := by
    intro cs cut hRead
    obtain ⟨mark, c, rest, _, _, rfl, rfl⟩ := (h cs cut).mp hRead
    simp
  short := by
    intro taken left more hRead
    obtain ⟨mark, c, rest, hMark, hFirst, _, hCut⟩ := (h _ _).mp hRead
    obtain ⟨⟨run, others⟩, hSpan⟩ : ∃ cut, spanWhile p (c :: rest) = cut := ⟨_, rfl⟩
    simp only [hSpan, Prod.mk.injEq] at hCut
    obtain ⟨rfl, rfl⟩ := hCut
    obtain ⟨hSplit, hRun⟩ := spanWhile_eq_iff.mp hSpan
    cases run with
    | nil =>
        rw [List.nil_append] at hSplit
        rw [hRun.stop c (by rw [← hSplit]; rfl)] at hFirst
        cases hFirst
    | cons d run =>
        obtain rfl : c = d := (List.cons.inj hSplit).1
        have hShort : spanWhile p (c :: (run ++ left)) = (c :: run, left) :=
          spanWhile_eq_iff.mpr ⟨rfl, hRun.short⟩
        refine (h _ _).mpr ⟨mark, c, run ++ left, hMark, hFirst, ?_, ?_⟩
        · rw [List.append_assoc, List.cons_append]
        · rw [hShort]
  none := by
    intro w more hNone
    by_contra hSome
    obtain ⟨cut, hRead⟩ := Option.ne_none_iff_exists'.mp hSome
    obtain ⟨mark, c, rest, hMark, hFirst, rfl, _⟩ := (h w cut).mp hRead
    have hMore := (h _ _).mpr ⟨mark, c, rest ++ more, hMark, hFirst, rfl, rfl⟩
    rw [List.append_assoc, List.cons_append, hMore] at hNone
    cases hNone

/-- What is left behind an optional part is the end of what was left before. -/
theorem IsStable.exists_found {part : Text → Option Cut} (h : IsStable part) (cut : Cut) :
    ∃ found, cut.2 = found ++ (cut.extend part).2 := by
  cases hFound : part cut.2 with
  | none => exact ⟨[], by rw [Cut.extend_of_none hFound, List.nil_append]⟩
  | some found => exact ⟨found.1, by rw [Cut.extend_of_some hFound, h.append hFound]⟩

/-- An optional part is found again, or left out again, in a text that ends earlier. -/
theorem IsStable.extend_short {part : Text → Option Cut} (h : IsStable part)
    {before after found left more : Text}
    (hExtend : Cut.extend (before, found ++ (left ++ more)) part = (after, left ++ more)) :
    Cut.extend (before, found ++ left) part = (after, left) := by
  cases hFound : part (found ++ (left ++ more)) with
  | none =>
      rw [Cut.extend_of_none hFound] at hExtend
      obtain ⟨rfl, hLeft⟩ := Prod.mk.inj hExtend
      rw [← List.append_assoc] at hFound hLeft
      rw [Cut.extend_of_none (h.none hFound), List.append_cancel_right hLeft]
  | some cut =>
      rw [Cut.extend_of_some hFound] at hExtend
      obtain ⟨taken, rest⟩ := cut
      obtain ⟨rfl, rfl⟩ := Prod.mk.inj hExtend
      obtain rfl : taken = found := List.append_cancel_right (h.append hFound)
      rw [Cut.extend_of_some (h.short hFound)]

/-- A run that is empty in the longer text is so in the shorter. -/
theorem spanWhile_eq_nil_of_append {p : CodePoint → Bool} {w more : Text}
    (h : (spanWhile p (w ++ more)).1 = []) : (spanWhile p w).1 = [] := by
  cases w with
  | nil => rfl
  | cons c w =>
      have hFirst : ¬ p c = true := by
        intro hGoes
        simp [spanWhile, hGoes] at h
      simp [spanWhile, hFirst]

/-- The digits of a number, its fraction and its exponent one after the other. -/
theorem decimal_short {taken : Text}
    (hDigits : (spanWhile Text.isDecimal (taken ++ (left ++ more))).1 ≠ [])
    (h : ((spanWhile Text.isDecimal (taken ++ (left ++ more))).extend fraction?).extend exponent? =
      (taken, left ++ more)) :
    (spanWhile Text.isDecimal (taken ++ left)).1 ≠ [] ∧
      ((spanWhile Text.isDecimal (taken ++ left)).extend fraction?).extend exponent? =
        (taken, left) := by
  have hFraction := fraction?_readsMarked.isStable
  have hExponent := exponent?_readsMarked.isStable
  obtain ⟨⟨digits, rest⟩, hSpan⟩ :
      ∃ cut, spanWhile Text.isDecimal (taken ++ (left ++ more)) = cut := ⟨_, rfl⟩
  rw [hSpan] at hDigits h
  obtain ⟨⟨number, others⟩, hNumber⟩ : ∃ cut, Cut.extend (digits, rest) fraction? = cut :=
    ⟨_, rfl⟩
  obtain ⟨fraction, hRest⟩ := hFraction.exists_found (digits, rest)
  obtain ⟨exponent, hOthers⟩ := hExponent.exists_found (number, others)
  rw [hNumber] at h hRest
  rw [h] at hOthers
  obtain rfl : others = exponent ++ (left ++ more) := hOthers
  obtain rfl : rest = fraction ++ (exponent ++ (left ++ more)) := hRest
  rw [← List.append_assoc exponent] at hNumber hSpan
  obtain ⟨hSplit, hRun⟩ := spanWhile_eq_iff.mp hSpan
  rw [← List.append_assoc fraction] at hSplit hRun
  rw [← List.append_assoc digits] at hSplit
  have hShort : spanWhile Text.isDecimal (taken ++ left) =
      (digits, fraction ++ (exponent ++ left)) :=
    spanWhile_eq_iff.mpr ⟨append_of_append_append hSplit, hRun.short⟩
  rw [hShort, hFraction.extend_short hNumber, hExponent.extend_short h]
  exact ⟨hDigits, rfl⟩

/-- A number is found in the longer text if in the shorter. -/
theorem number?_isStable : IsStable number? where
  append := number?_append
  short := by
    intro taken left more h
    have hFraction := fraction?_readsMarked.isStable
    have hHex := hexNumber?_readsMarked.isStable
    rw [number?_eq] at h
    rcases Option.or_eq_some_iff.mp h with hFound | ⟨hNone, hDecimal⟩
    · rw [number?_eq, hHex.short hFound, Option.some_or]
    · rw [← List.append_assoc] at hNone
      rw [number?_eq, hHex.none hNone, Option.none_or]
      split at hDecimal
      · next hDigits =>
          rw [← List.append_assoc] at hDigits
          rw [if_pos (spanWhile_eq_nil_of_append hDigits), hFraction.short hDecimal]
      · next hDigits =>
          obtain ⟨hFilled, hShort⟩ := decimal_short hDigits (Option.some.inj hDecimal)
          rw [if_neg hFilled, hShort]
  none := by
    intro w more h
    obtain ⟨hHex, hDigits, hFraction⟩ := number?_eq_none_iff.mp h
    exact number?_eq_none_iff.mpr ⟨hexNumber?_readsMarked.isStable.none hHex,
      spanWhile_eq_nil_of_append hDigits, fraction?_readsMarked.isStable.none hFraction⟩

/-- A text can be cut off behind a regular expression or a slash. -/
theorem slashLexeme_short {regexAllowed : Bool} {kind : Kind} {text : Text}
    (h : slashLexeme regexAllowed (w ++ more) = ⟨kind, text, left ++ more⟩) :
    slashLexeme regexAllowed w = ⟨kind, text, left⟩ := by
  -- A regular expression that the longer text does not have is not in the shorter one either.
  by_cases hRegex : regexAllowed = true ∧ BeginsRegex (w ++ more)
  · obtain ⟨rfl, body, tail, hBody, hTail⟩ := hRegex
    obtain ⟨⟨flags, rest⟩, hFlags⟩ : ∃ cut, spanWhile Text.isWord tail = cut := ⟨_, rfl⟩
    obtain ⟨hTake, hDrop⟩ := Prod.mk.inj hFlags
    rw [hTail, hBody.slashLexeme_eq, hTake, hDrop] at h
    obtain ⟨rfl, rfl, rfl⟩ := Lexeme.mk.inj h
    obtain ⟨rfl, hRun⟩ := spanWhile_eq_iff.mp hFlags
    obtain rfl : w = body ++ .char '/' :: (flags ++ left) := by
      refine List.append_cancel_right (hTail.trans ?_)
      simp
    obtain ⟨hTake, hDrop⟩ := Prod.mk.inj (spanWhile_eq_iff.mpr ⟨rfl, hRun.short⟩)
    rw [hBody.slashLexeme_eq, hTake, hDrop]
  · rw [slashLexeme_of_not_beginsRegex fun hAllowed hBegins => hRegex ⟨hAllowed, hBegins⟩] at h
    obtain ⟨rfl, rfl, hRest⟩ := Lexeme.mk.inj h
    obtain rfl := List.append_cancel_right hRest
    exact slashLexeme_of_not_beginsRegex fun hAllowed hBegins =>
      hRegex ⟨hAllowed, hBegins.append more⟩

/-- A text can be cut off behind a name, a number or a character. -/
theorem plainLexeme_short {c : CodePoint} {kind : Kind} {text : Text}
    (h : plainLexeme c (w ++ more) = ⟨kind, text, left ++ more⟩) :
    plainLexeme c w = ⟨kind, text, left⟩ := by
  unfold plainLexeme at h ⊢
  split at h
  · next hStart =>
      obtain ⟨⟨tail, rest⟩, hTail⟩ : ∃ cut, nameTail (w ++ more) = cut := ⟨_, rfl⟩
      rw [hTail] at h
      obtain ⟨rfl, rfl, rfl⟩ := Lexeme.mk.inj h
      obtain ⟨hSplit, hName, hStop⟩ := nameTail_eq_iff.mp hTail
      have hShort : nameTail w = (tail, left) :=
        nameTail_eq_iff.mpr ⟨(append_of_append_append hSplit.symm).symm, hName,
          fun hGoes => hStop (hGoes.append more)⟩
      rw [if_pos hStart, hShort]
      rfl
  · next hStart =>
      rw [if_neg hStart]
      split at h
      · next cut hNumber =>
          obtain ⟨taken, rest⟩ := cut
          obtain ⟨rfl, rfl, rfl⟩ := Lexeme.mk.inj h
          have hSplit : taken ++ left = c :: w := append_of_append_append (number?_append hNumber)
          rw [← List.cons_append, ← hSplit, List.append_assoc] at hNumber
          rw [← hSplit, number?_isStable.short hNumber]
          rfl
      · next hNone =>
          obtain ⟨rfl, rfl, hRest⟩ := Lexeme.mk.inj h
          obtain rfl := List.append_cancel_right hRest
          rw [number?_isStable.none (w := c :: w) hNone]

/-- A lexeme is read again in a text that ends behind it. -/
theorem Lexes.short {regexAllowed : Bool} {c : CodePoint} {kind : Kind} {text : Text}
    (h : Lexes regexAllowed c (w ++ more) ⟨kind, text, left ++ more⟩) :
    Lexes regexAllowed c w ⟨kind, text, left⟩ := by
  have hText : text ++ left = c :: w := append_of_append_append (readLexeme_append h.readLexeme_eq)
  -- The text and the lexeme are sums, so the ways of reading are told apart under names for them.
  generalize hCs : w ++ more = cs at h
  generalize hLexeme : Lexeme.mk kind text (left ++ more) = lexeme at h
  cases h with
  | @block rest cut hClose =>
      obtain ⟨rfl, rfl, _⟩ := Lexeme.mk.inj hLexeme
      obtain rfl := (List.cons.inj hText).2
      exact .block (closeComment_isClosed.alone hClose left)
  | line rest =>
      obtain ⟨⟨run, others⟩, hSpan⟩ : ∃ cut, spanWhile (· != .char '\n') rest = cut := ⟨_, rfl⟩
      have hCut : spanWhile (· != .char '\n') (.char '/' :: rest) = (.char '/' :: run, others) :=
        congrArg (Cut.cons '/') hSpan
      rw [hCut] at hLexeme
      obtain ⟨rfl, rfl, rfl⟩ := Lexeme.mk.inj hLexeme
      obtain rfl := (List.cons.inj hText).2
      have hRun := (spanWhile_eq_iff.mp hSpan).2
      have hShort : spanWhile (· != .char '\n') (.char '/' :: (run ++ left)) =
          (.char '/' :: run, left) :=
        congrArg (Cut.cons '/') (spanWhile_eq_iff.mpr ⟨rfl, hRun.short⟩)
      have hLine : Lexes regexAllowed '/' (.char '/' :: (run ++ left)) _ := .line (run ++ left)
      rw [hShort] at hLine
      exact hLine
  | slash hBlock hLine =>
      subst hCs
      have hSlash : Lexes regexAllowed '/' w _ :=
        .slash (fun hHead => hBlock (head?_of_append hHead more))
          (fun hHead => hLine (head?_of_append hHead more))
      rw [slashLexeme_short hLexeme.symm] at hSlash
      exact hSlash
  | @string quote rest cut hQuote hClose =>
      obtain ⟨rfl, rfl, _⟩ := Lexeme.mk.inj hLexeme
      obtain rfl := (List.cons.inj hText).2
      exact .string hQuote ((closeString_isClosed c).alone hClose left)
  | plain hSlash hQuote =>
      subst hCs
      have hPlain : Lexes regexAllowed c w _ := .plain hSlash hQuote
      rw [plainLexeme_short hLexeme.symm] at hPlain
      exact hPlain

end Readers

/-- What a scan has passed is a script by itself. -/
theorem Reaches.exists_passed {line : Nat} {last : Option Token} {cs ahead : Text}
    {tokens : List Token} (h : Reaches line last cs tokens ahead) :
    ∃ passed, cs = passed ++ ahead ∧ Scans line last passed tokens := by
  induction h with
  | here line last cs => exact ⟨[], rfl, .done line last⟩
  | space hSpace _ ih =>
      obtain ⟨passed, rfl, hScans⟩ := ih
      exact ⟨_, rfl, .space hSpace hScans⟩
  | @token line last c rest ahead tokens lexeme hSpace hLexes _ ih =>
      obtain ⟨passed, hRest, hScans⟩ := ih
      obtain ⟨kind, text, others⟩ := lexeme
      obtain rfl : others = passed ++ ahead := hRest
      have hAppend : text ++ (passed ++ ahead) = c :: rest := readLexeme_append hLexes.readLexeme_eq
      have hFilled : text ≠ [] := readLexeme_text_ne_nil hLexes.readLexeme_eq
      obtain ⟨d, text, rfl⟩ := List.exists_cons_of_ne_nil hFilled
      rw [List.cons_append, ← List.append_assoc] at hAppend
      obtain ⟨rfl, rfl⟩ := List.cons.inj hAppend
      have hShort := hLexes.short
      have hNext := Scans.token hSpace hShort.readLexeme_eq hScans
      exact ⟨d :: (text ++ passed), rfl, hNext⟩

/-- A text that is cut off between two tokens has the tokens so far. -/
theorem Reaches.tokenize_take {text : Text} {tokens : List Token} {place : Nat}
    (h : Reaches 1 none text tokens (text.drop place)) :
    tokenize (text.take place) = .ok tokens := by
  obtain ⟨passed, hSplit, hScans⟩ := h.exists_passed
  have hTake : text.take place = passed :=
    List.append_cancel_right ((List.take_append_drop place text).trans hSplit)
  rw [hTake]
  exact hScans.scanFrom_eq

/-- A scan that fails has come to a construct that is left open. -/
theorem exists_reaches_of_error {line : Nat} {last : Option Token} {cs : Text}
    {fault : Unterminated} (h : scanFrom line last cs = .error fault) :
    ∃ tokens c rest, Reaches line last cs tokens (c :: rest) ∧ LeavesOpen c rest fault.construct ∧
      fault.line + Text.newlines (c :: rest) = line + Text.newlines cs := by
  fun_induction scanFrom line last cs with
  | case1 line last => cases h
  | case2 line last c rest hSpace ih =>
      obtain ⟨tokens, d, others, hReaches, hOpen, hLine⟩ := ih h
      refine ⟨tokens, d, others, .space hSpace hReaches, hOpen, ?_⟩
      rw [hLine, Nat.add_assoc, ← Text.newlines_append, List.singleton_append]
  | case3 line last c rest hSpace construct hOpen =>
      cases h
      exact ⟨[], c, rest, .here _ _ _, .of_readLexeme hOpen, rfl⟩
  | case4 line last c rest hSpace lexeme hRead t ih =>
      cases hScan :
          scanFrom (line + Text.newlines lexeme.text) (significant last t) lexeme.rest with
      | ok tokens =>
          rw [hScan] at h
          cases h
      | error other =>
          rw [hScan] at h
          cases h
          obtain ⟨tokens, d, others, hReaches, hOpen, hLine⟩ := ih hScan
          have hSpace := Bool.eq_false_iff.mpr hSpace
          refine ⟨t :: tokens, d, others, .token hSpace (.of_readLexeme hRead) hReaches, hOpen, ?_⟩
          rw [hLine, Nat.add_assoc, ← Text.newlines_append, readLexeme_append hRead]

/-- The text begins with a comment that is not closed. -/
def OpensComment (t : Text) : Prop :=
  ∃ inner : Text, t = "/*" ++ inner ∧ ∀ before after : Text, inner ≠ before ++ "*/" ++ after

/-- The text begins with a string that is not closed. -/
def OpensString (t : Text) : Prop :=
  ∃ quote inner, isQuote quote = true ∧ t = quote :: inner ∧
    ∀ body more, StringBody quote body → inner ≠ body ++ quote :: more

/-- The words of the fault are about what the text leaves open at its beginning. -/
def Unterminated.Describes (fault : Unterminated) (t : Text) : Prop :=
  fault.message = s!"Unterminated comment starting on line {fault.line}" ∧ OpensComment t ∨
    fault.message = s!"Unterminated string starting on line {fault.line}" ∧ OpensString t

/-- The fault is about what the text leaves open at a place, and gives the line of that place. -/
structure Unterminated.IsAt (fault : Unterminated) (text : Text) (place : Nat) : Prop where
  line : fault.line = 1 + Text.newlines (text.take place)
  opens : fault.Describes (text.drop place)

/-- The fault names what is open. -/
theorem LeavesOpen.describes {c : CodePoint} {rest : Text} {fault : Unterminated}
    (h : LeavesOpen c rest fault.construct) : fault.Describes (c :: rest) := by
  obtain ⟨construct, line⟩ := fault
  cases h with
  | @comment inner hOpen =>
      refine .inl ⟨rfl, inner, rfl, ?_⟩
      rintro before after rfl
      exact closeComment_ne_none before after hOpen
  | string hQuote hOpen =>
      refine .inr ⟨rfl, c, rest, hQuote, rfl, ?_⟩
      rintro body more hBody rfl
      rw [hBody.closeString_eq hQuote] at hOpen
      cases hOpen

/-- A script that is refused leaves a comment or a string open at a place that the scan comes to: up
to there the script is fine, and the fault tells what is open and on which line. A script that is
read can be cut behind each of its tokens, and then has the tokens up to that one. -/
theorem tokenize_faults_and_cuts (text : Text) :
    (∀ fault, tokenize text = .error fault →
      ∃ place tokens, tokenize (text.take place) = .ok tokens ∧ fault.IsAt text place) ∧
    ∀ tokens, tokenize text = .ok tokens →
      ∃ spans : List Span, spans.map Span.token = tokens ∧ Placed text 0 spans ∧
        ∀ before span after, spans = before ++ span :: after →
          tokenize (text.take span.stop) = .ok ((before ++ [span]).map Span.token) := by
  constructor
  · intro fault hFault
    obtain ⟨tokens, c, rest, hReaches, hOpen, hLine⟩ := exists_reaches_of_error hFault
    obtain ⟨passed, hText, _⟩ := hReaches.exists_passed
    have hDrop : text.drop passed.length = c :: rest := by
      rw [hText, List.drop_left]
    have hCount : Text.newlines text =
        Text.newlines (text.take passed.length) + Text.newlines (c :: rest) := by
      rw [← hDrop, ← Text.newlines_append, List.take_append_drop]
    rw [← hDrop] at hReaches
    refine ⟨passed.length, tokens, hReaches.tokenize_take, ?_, ?_⟩
    · omega
    · rw [hDrop]
      exact hOpen.describes
  · intro tokens hTokens
    obtain ⟨spans, hSpans, hPlaced, hRead⟩ := exists_readAt hTokens
    refine ⟨spans, hSpans, hPlaced, ?_⟩
    intro before span after hSplit
    exact (hRead before span after hSplit).2.tokenize_take

/-- A comment whose opening mark looks like a closing one, behind a string with both marks. -/
def openCommentScript : Text :=
  "a = '/* \\' */';\n/*/ b"

/-- A string that ends with an escaped quote, behind one that goes over two lines. -/
def openStringScript : Text :=
  "`\n`\n/ 2 + \"it\\\""

/-- Numbers, names and regular expressions that look further ahead than they reach. -/
def cutScript : Text :=
  "1.5e+ /[/]/gi.x /a\n.b.5//"

def cutTokens : List Token :=
  [⟨.number, "1.5", 1⟩, ⟨.name, "e", 1⟩, ⟨.punctuation, "+", 1⟩, ⟨.regex, "/[/]/gi", 1⟩,
    ⟨.punctuation, ".", 1⟩, ⟨.name, "x", 1⟩, ⟨.punctuation, "/", 1⟩, ⟨.name, "a", 1⟩,
    ⟨.punctuation, ".", 2⟩, ⟨.name, "b", 2⟩, ⟨.number, ".5", 2⟩, ⟨.comment, "//", 2⟩]

theorem tokenize_faults_and_cuts_scripts :
    (tokenize openCommentScript = .error ⟨.comment, 2⟩ ∧
      ∃ place tokens, tokenize (openCommentScript.take place) = .ok tokens ∧
        Unterminated.IsAt ⟨.comment, 2⟩ openCommentScript place) ∧
    (tokenize openStringScript = .error ⟨.string, 3⟩ ∧
      ∃ place tokens, tokenize (openStringScript.take place) = .ok tokens ∧
        Unterminated.IsAt ⟨.string, 3⟩ openStringScript place) ∧
    tokenize cutScript = .ok cutTokens ∧
      ∃ spans : List Span, spans.map Span.token = cutTokens ∧ Placed cutScript 0 spans ∧
        ∀ before span after, spans = before ++ span :: after →
          tokenize (cutScript.take span.stop) = .ok ((before ++ [span]).map Span.token) := by
  have hComment : tokenize openCommentScript = .error ⟨.comment, 2⟩ := by decide +kernel
  have hString : tokenize openStringScript = .error ⟨.string, 3⟩ := by decide +kernel
  have hTokens : tokenize cutScript = .ok cutTokens := by decide +kernel
  exact ⟨⟨hComment, (tokenize_faults_and_cuts openCommentScript).1 _ hComment⟩,
    ⟨hString, (tokenize_faults_and_cuts openStringScript).1 _ hString⟩,
    hTokens, (tokenize_faults_and_cuts cutScript).2 cutTokens hTokens⟩

end ScriptDoc.Token
