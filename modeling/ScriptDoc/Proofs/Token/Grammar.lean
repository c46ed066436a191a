import ScriptDoc.Proofs.Text.Lines
import ScriptDoc.Proofs.Token.Pieces

/-! The grammar of tokens. Every class of tokens has a grammar of its own, stated without the
readers, and every reader takes exactly a text of its grammar: what it takes belongs to it, and what
belongs to it is taken. -/
namespace ScriptDoc.Token

/-! Runs of characters, and numbers. -/

/-- A run of accepted characters in front of a rest that does not go on with it. -/
structure IsRun (p : CodePoint → Bool) (run rest : Text) : Prop where
  accepted : ∀ c ∈ run, p c = true
  stop : ∀ c ∈ rest.head?, p c = false

/-- Splitting at the first character that is not accepted gives the only run. -/
theorem spanWhile_eq_iff {p : CodePoint → Bool} {cs run rest : Text} :
    spanWhile p cs = (run, rest) ↔ cs = run ++ rest ∧ IsRun p run rest := by
  constructor
  · intro h
    obtain ⟨hRun, hRest⟩ := Prod.mk.inj h
    refine ⟨?_, ?_, ?_⟩
    · rw [← spanWhile_append p cs, h]
    · intro c hMem
      rw [← hRun] at hMem
      exact List.mem_takeWhile_imp hMem
    · intro c hHead
      have hNot := List.head?_dropWhile_not p cs
      rw [hRest, Option.mem_def.mp hHead] at hNot
      exact hNot
  · rintro ⟨rfl, hAccepted, hStop⟩
    cases rest with
    | nil =>
        simp [spanWhile, List.takeWhile_eq_self_iff.mpr hAccepted,
          List.dropWhile_eq_nil_iff.mpr hAccepted]
    | cons c rest =>
        have hHead : p c = false := hStop c rfl
        rw [spanWhile_append_of_stop hHead]
        simp [spanWhile, Cut.followedBy, List.takeWhile_eq_self_iff.mpr hAccepted,
          List.dropWhile_eq_nil_iff.mpr hAccepted]

/-- A mark, and behind it at least one accepted character and no others. -/
def IsMarked (IsMark : Text → Prop) (p : CodePoint → Bool) (t : Text) : Prop :=
  ∃ mark run, IsMark mark ∧ run ≠ [] ∧ (∀ c ∈ run, p c = true) ∧ t = mark ++ run

/-- The marks of numbers in base sixteen. -/
def IsHexMark (mark : Text) : Prop :=
  ∃ x, (x = .char 'x' ∨ x = .char 'X') ∧ mark = [.char '0', x]

/-- The marks of exponents: a letter with a sign or without. -/
def IsExponentMark (mark : Text) : Prop :=
  ∃ e sign, (e = .char 'e' ∨ e = .char 'E') ∧
    (sign = [] ∨ sign = [.char '+'] ∨ sign = [.char '-']) ∧ mark = e :: sign

/-- A point and at least one digit. -/
def IsFraction : Text → Prop :=
  IsMarked (· = [.char '.']) Text.isDecimal

/-- A letter `e`, an optional sign and at least one digit. -/
def IsExponent : Text → Prop :=
  IsMarked IsExponentMark Text.isDecimal

/-- Numbers: in base sixteen, or digits with an optional fraction and an optional exponent, or a
fraction alone. -/
inductive IsNumber : Text → Prop
  | hex {t : Text} (h : IsMarked IsHexMark isHexDigit t) : IsNumber t
  | decimal {digits fraction exponent : Text} (hFilled : digits ≠ [])
      (hDigits : ∀ c ∈ digits, Text.isDecimal c = true)
      (hFraction : fraction = [] ∨ IsFraction fraction)
      (hExponent : exponent = [] ∨ IsExponent exponent) : IsNumber (digits ++ fraction ++ exponent)
  | fraction {t : Text} (h : IsFraction t) : IsNumber t

/-- A reader that takes a mark and the whole run of accepted characters behind it, and takes nothing
if there is no such run. -/
def ReadsMarked (read : Text → Option Cut) (IsMark : Text → Prop) (p : CodePoint → Bool) : Prop :=
  ∀ cs cut, read cs = some cut ↔
    ∃ mark c rest, IsMark mark ∧ p c = true ∧ cs = mark ++ c :: rest ∧
      cut = (mark ++ (spanWhile p (c :: rest)).1, (spanWhile p (c :: rest)).2)

theorem fraction?_readsMarked : ReadsMarked fraction? (· = [.char '.']) Text.isDecimal := by
  intro cs cut
  constructor
  · intro h
    unfold fraction? at h
    split at h
    · next c rest =>
        split at h
        · next hDigit =>
            cases h
            exact ⟨_, c, rest, rfl, hDigit, rfl, rfl⟩
        · cases h
    · cases h
  · rintro ⟨_, c, rest, rfl, hDigit, rfl, rfl⟩
    simp [fraction?, hDigit, Cut.cons]

theorem hexNumber?_readsMarked : ReadsMarked hexNumber? IsHexMark isHexDigit := by
  intro cs cut
  constructor
  · intro h
    unfold hexNumber? at h
    split at h
    · next x c rest =>
        split at h
        · next hHex =>
            cases h
            exact ⟨_, c, rest, ⟨x, hHex.1, rfl⟩, hHex.2, rfl, rfl⟩
        · cases h
    · cases h
  · rintro ⟨_, c, rest, ⟨x, hMark, rfl⟩, hDigit, rfl, rfl⟩
    simp [hexNumber?, hMark, hDigit, Cut.cons]

theorem exponent?_readsMarked : ReadsMarked exponent? IsExponentMark Text.isDecimal := by
  intro cs cut
  constructor
  · intro h
    unfold exponent? at h
    split at h
    · next e s c rest =>
        split at h
        · next hMark =>
            split at h
            · next hDigit =>
                cases h
                exact ⟨[e], s, c :: rest, ⟨e, [], hMark, .inl rfl, rfl⟩, hDigit, rfl, rfl⟩
            · split at h
              · next hSigned =>
                  cases h
                  refine ⟨[e, s], c, rest, ⟨e, [s], hMark, .inr ?_, rfl⟩, hSigned.2, rfl, rfl⟩
                  simpa using hSigned.1
              · cases h
        · cases h
    · next e s =>
        split at h
        · next hMark =>
            cases h
            refine ⟨[e], s, [], ⟨e, [], hMark.1, .inl rfl, rfl⟩, hMark.2, rfl, ?_⟩
            simp [spanWhile, hMark.2]
        · cases h
    · cases h
  · rintro ⟨_, c, rest, ⟨e, sign, hMark, hSign, rfl⟩, hDigit, rfl, rfl⟩
    have hPlus : Text.isDecimal '+' = false := by decide
    have hMinus : Text.isDecimal '-' = false := by decide
    rcases hSign with rfl | rfl | rfl
    · cases rest with
      | nil => simp [exponent?, hMark, hDigit, spanWhile]
      | cons d rest => simp [exponent?, hMark, hDigit, Cut.cons]
    · simp [exponent?, hMark, hDigit, hPlus, Cut.cons]
    · simp [exponent?, hMark, hDigit, hMinus, Cut.cons]

/-- What is read begins with a mark. -/
theorem ReadsMarked.isMarked {read : Text → Option Cut} {IsMark : Text → Prop}
    {p : CodePoint → Bool} (h : ReadsMarked read IsMark p) {cs : Text} {cut : Cut}
    (hRead : read cs = some cut) :
    IsMarked IsMark p cut.1 := by
  obtain ⟨mark, c, rest, hMark, hFirst, _, rfl⟩ := (h cs cut).mp hRead
  refine ⟨mark, _, hMark, ?_, fun _ => List.mem_takeWhile_imp, rfl⟩
  simp [hFirst]

theorem Cut.extend_of_none {cut : Cut} {part : Text → Option Cut} (h : part cut.2 = none) :
    cut.extend part = cut := by
  rw [Cut.extend, h]

theorem Cut.extend_of_some {cut found : Cut} {part : Text → Option Cut}
    (h : part cut.2 = some found) : cut.extend part = (cut.1 ++ found.1, found.2) := by
  rw [Cut.extend, h]

/-- A part that is read or left out. -/
theorem ReadsMarked.exists_extend {read : Text → Option Cut} {IsMark : Text → Prop}
    {p : CodePoint → Bool} (h : ReadsMarked read IsMark p) (cut : Cut) :
    ∃ part, (part = [] ∨ IsMarked IsMark p part) ∧ (cut.extend read).1 = cut.1 ++ part := by
  cases hFound : read cut.2 with
  | none => exact ⟨[], .inl rfl, by rw [Cut.extend_of_none hFound, List.append_nil]⟩
  | some found =>
      exact ⟨found.1, .inr (h.isMarked hFound), by rw [Cut.extend_of_some hFound]⟩

/-- A number is hexadecimal, or a fraction alone, or digits with a fraction and an exponent if there
are any. -/
theorem number?_eq (cs : Text) :
    number? cs = (hexNumber? cs).or
      (if (spanWhile Text.isDecimal cs).1 = [] then fraction? cs
        else some (((spanWhile Text.isDecimal cs).extend fraction?).extend exponent?)) := by
  unfold number?
  cases hexNumber? cs with
  | some cut => rfl
  | none =>
      obtain ⟨digits, rest⟩ := spanWhile Text.isDecimal cs
      cases digits with
      | nil => rfl
      | cons digit digits => rfl

/-- What is read as a number is one. -/
theorem number?_isNumber {cs : Text} {cut : Cut} (h : number? cs = some cut) : IsNumber cut.1 := by
  rw [number?_eq] at h
  rcases Option.or_eq_some_iff.mp h with hHex | ⟨_, hDecimal⟩
  · exact .hex (hexNumber?_readsMarked.isMarked hHex)
  · split at hDecimal
    · exact .fraction (fraction?_readsMarked.isMarked hDecimal)
    · next hDigits =>
        cases hDecimal
        obtain ⟨fraction, hFraction, hFirst⟩ := fraction?_readsMarked.exists_extend
          (spanWhile Text.isDecimal cs)
        obtain ⟨exponent, hExponent, hSecond⟩ := exponent?_readsMarked.exists_extend
          ((spanWhile Text.isDecimal cs).extend fraction?)
        rw [hSecond, hFirst]
        exact .decimal hDigits (fun _ => List.mem_takeWhile_imp) hFraction hExponent

/-- There is no number if none of its forms begins here. -/
theorem number?_eq_none_iff {cs : Text} :
    number? cs = none ↔
      hexNumber? cs = none ∧ (spanWhile Text.isDecimal cs).1 = [] ∧ fraction? cs = none := by
  rw [number?_eq, Option.or_eq_none_iff]
  refine and_congr_right fun _ => ?_
  by_cases hDigits : (spanWhile Text.isDecimal cs).1 = []
  · rw [if_pos hDigits, and_iff_right hDigits]
  · simp [hDigits]

/-- Where no number begins there is no digit, and no point before a digit. -/
theorem not_isDecimal_of_number?_eq_none {c : CodePoint} {rest : Text}
    (h : number? (c :: rest) = none) :
    Text.isDecimal c = false ∧ (c = '.' → ∀ d ∈ rest.head?, Text.isDecimal d = false) := by
  obtain ⟨_, hDigits, hFraction⟩ := number?_eq_none_iff.mp h
  constructor
  · by_contra hDigit
    simp [spanWhile, hDigit] at hDigits
  · rintro rfl d hHead
    obtain ⟨others, rfl⟩ := List.head?_eq_some_iff.mp hHead
    by_contra hDigit
    simp [fraction?, hDigit] at hFraction

/-! Names. -/

/-- Identifiers with dots between them, at least one. -/
def IsDottedName (t : Text) : Prop :=
  ∃ names, names ≠ [] ∧ (∀ name ∈ names, IsIdentifier name) ∧ t = List.intercalate [.char '.'] names

/-- A name could go on with the text: it begins with a part of an identifier, or with a dot and the
beginning of one. -/
def GoesOnName (t : Text) : Prop :=
  (∃ c ∈ t.head?, isNamePart c = true) ∨ ∃ c rest, t = .char '.' :: c :: rest ∧ isNameStart c = true

/-- What may stand behind the first character of a dotted name. -/
inductive NameTail : Text → Prop
  | nil : NameTail []
  | part {c : CodePoint} {rest : Text} (hPart : isNamePart c = true) (h : NameTail rest) :
      NameTail (c :: rest)
  | dot {c : CodePoint} {rest : Text} (hStart : isNameStart c = true) (h : NameTail rest) :
      NameTail (.char '.' :: c :: rest)

theorem ne_dot_of_isNamePart {c : CodePoint} (h : isNamePart c = true) : c ≠ '.' := by
  rintro rfl
  exact absurd h (by decide +kernel)

theorem isNamePart_of_isNameStart {c : CodePoint} (h : isNameStart c = true) :
    isNamePart c = true := by
  simp only [isNameStart, Bool.or_eq_true] at h
  simp only [isNamePart, Text.isWord, Text.isAlphanumeric, Bool.or_eq_true]
  rcases h with (hLetter | hLow) | hDollar
  · exact .inl (.inl (.inl (.inl hLetter)))
  · exact .inl (.inr hLow)
  · exact .inr hDollar

theorem nameTail_of_not_goesOnName {t : Text} (h : ¬ GoesOnName t) : nameTail t = ([], t) := by
  cases t with
  | nil => rfl
  | cons c rest =>
      obtain ⟨hPart, hDotted⟩ := not_or.mp h
      have hNot : isNamePart c = false := by
        by_contra hIs
        exact hPart ⟨c, rfl, Bool.not_eq_false _ ▸ hIs⟩
      by_cases hDot : c = '.'
      · subst hDot
        cases rest with
        | nil => simp [nameTail, hNot]
        | cons d rest =>
            have hStart : ¬ isNameStart d = true := fun hIs => hDotted ⟨d, rest, rfl, hIs⟩
            simp [nameTail, hStart]
      · rw [nameTail_cons_of_ne hDot, hNot]
        rfl

/-- A name goes on as long as it can. -/
theorem nameTail_eq_iff {cs taken left : Text} :
    nameTail cs = (taken, left) ↔ cs = taken ++ left ∧ NameTail taken ∧ ¬ GoesOnName left := by
  constructor
  · intro h
    have hAppend := nameTail_append cs
    rw [h] at hAppend
    refine ⟨hAppend.symm, ?_⟩
    fun_induction nameTail cs generalizing taken left with
    | case1 c rest hStart ih =>
        cases h
        obtain ⟨hTail, hStop⟩ := ih rfl (nameTail_append rest)
        exact ⟨.dot hStart hTail, hStop⟩
    | case2 c rest hStart =>
        cases h
        refine ⟨.nil, ?_⟩
        rintro (⟨d, hHead, hPart⟩ | ⟨d, others, hSplit, hIs⟩)
        · cases hHead
          exact ne_dot_of_isNamePart hPart rfl
        · cases hSplit
          exact hStart hIs
    | case3 c rest _ hPart ih =>
        cases h
        obtain ⟨hTail, hStop⟩ := ih rfl (nameTail_append rest)
        exact ⟨.part hPart hTail, hStop⟩
    | case4 c rest hLone hPart =>
        cases h
        refine ⟨.nil, ?_⟩
        rintro (⟨d, hHead, hIs⟩ | ⟨d, others, hSplit, _⟩)
        · cases hHead
          exact hPart hIs
        · cases hSplit
          exact hLone d others rfl rfl
    | case5 =>
        cases h
        refine ⟨.nil, ?_⟩
        rintro (⟨d, hHead, _⟩ | ⟨d, others, hSplit, _⟩)
        · cases hHead
        · cases hSplit
  · rintro ⟨rfl, hTail, hStop⟩
    induction hTail with
    | nil => exact nameTail_of_not_goesOnName hStop
    | part hPart _ ih =>
        rw [List.cons_append, nameTail_cons_of_ne (ne_dot_of_isNamePart hPart), if_pos hPart, ih]
        rfl
    | dot hStart _ ih =>
        rw [List.cons_append, List.cons_append, nameTail, if_pos hStart, ih]
        rfl

/-- A tail is the rest of one identifier and others with a dot before each. -/
theorem NameTail.exists_names {tail : Text} (h : NameTail tail) :
    ∃ (part : Text) (names : List Text), (∀ c ∈ part, isNamePart c = true) ∧
      (∀ name ∈ names, IsIdentifier name) ∧
      tail = part ++ names.flatMap (.char '.' :: ·) := by
  induction h with
  | nil => exact ⟨[], [], List.forall_mem_nil _, List.forall_mem_nil _, rfl⟩
  | @part c rest hPart _ ih =>
      obtain ⟨part, names, hParts, hNames, rfl⟩ := ih
      exact ⟨c :: part, names, List.forall_mem_cons.mpr ⟨hPart, hParts⟩, hNames, rfl⟩
  | @dot c rest hStart _ ih =>
      obtain ⟨part, names, hParts, hNames, rfl⟩ := ih
      have hName : IsIdentifier (c :: part) :=
        ⟨⟨c, rfl, hStart⟩, List.forall_mem_cons.mpr ⟨isNamePart_of_isNameStart hStart, hParts⟩⟩
      exact ⟨[], (c :: part) :: names, List.forall_mem_nil _,
        List.forall_mem_cons.mpr ⟨hName, hNames⟩, rfl⟩

/-- A letter and a tail make a name with dots. -/
theorem NameTail.isDottedName {c : CodePoint} {tail : Text} (hStart : isNameStart c = true)
    (h : NameTail tail) : IsDottedName (c :: tail) := by
  obtain ⟨part, names, hParts, hNames, rfl⟩ := h.exists_names
  have hName : IsIdentifier (c :: part) :=
    ⟨⟨c, rfl, hStart⟩, List.forall_mem_cons.mpr ⟨isNamePart_of_isNameStart hStart, hParts⟩⟩
  refine ⟨(c :: part) :: names, List.cons_ne_nil _ _, List.forall_mem_cons.mpr ⟨hName, hNames⟩, ?_⟩
  rw [Text.intercalate_cons, List.cons_append]

/-! Comments. -/

/-- The text ends with a star and a slash, and nowhere earlier do a star and a slash stand. -/
structure EndsAtMark (t : Text) : Prop where
  ends : ∃ body : Text, t = body ++ "*/"
  first : ∀ before after : Text, t = before ++ "*/" ++ after → after = []

/-- A comment between marks; the closing one is the first behind the opening one. -/
def IsBlockComment (t : Text) : Prop :=
  ∃ inner : Text, t = "/*" ++ inner ∧ EndsAtMark inner

/-- A comment that goes to the end of its line. -/
def IsLineComment (t : Text) : Prop :=
  (∃ body : Text, t = "//" ++ body) ∧ .char '\n' ∉ t

/-- A comment ends at the first mark. -/
theorem closeComment_endsAtMark {cs : Text} {cut : Cut} (h : closeComment cs = some cut) :
    EndsAtMark cut.1 := by
  fun_induction closeComment cs generalizing cut with
  | case1 => cases h
  | case2 rest =>
      cases h
      refine ⟨⟨[], rfl⟩, ?_⟩
      intro before after hSplit
      have hLength : 2 = before.length + 2 + after.length := by
        have hSame := congrArg List.length hSplit
        rw [List.length_append, List.length_append] at hSame
        exact hSame
      exact List.length_eq_zero_iff.mp (by omega)
  | case3 c rest hNotEnd ih =>
      obtain ⟨inner, hInner, rfl⟩ := Option.map_eq_some_iff.mp h
      obtain ⟨⟨body, hBody⟩, hFirst⟩ := ih hInner
      refine ⟨⟨c :: body, congrArg (c :: ·) hBody⟩, ?_⟩
      intro before after hSplit
      cases before with
      | nil =>
          -- Marks at the very beginning would have ended the comment there.
          obtain ⟨rfl, hTaken⟩ := List.cons.inj hSplit
          refine (hNotEnd (after ++ inner.2) rfl ?_).elim
          rw [← closeComment_append hInner, hTaken]
          rfl
      | cons d before => exact hFirst before after (List.cons.inj hSplit).2

/-- A comment is left open only if it is nowhere closed. -/
theorem closeComment_ne_none (before after : Text) :
    closeComment (before ++ "*/" ++ after) ≠ none := by
  induction before with
  | nil => exact Option.some_ne_none _
  | cons c before ih =>
      rw [List.cons_append, List.cons_append]
      unfold closeComment
      split
      · next hSplit => cases hSplit
      · exact Option.some_ne_none _
      · next hSplit =>
          obtain ⟨rfl, rfl⟩ := List.cons.inj hSplit
          rwa [ne_eq, Option.map_eq_none_iff]

/-! Strings. -/

/-- What may stand between quotes: pairs of a backslash and any character, and characters other than
the quote and the backslash. A line feed stands by itself only between backticks. -/
inductive StringBody (quote : CodePoint) : Text → Prop
  | nil : StringBody quote []
  | escape (c : CodePoint) {rest : Text} (h : StringBody quote rest) :
      StringBody quote (.char '\\' :: c :: rest)
  | plain {c : CodePoint} {rest : Text} (hQuote : c ≠ quote) (hEscape : c ≠ '\\')
      (hLine : c = '\n' → quote = '`') (h : StringBody quote rest) : StringBody quote (c :: rest)

theorem Cut.fst_cons {cut : Cut} {body last : Text} (h : cut.1 = body ++ last) (c : CodePoint) :
    (cut.cons c).1 = c :: body ++ last :=
  congrArg (c :: ·) h

/-- What is read up to a quote is the inside of a string. -/
theorem exists_stringBody_of_closeString {quote : CodePoint} {cs : Text} {cut : Cut}
    (h : closeString quote cs = some cut) :
    ∃ body, StringBody quote body ∧ cut.1 = body ++ [quote] := by
  fun_induction closeString quote cs generalizing cut with
  | case1 => cases h
  | case2 c rest ih =>
      obtain ⟨inner, hInner, rfl⟩ := Option.map_eq_some_iff.mp h
      obtain ⟨body, hBody, hTaken⟩ := ih hInner
      exact ⟨_, .escape c hBody, Cut.fst_cons (Cut.fst_cons hTaken c) _⟩
  | case3 => cases h
  | case4 =>
      cases h
      exact ⟨[], .nil, rfl⟩
  | case5 => cases h
  | case6 c rest _ hEscape hOther hLine ih =>
      obtain ⟨inner, hInner, rfl⟩ := Option.map_eq_some_iff.mp h
      obtain ⟨body, hBody, hTaken⟩ := ih hInner
      refine ⟨_, .plain hOther hEscape ?_ hBody, Cut.fst_cons hTaken c⟩
      intro hFeed
      by_contra hNot
      exact hLine ⟨hFeed, hNot⟩

/-- The inside of a string is read up to its quote, whatever follows. -/
theorem StringBody.closeString_eq {quote : CodePoint} (hQuote : isQuote quote = true) {body : Text}
    (h : StringBody quote body) (left : Text) :
    closeString quote (body ++ quote :: left) = some (body ++ [quote], left) := by
  induction h with
  | nil =>
      have hNot : quote ≠ '\\' := by
        rintro rfl
        cases hQuote
      rw [List.nil_append, closeString_cons_of_ne hNot, if_pos rfl]
      rfl
  | escape c _ ih =>
      rw [List.cons_append, List.cons_append, closeString, ih]
      rfl
  | @plain c body hOther hEscape hLine _ ih =>
      have hStays : ¬ (c = '\n' ∧ quote ≠ '`') := fun hEnd => hEnd.2 (hLine hEnd.1)
      rw [List.cons_append, closeString_cons_of_ne hEscape, if_neg hOther, if_neg hStays, ih]
      rfl

/-! Regular expressions. -/

/-- What may stand in a bracketed class. -/
inductive ClassBody : Text → Prop
  | nil : ClassBody []
  | escape (c : CodePoint) {rest : Text} (h : ClassBody rest) : ClassBody (.char '\\' :: c :: rest)
  | plain {c : CodePoint} {rest : Text} (hClose : c ≠ ']') (hEscape : c ≠ '\\') (hLine : c ≠ '\n')
      (h : ClassBody rest) : ClassBody (c :: rest)

/-- What may stand between the slashes of a regular expression: pairs of a backslash and any
character, bracketed classes, and characters other than slashes, opening brackets, backslashes and
line feeds. -/
inductive RegexBody : Text → Prop
  | nil : RegexBody []
  | escape (c : CodePoint) {rest : Text} (h : RegexBody rest) : RegexBody (.char '\\' :: c :: rest)
  | group {inner rest : Text} (hInner : ClassBody inner) (h : RegexBody rest) :
      RegexBody (.char '[' :: (inner ++ .char ']' :: rest))
  | plain {c : CodePoint} {rest : Text} (hSlash : c ≠ '/') (hOpen : c ≠ '[') (hEscape : c ≠ '\\')
      (hLine : c ≠ '\n') (h : RegexBody rest) : RegexBody (c :: rest)

/-- What may stand before the closing slash, outside or inside of a class. -/
def RegexRest (inClass : Bool) (t : Text) : Prop :=
  match inClass with
  | false => RegexBody t
  | true => ∃ inner rest, ClassBody inner ∧ RegexBody rest ∧ t = inner ++ .char ']' :: rest

/-- A bracket opens a class. -/
theorem RegexRest.open {inClass : Bool} {t : Text} (h : RegexRest true t) :
    RegexRest inClass (.char '[' :: t) := by
  obtain ⟨inner, rest, hInner, hRest, rfl⟩ := h
  cases inClass with
  | false => exact .group hInner hRest
  | true => exact ⟨_, rest, .plain (by decide) (by decide) (by decide) hInner, hRest, rfl⟩

/-- A bracket closes a class. -/
theorem RegexRest.close {inClass : Bool} {t : Text} (h : RegexRest false t) :
    RegexRest inClass (.char ']' :: t) := by
  cases inClass with
  | false => exact .plain (by decide) (by decide) (by decide) (by decide) h
  | true => exact ⟨[], t, .nil, h, rfl⟩

/-- Any character can be escaped. -/
theorem RegexRest.escape (c : CodePoint) {inClass : Bool} {t : Text} (h : RegexRest inClass t) :
    RegexRest inClass (.char '\\' :: c :: t) := by
  cases inClass with
  | false => exact RegexBody.escape c h
  | true =>
      obtain ⟨inner, rest, hInner, hRest, rfl⟩ := h
      exact ⟨_, rest, .escape c hInner, hRest, rfl⟩

/-- Other characters change nothing, but for a slash outside of classes. -/
theorem RegexRest.plain {c : CodePoint} {inClass : Bool} {t : Text} (h : RegexRest inClass t)
    (hSlash : ¬ (c = '/' ∧ inClass = false)) (hOpen : c ≠ '[') (hClose : c ≠ ']')
    (hEscape : c ≠ '\\') (hLine : c ≠ '\n') : RegexRest inClass (c :: t) := by
  cases inClass with
  | false => exact RegexBody.plain (fun hSame => hSlash ⟨hSame, rfl⟩) hOpen hEscape hLine h
  | true =>
      obtain ⟨inner, rest, hInner, hRest, rfl⟩ := h
      exact ⟨_, rest, .plain hClose hEscape hLine hInner, hRest, rfl⟩

/-- What is read up to a slash is the rest of a regular expression. -/
theorem exists_regexRest_of_closeRegex {inClass : Bool} {cs : Text} {cut : Cut}
    (h : closeRegex inClass cs = some cut) :
    ∃ body, RegexRest inClass body ∧ cut.1 = body ++ [.char '/'] := by
  fun_induction closeRegex inClass cs generalizing cut with
  | case1 => cases h
  | case2 inClass c rest ih =>
      obtain ⟨inner, hInner, rfl⟩ := Option.map_eq_some_iff.mp h
      obtain ⟨body, hBody, hTaken⟩ := ih hInner
      exact ⟨_, hBody.escape c, Cut.fst_cons (Cut.fst_cons hTaken c) _⟩
  | case3 => cases h
  | case4 inClass rest _ _ ih =>
      obtain ⟨inner, hInner, rfl⟩ := Option.map_eq_some_iff.mp h
      obtain ⟨body, hBody, hTaken⟩ := ih hInner
      exact ⟨_, hBody.open, Cut.fst_cons hTaken _⟩
  | case5 inClass rest _ _ _ ih =>
      obtain ⟨inner, hInner, rfl⟩ := Option.map_eq_some_iff.mp h
      obtain ⟨body, hBody, hTaken⟩ := ih hInner
      exact ⟨_, hBody.close, Cut.fst_cons hTaken _⟩
  | case6 inClass c rest _ _ _ _ hSlash =>
      cases h
      obtain ⟨rfl, rfl⟩ := hSlash
      exact ⟨[], RegexBody.nil, rfl⟩
  | case7 inClass c rest _ hEnd hOpen hClose hSlash ih =>
      obtain ⟨hLine, hEscape⟩ := not_or.mp hEnd
      obtain ⟨inner, hInner, rfl⟩ := Option.map_eq_some_iff.mp h
      obtain ⟨body, hBody, hTaken⟩ := ih hInner
      exact ⟨_, hBody.plain hSlash hOpen hClose hEscape hLine, Cut.fst_cons hTaken c⟩

/-- A class is passed as a whole. -/
theorem ClassBody.closeRegex_eq {inner : Text} (h : ClassBody inner) (rest : Text) :
    closeRegex true (inner ++ .char ']' :: rest) =
      (closeRegex false rest).map fun cut => (inner ++ .char ']' :: cut.1, cut.2) := by
  induction h with
  | nil =>
      rw [List.nil_append, closeRegex_cons_of_ne (by decide), if_neg (by decide),
        if_neg (by decide), if_pos rfl]
      rfl
  | escape c _ ih =>
      rw [List.cons_append, List.cons_append, closeRegex, ih, Option.map_map]
      rfl
  | @plain c inner hClose hEscape hLine _ ih =>
      by_cases hOpen : c = '['
      · rw [List.cons_append, closeRegex_cons_of_ne hEscape, if_neg hLine, if_pos hOpen, ih,
          Option.map_map]
        rfl
      · rw [List.cons_append, closeRegex_cons_of_ne hEscape, if_neg hLine, if_neg hOpen,
          if_neg hClose, if_neg (by simp), ih, Option.map_map]
        rfl

/-- The inside of a regular expression is read up to its slash, whatever follows. -/
theorem RegexBody.closeRegex_eq {body : Text} (h : RegexBody body) (left : Text) :
    closeRegex false (body ++ .char '/' :: left) = some (body ++ [.char '/'], left) := by
  induction h with
  | nil =>
      rw [List.nil_append, closeRegex_cons_of_ne (by decide), if_neg (by decide),
        if_neg (by decide), if_neg (by decide), if_pos ⟨rfl, rfl⟩]
      rfl
  | escape c _ ih =>
      rw [List.cons_append, List.cons_append, closeRegex, ih]
      rfl
  | @group inner rest hInner _ ih =>
      rw [List.cons_append, List.append_assoc, List.cons_append, closeRegex_cons_of_ne (by decide),
        if_neg (by decide), if_pos rfl, hInner.closeRegex_eq, ih]
      simp [Cut.cons]
  | @plain c rest hSlash hOpen hEscape hLine _ ih =>
      by_cases hClose : c = ']'
      · rw [List.cons_append, closeRegex_cons_of_ne hEscape, if_neg hLine, if_neg hOpen,
          if_pos hClose, ih]
        rfl
      · rw [List.cons_append, closeRegex_cons_of_ne hEscape, if_neg hLine, if_neg hOpen,
          if_neg hClose, if_neg fun hEnd => hSlash hEnd.1, ih]
        rfl

/-- The text begins with the rest of a regular expression, behind its first slash. -/
def BeginsRegex (t : Text) : Prop :=
  ∃ body more, RegexBody body ∧ t = body ++ .char '/' :: more

/-- Where no regular expression begins none is read. -/
theorem closeRegex_of_not_beginsRegex {cs : Text} (h : ¬ BeginsRegex cs) :
    closeRegex false cs = none := by
  by_contra hSome
  obtain ⟨⟨taken, left⟩, hClose⟩ := Option.ne_none_iff_exists'.mp hSome
  obtain ⟨body, hBody, rfl⟩ := exists_regexRest_of_closeRegex hClose
  refine h ⟨body, left, hBody, ?_⟩
  rw [← closeRegex_append hClose, List.append_assoc, List.singleton_append]

/-- Where none begins, or none may stand, a slash is a token by itself. -/
theorem slashLexeme_of_not_beginsRegex {regexAllowed : Bool} {rest : Text}
    (h : regexAllowed = true → ¬ BeginsRegex rest) :
    slashLexeme regexAllowed rest = ⟨.punctuation, ['/'], rest⟩ :=
  slashLexeme_of_none fun hAllowed => closeRegex_of_not_beginsRegex (h hAllowed)

/-- A regular expression goes up to its second slash, and over all word characters behind that. -/
theorem RegexBody.slashLexeme_eq {body : Text} (h : RegexBody body) (more : Text) :
    slashLexeme true (body ++ .char '/' :: more) =
      ⟨.regex, .char '/' :: (body ++ .char '/' :: more.takeWhile Text.isWord),
        more.dropWhile Text.isWord⟩ := by
  rw [slashLexeme_of_some (h.closeRegex_eq more) rfl]
  simp [spanWhile]

end ScriptDoc.Token
