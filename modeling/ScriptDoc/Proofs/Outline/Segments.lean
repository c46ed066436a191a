import ScriptDoc.Proofs.Outline.Passing

/-! Bracketed lists, segment by segment. As long as brackets nest, readers of lists see the tokens
outside of inner brackets and no others: a parameter is the first such name of the segment between
two commas, and a list or a value ends at the very token that belongs to it. -/
namespace ScriptDoc.Outline

variable {stack : List Bracket} {body tokens rest : List Token}

/-- Commas divide lists. -/
def isComma (t : Token) : Bool :=
  t.isPunctuation ","

/-- How many brackets are open behind a token. -/
def nestingAfter (nesting : Nat) (t : Token) : Nat :=
  if opens t then nesting + 1 else if closes t then nesting - 1 else nesting

/-- The segments between commas outside of inner brackets, behind a number of brackets that are open.
There is always one, which may be empty. -/
def segmentsFrom (nesting : Nat) : List Token → List (List Token)
  | [] => [[]]
  | t :: rest =>
    if isComma t && nesting == 0 then [] :: segmentsFrom 0 rest
    else (segmentsFrom (nestingAfter nesting t) rest).modifyHead (t :: ·)

/-- The segments of a list. -/
def segments (tokens : List Token) : List (List Token) :=
  segmentsFrom 0 tokens

/-- The first name among tokens. -/
def nameAmong? (tokens : List Token) : Option Text :=
  (tokens.find? Token.isName).map Token.text

theorem filterMap_nameAmong?_cons (first : List Token) (others : List (List Token)) :
    (first :: others).filterMap nameAmong? = (nameAmong? first).toList ++ others.filterMap nameAmong? := by
  rw [List.filterMap_cons]
  cases nameAmong? first <;> rfl

/-- The first name of a segment outside of inner brackets. -/
def firstName? (segment : List Token) : Option Text :=
  nameAmong? (outside 0 segment)

theorem segmentsFrom_ne_nil (nesting : Nat) (tokens : List Token) : segmentsFrom nesting tokens ≠ [] := by
  induction tokens generalizing nesting with
  | nil => exact List.cons_ne_nil _ _
  | cons t tokens ih =>
      rw [segmentsFrom]
      split
      · exact List.cons_ne_nil _ _
      · rw [Ne, List.modifyHead_eq_nil_iff]
        exact ih _

/-- A token is seen if it is no bracket and stands in none. -/
theorem outside_of_seen {t : Token} (hOpen : opens t = false) (hClose : closes t = false)
    (tokens : List Token) : outside 0 (t :: tokens) = t :: outside 0 tokens := by
  simp [outside, hOpen, hClose]

/-- Tokens inside of brackets are left out. -/
theorem outside_of_unseen {t : Token} {nesting : Nat}
    (h : ¬ (nesting = 0 ∧ opens t = false ∧ closes t = false)) (tokens : List Token) :
    outside nesting (t :: tokens) = outside (nestingAfter nesting t) tokens := by
  rw [outside, nestingAfter]
  split
  · rfl
  · next hOpen =>
      split
      · rfl
      · next hClose =>
          rw [if_neg fun hZero => h ⟨hZero, Bool.eq_false_iff.mpr hOpen, Bool.eq_false_iff.mpr hClose⟩]

/-- What stands outside of the brackets is no bracket. -/
theorem not_bracket_of_mem_outside {t : Token} {nesting : Nat} (h : t ∈ outside nesting tokens) :
    opens t = false ∧ closes t = false := by
  fun_induction outside nesting tokens with
  | case1 => cases h
  | case2 nesting first tokens hOpen ih => exact ih h
  | case3 nesting first tokens hOpen hClose ih => exact ih h
  | case4 first tokens hOpen hClose ih =>
      rcases List.mem_cons.mp h with rfl | hMem
      · exact ⟨Bool.eq_false_iff.mpr hOpen, Bool.eq_false_iff.mpr hClose⟩
      · exact ih hMem
  | case5 nesting first tokens hOpen hClose hInside ih => exact ih h

/-- Cutting a list into segments and leaving out what stands in brackets can be done in either
order. -/
theorem splitOnP_outside {nesting : Nat} {first : List Token} {others : List (List Token)}
    (h : segmentsFrom nesting tokens = first :: others) :
    (outside nesting tokens).splitOnP isComma = outside nesting first :: others.map (outside 0) := by
  induction tokens generalizing nesting first others with
  | nil =>
      cases h
      rfl
  | cons t tokens ih =>
      obtain ⟨next, more, hNext⟩ :=
        List.exists_cons_of_ne_nil (segmentsFrom_ne_nil (nestingAfter nesting t) tokens)
      by_cases hSeen : nesting = 0 ∧ opens t = false ∧ closes t = false
      · obtain ⟨rfl, hOpen, hClose⟩ := hSeen
        have hNesting : nestingAfter 0 t = 0 := by simp [nestingAfter, hOpen, hClose]
        rw [hNesting] at hNext
        rw [outside_of_seen hOpen hClose, List.splitOnP_cons_eq_if_modifyHead, ih hNext]
        rw [segmentsFrom, hNesting, hNext, beq_self_eq_true, Bool.and_true] at h
        split at h
        · next hComma =>
            cases h
            rw [if_pos hComma]
            rfl
        · next hComma =>
            cases h
            rw [if_neg hComma, outside_of_seen hOpen hClose]
            rfl
      · have hKept : (isComma t && nesting == 0) = false := by
          rw [← Bool.not_eq_true, Bool.and_eq_true]
          rintro ⟨hComma, hZero⟩
          exact hSeen ⟨eq_of_beq hZero, not_bracket_of_comma hComma⟩
        rw [segmentsFrom, hKept, if_neg Bool.false_ne_true, hNext] at h
        cases h
        rw [outside_of_unseen hSeen, outside_of_unseen hSeen, ih hNext]

/-- Outside of brackets the first name behind a comma counts. -/
theorem paramsFrom_of_seen {t : Token} (hOpen : opens t = false) (hClose : closes t = false)
    (expecting : Bool) (tokens : List Token) :
    paramsFrom 0 expecting (t :: tokens) =
      if isComma t then paramsFrom 0 true tokens
      else if expecting && t.isName then
        (t.text :: (paramsFrom 0 false tokens).1, (paramsFrom 0 false tokens).2)
      else paramsFrom 0 expecting tokens := by
  simp [paramsFrom, hOpen, hClose, isComma]

/-- Without brackets, parameters are the first names between commas. -/
theorem paramsFrom_of_no_brackets {first : List Token} {others : List (List Token)}
    (hPlain : ∀ t ∈ tokens, opens t = false ∧ closes t = false)
    (h : tokens.splitOnP isComma = first :: others) (expecting : Bool) :
    (paramsFrom 0 expecting tokens).1 =
      (if expecting then (nameAmong? first).toList else []) ++ others.filterMap nameAmong? := by
  induction tokens generalizing expecting first others with
  | nil =>
      rw [List.splitOnP_nil] at h
      cases h
      cases expecting <;> rfl
  | cons t tokens ih =>
      obtain ⟨⟨hOpen, hClose⟩, hOthers⟩ := List.forall_mem_cons.mp hPlain
      obtain ⟨next, more, hNext⟩ :=
        List.exists_cons_of_ne_nil (List.splitOnP_ne_nil isComma tokens)
      have hMore := ih hOthers hNext
      rw [List.splitOnP_cons_eq_if_modifyHead, hNext] at h
      rw [paramsFrom_of_seen hOpen hClose]
      by_cases hComma : isComma t = true
      · rw [if_pos hComma] at h ⊢
        cases h
        rw [hMore true, if_pos rfl, ← filterMap_nameAmong?_cons]
        cases expecting <;> rfl
      · rw [if_neg hComma] at h ⊢
        cases h
        by_cases hName : t.isName = true
        · cases expecting with
          | true => simp [hName, hMore false, nameAmong?]
          | false => simp [hMore false]
        · simp [hName, hMore expecting, nameAmong?]

/-- Reading parameters sees what stands outside of the brackets, and stops at the bracket that closes
the list. -/
theorem paramsFrom_append {closing : Token} (hNested : unclosed stack tokens = some [])
    (hClosing : closes closing = true) (expecting : Bool) (rest : List Token) :
    paramsFrom stack.length expecting (tokens ++ closing :: rest) =
      ((paramsFrom 0 expecting (outside stack.length tokens)).1, rest) := by
  induction tokens generalizing stack expecting with
  | nil =>
      obtain rfl : stack = [] := Option.some.inj hNested
      obtain ⟨b, hBracket⟩ := closes_iff.mp hClosing
      simp [paramsFrom, outside, opens_eq_false_of_closing hBracket, hClosing]
  | cons t tokens ih =>
      rcases unclosed_cons hNested with ⟨b, hOpen, hAfter⟩ | ⟨b, below, rfl, hClose, hAfter⟩ |
        ⟨hOpens, hCloses, hAfter⟩
      · have hOpens : opens t = true := opens_iff.mpr ⟨b, hOpen⟩
        simp only [List.cons_append, paramsFrom, outside, hOpens, ↓reduceIte]
        exact ih hAfter expecting
      · have hOpens := opens_eq_false_of_closing hClose
        have hCloses : closes t = true := closes_iff.mpr ⟨b, hClose⟩
        simp only [List.cons_append, List.length_cons, paramsFrom, outside, hOpens, hCloses,
          Bool.false_eq_true, ↓reduceIte]
        exact ih hAfter expecting
      · cases stack with
        | nil =>
            have hMore : ∀ expecting, paramsFrom 0 expecting (tokens ++ closing :: rest) =
                ((paramsFrom 0 expecting (outside 0 tokens)).1, rest) := ih hAfter
            rw [List.length_nil, outside_of_seen hOpens hCloses, List.cons_append,
              paramsFrom_of_seen hOpens hCloses, paramsFrom_of_seen hOpens hCloses]
            split
            · exact hMore true
            · split
              · rw [hMore false]
              · exact hMore expecting
        | cons b below =>
            have hMore := ih hAfter expecting
            simpa [paramsFrom, outside, hOpens, hCloses] using hMore

/-- Parameters in nested brackets are read from what stands outside of these. -/
theorem readParams_append {opening closing : Token} (hNested : IsNested body)
    (hOpening : opening.isPunctuation "(" = true) (hClosing : closing.isPunctuation ")" = true)
    (rest : List Token) :
    readParams (opening :: body ++ closing :: rest) =
      ((paramsFrom 0 true (outside 0 body)).1, rest) := by
  have hCloses : closes closing = true := closes_iff.mpr ⟨.round, hClosing⟩
  rw [List.cons_append, readParams, if_pos hOpening]
  exact paramsFrom_append hNested hCloses true rest

/-- The first name of every segment is a parameter. -/
theorem filterMap_firstName? (tokens : List Token) :
    (segments tokens).filterMap firstName? = (paramsFrom 0 true (outside 0 tokens)).1 := by
  obtain ⟨first, others, hSegments⟩ := List.exists_cons_of_ne_nil (segmentsFrom_ne_nil 0 tokens)
  have hNames := paramsFrom_of_no_brackets (fun t => not_bracket_of_mem_outside)
    (splitOnP_outside hSegments) true
  rw [if_pos rfl, ← filterMap_nameAmong?_cons, ← List.map_cons, List.filterMap_map] at hNames
  rw [segments, hSegments, hNames]
  rfl

/-- Brackets are passed exactly. A list of parameters ends with its own closing bracket and gives the
first name of each segment that has one; a value ends before the first comma or closing bracket that
does not belong to it. What stands in inner brackets never counts. -/
theorem brackets_passed_exactly (body rest : List Token) (hNested : IsNested body) :
    (∀ opening closing : Token, opening.isPunctuation "(" = true → closing.isPunctuation ")" = true →
      readParams (opening :: body ++ closing :: rest) =
        ((segments body).filterMap firstName?, rest) ∧
      ∀ other, IsNested other → outside 0 other = outside 0 body →
        readParams (opening :: other ++ closing :: rest) =
          readParams (opening :: body ++ closing :: rest)) ∧
    ((∀ t ∈ outside 0 body, t.isPunctuation "," = false) → ∀ c : Token, endsValue c = true →
      skipValue (body ++ c :: rest) = c :: rest) := by
  refine ⟨?_, ?_⟩
  · intro opening closing hOpening hClosing
    have hBody := readParams_append hNested hOpening hClosing rest
    refine ⟨?_, ?_⟩
    · rw [hBody, filterMap_firstName?]
    · intro other hOther hSame
      rw [readParams_append hOther hOpening hClosing, hSame, hBody]
  · intro hComma c hEnds
    exact skipFrom_append hNested hComma ⟨c, rfl, hEnds⟩

/-- Parameters with a default, of which one has no name of its own. -/
def boxParams : List Token :=
  [⟨.name, "size", 1⟩, ⟨.punctuation, "=", 1⟩, ⟨.punctuation, "[", 1⟩, ⟨.name, "wide", 1⟩,
    ⟨.punctuation, ",", 1⟩, ⟨.name, "high", 1⟩, ⟨.punctuation, "]", 1⟩, ⟨.punctuation, ",", 1⟩,
    ⟨.punctuation, ['{'], 2⟩, ⟨.name, "lid", 2⟩, ⟨.punctuation, ",", 2⟩, ⟨.name, "key", 2⟩,
    ⟨.punctuation, ['}'], 2⟩, ⟨.punctuation, ",", 2⟩, ⟨.comment, "/* of what */", 2⟩,
    ⟨.name, "kind", 2⟩]

/-- A call with two arguments. -/
def boxCall : List Token :=
  [⟨.name, "Box.of", 3⟩, ⟨.punctuation, "(", 3⟩, ⟨.name, "size", 3⟩, ⟨.punctuation, ",", 3⟩,
    ⟨.name, "kind", 3⟩, ⟨.punctuation, ")", 3⟩]

theorem brackets_passed_exactly_box :
    IsNested boxParams ∧ IsNested boxCall ∧
      (∀ t ∈ outside 0 boxCall, t.isPunctuation "," = false) ∧
      (∀ rest, readParams (⟨.punctuation, "(", 1⟩ :: boxParams ++ ⟨.punctuation, ")", 2⟩ :: rest) =
        ([("size" : Text), "kind"], rest)) ∧
      ∀ rest, skipValue (boxCall ++ ⟨.punctuation, ['}'], 4⟩ :: rest) =
        ⟨.punctuation, ['}'], 4⟩ :: rest := by
  have hComma : ∀ t ∈ outside 0 boxCall, t.isPunctuation "," = false := by decide
  have hNames : (segments boxParams).filterMap firstName? = [("size" : Text), "kind"] := by decide
  refine ⟨by decide, by decide, hComma, ?_, ?_⟩
  · intro rest
    rw [← hNames]
    exact ((brackets_passed_exactly boxParams rest (by decide)).1 _ _ rfl rfl).1
  · intro rest
    exact (brackets_passed_exactly boxCall rest (by decide)).2 hComma _ rfl

end ScriptDoc.Outline
