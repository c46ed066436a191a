import ScriptDoc.Outline.Reader

/-! Comments that document nothing. Between declarations, in parameters and in values that are passed
over, such a comment is passed like white space. The head of a declaration is told by the tokens that
come next, and there a comment is not passed. So a comment can be put in anywhere but in a head. -/
namespace ScriptDoc.Outline

/-- A comment that documents nothing. -/
structure IsOrdinary (c : Token) : Prop where
  kind : c.kind = .comment
  silent : c.isDocComment = false

/-- Whether a token can be the key of an entry. -/
def canBeKey (t : Token) : Bool :=
  t.isName || t.kind == .string

/-- Whether a value that begins with the token has members to be read. -/
def isStructured (t : Token) : Bool :=
  t.isNamed "function" || t.isPunctuation ['{']

/-- Whether the head of a function ends between the two lists of tokens: the word, a name and a list
of parameters, as far as they come. -/
def endsHead (after : List Token) : List Token → Bool
  | [] => false
  | t :: rest =>
    (t.isNamed "function" && (readParams (dropName (rest ++ after))).2 == after) ||
      endsHead after rest

/-- Whether the head of a declaration goes on with the next token: the head of a function with its
name, its parameters or its body, the name of an assignment with the sign and the sign with the value,
a key with the colon and the colon with the value. What comes before is known by its last two tokens,
and by whether they end the head of a function. -/
def goesOn (ends : Bool) (first : Option Token) (last next : Token) : Bool :=
  (last.isNamed "function" && (next.isName || next.isPunctuation "(")) ||
  (first.any (·.isNamed "function") && last.isName && next.isPunctuation "(") ||
  (ends && next.isPunctuation ['{']) ||
  (last.isName && next.isPunctuation "=") ||
  (first.any Token.isName && last.isPunctuation "=" &&
    (next.isPunctuation "=" || next.isPunctuation ">" || isStructured next)) ||
  (canBeKey last && next.isPunctuation ":") ||
  (first.any canBeKey && last.isPunctuation ":" && isStructured next)

/-- Whether the head of a declaration goes over from the one list of tokens to the other. -/
def isJoint (before after : List Token) : Bool :=
  match before.reverse, after with
  | last :: earlier, next :: _ => goesOn (endsHead after before) earlier.head? last next
  | _, _ => false

/-- No head of a declaration that some tokens end with goes on with the next token. -/
structure Parts (before ahead : List Token) (next : Token) : Prop where
  function : ∀ word, [word] <:+ before → word.isNamed "function" = true →
    next.isName = false ∧ next.isPunctuation "(" = false
  params : ∀ word name, [word, name] <:+ before → word.isNamed "function" = true →
    name.isName = true → next.isPunctuation "(" = false
  body : endsHead ahead before = true → next.isPunctuation ['{'] = false
  sign : ∀ name, [name] <:+ before → name.isName = true → next.isPunctuation "=" = false
  assigned : ∀ name sign, [name, sign] <:+ before → name.isName = true →
    sign.isPunctuation "=" = true →
      next.isPunctuation "=" = false ∧ next.isPunctuation ">" = false ∧ isStructured next = false
  colon : ∀ key, [key] <:+ before → canBeKey key = true → next.isPunctuation ":" = false
  value : ∀ key colon, [key, colon] <:+ before → canBeKey key = true →
    colon.isPunctuation ":" = true → isStructured next = false

/-- Tokens ahead with which no head of a declaration goes on. -/
def IsLoose (before ahead : List Token) : Prop :=
  ∀ next ∈ ahead.head?, Parts before ahead next

/-- The last token is the one that ends the list. -/
theorem eq_of_suffix_concat {earlier : List Token} {t last : Token}
    (h : [t] <:+ earlier ++ [last]) : t = last := by
  simpa using h

theorem eq_of_pair_suffix_concat {earlier : List Token} {p t last : Token}
    (h : [p, t] <:+ earlier ++ [last]) : earlier.getLast? = some p ∧ t = last := by
  obtain ⟨front, hFront⟩ := h
  have hSplit : front ++ [p] ++ [t] = earlier ++ [last] := by simpa using hFront
  obtain ⟨rfl, hLast⟩ := List.append_inj' hSplit rfl
  exact ⟨by simp, by simpa using hLast⟩

/-- Where nothing is joint, a comment changes nothing. -/
theorem IsLoose.of_isJoint {before after : List Token} (h : isJoint before after = false) :
    IsLoose before after := by
  cases after with
  | nil => exact nofun
  | cons next after =>
      rintro _ ⟨⟩
      rcases before.eq_nil_or_concat with rfl | ⟨earlier, last, rfl⟩
      · exact ⟨by simp, by simp, nofun, by simp, by simp, by simp, by simp⟩
      · rw [List.concat_eq_append] at h ⊢
        have hNot : goesOn (endsHead (next :: after) (earlier ++ [last])) earlier.getLast? last next =
            false := by simpa [isJoint] using h
        constructor
        · intro word hEnd hWord
          obtain rfl := eq_of_suffix_concat hEnd
          grind [goesOn]
        · intro word name hEnd hWord hName
          obtain ⟨hFirst, rfl⟩ := eq_of_pair_suffix_concat hEnd
          grind [goesOn]
        · intro hEnds
          grind [goesOn]
        · intro name hEnd hName
          obtain rfl := eq_of_suffix_concat hEnd
          grind [goesOn]
        · intro name sign hEnd hName hSign
          obtain ⟨hFirst, rfl⟩ := eq_of_pair_suffix_concat hEnd
          grind [goesOn]
        · intro key hEnd hKey
          obtain rfl := eq_of_suffix_concat hEnd
          grind [goesOn]
        · intro key colon hEnd hKey hColon
          obtain ⟨hFirst, rfl⟩ := eq_of_pair_suffix_concat hEnd
          grind [goesOn]

/-! What is ahead of a reader, without the comment and with it. -/

/-- The comment is still ahead, or it has been passed. -/
inductive Meets (before after : List Token) (c : Token) : List Token → List Token → Prop
  | passed (rest : List Token) : Meets before after c rest rest
  | ahead {front : List Token} (hFront : front <:+ before) :
      Meets before after c (front ++ after) (front ++ c :: after)

/-- Steps that find out the same and differ at most in the comment ahead. -/
structure Step.Meets (before after : List Token) (c : Token) (step other : Step) : Prop where
  event : other.event = step.event
  state : other.state = step.state
  rest : Outline.Meets before after c step.rest other.rest

variable {before after front : List Token} {c t : Token} {s : State}

namespace IsOrdinary

variable (h : IsOrdinary c)

include h

theorem isName : c.isName = false := by
  simp [Token.isName, h.kind]

theorem isNamed (text : Text) : c.isNamed text = false := by
  simp [Token.isNamed, h.kind]

theorem isPunctuation (text : Text) : c.isPunctuation text = false := by
  simp [Token.isPunctuation, h.kind]

theorem opens : opens c = false := by
  simp [Outline.opens, h.isPunctuation]

theorem closes : closes c = false := by
  simp [Outline.closes, h.isPunctuation]

/-- A comment that is no doc comment is passed over. -/
theorem step_eq (s : State) (rest : List Token) : step s c rest = ⟨none, s, rest⟩ := by
  simp [step, h.kind, h.silent]

/-- A comment at the beginning is passed over. -/
theorem events_cons (s : State) (rest : List Token) : events s (c :: rest) = events s rest := by
  rw [events, h.step_eq]
  rfl

/-- A comment is no parameter. -/
theorem paramsFrom_cons (nesting : Nat) (expecting : Bool) (rest : List Token) :
    paramsFrom nesting expecting (c :: rest) = paramsFrom nesting expecting rest := by
  simp [paramsFrom, h.opens, h.closes, h.isPunctuation, h.isName]

/-- A comment neither ends a value nor opens a bracket. -/
theorem skipFrom_cons (nesting : Nat) (rest : List Token) :
    skipFrom nesting (c :: rest) = skipFrom nesting rest := by
  simp [skipFrom, h.opens, h.closes, h.isPunctuation]

/-- In a list of parameters a comment is passed. -/
theorem paramsFrom_insert (hFront : front <:+ before) (nesting : Nat) (expecting : Bool) :
    (paramsFrom nesting expecting (front ++ c :: after)).1 =
        (paramsFrom nesting expecting (front ++ after)).1 ∧
      Meets before after c (paramsFrom nesting expecting (front ++ after)).2
        (paramsFrom nesting expecting (front ++ c :: after)).2 := by
  induction front generalizing nesting expecting with
  | nil =>
      rw [List.nil_append, List.nil_append, h.paramsFrom_cons]
      exact ⟨rfl, .passed _⟩
  | cons t front ih =>
      have hRest : front <:+ before := (List.suffix_cons t front).trans hFront
      simp only [List.cons_append, paramsFrom]
      split
      · exact ih hRest _ _
      · split
        · cases nesting with
          | zero => exact ⟨rfl, .ahead hRest⟩
          | succ nesting => exact ih hRest _ _
        · split
          · exact ih hRest _ _
          · split
            · obtain ⟨hParams, hAfter⟩ := ih hRest nesting false
              exact ⟨by rw [hParams], hAfter⟩
            · exact ih hRest _ _

/-- In a value that is passed over, a comment is passed. -/
theorem skipFrom_insert (hFront : front <:+ before) (nesting : Nat) :
    Meets before after c (skipFrom nesting (front ++ after))
      (skipFrom nesting (front ++ c :: after)) := by
  induction front generalizing nesting with
  | nil =>
      rw [List.nil_append, List.nil_append, h.skipFrom_cons]
      exact .passed _
  | cons t front ih =>
      have hRest : front <:+ before := (List.suffix_cons t front).trans hFront
      simp only [List.cons_append, skipFrom]
      split
      · exact ih hRest _
      · split
        · cases nesting with
          | zero => exact .ahead hFront
          | succ nesting => exact ih hRest _
        · split
          · exact .ahead hFront
          · exact ih hRest _

/-- A comment goes on with no head of a declaration. -/
theorem isLoose (before rest : List Token) : IsLoose before (c :: rest) := by
  rintro _ ⟨⟩
  constructor <;> simp [isStructured, h.isPunctuation, h.isNamed, h.isName]

end IsOrdinary

/-! Looking ahead. Where no head goes on, what is found out depends on the tokens before alone. -/

theorem isName_of_functionName? {name : Token} {tokens behind : List Token}
    (h : functionName? t tokens = some (name, behind)) : name.isName = true := by
  unfold functionName? at h
  grind

/-- An assignment has its sign next. -/
theorem exists_sign_of_afterAssign? {tokens value : List Token} (h : afterAssign? tokens = some value) :
    ∃ sign, tokens = sign :: value ∧ sign.isPunctuation "=" = true := by
  unfold afterAssign? at h
  grind

/-- A key has its colon next. -/
theorem exists_colon_of_afterKey? {tokens value : List Token} {scope : Scope}
    (h : afterKey? s tokens = some (scope, value)) :
    ∃ colon, tokens = colon :: value ∧ colon.isPunctuation ":" = true := by
  unfold afterKey? at h
  grind

namespace IsLoose

variable {ahead : List Token} (h : IsLoose before ahead)

include h

/-- A comment further on does not come between a function and its name. -/
theorem functionName?_append (hFront : t :: front <:+ before) :
    functionName? t (front ++ ahead) =
      (functionName? t front).map fun found => (found.1, found.2 ++ ahead) := by
  cases front with
  | cons name front =>
      simp only [List.cons_append, functionName?]
      split <;> rfl
  | nil =>
      cases ahead with
      | nil => rfl
      | cons next ahead =>
          simp only [List.nil_append, functionName?, Option.map_none]
          rw [if_neg]
          intro hNames
          obtain ⟨hWord, hName⟩ := Bool.and_eq_true_iff.mp hNames
          have hNot := ((h next rfl).function t hFront hWord).1
          rw [hName] at hNot
          cases hNot

/-- A comment further on does not come between a name and its sign. -/
theorem afterAssign?_append (hFront : t :: front <:+ before) (hName : t.isName = true) :
    afterAssign? (front ++ ahead) = (afterAssign? front).map (· ++ ahead) := by
  cases front with
  | nil =>
      cases ahead with
      | nil => rfl
      | cons next ahead => simp [afterAssign?, (h next rfl).sign t hFront hName]
  | cons sign front =>
      by_cases hSign : sign.isPunctuation "=" = true
      · cases front with
        | cons next front =>
            simp only [List.cons_append, afterAssign?, hSign, ↓reduceIte]
            split <;> rfl
        | nil =>
            cases ahead with
            | nil => simp [afterAssign?, hSign]
            | cons next ahead =>
                obtain ⟨hEquals, hArrow, _⟩ := (h next rfl).assigned t sign hFront hName hSign
                simp [afterAssign?, hSign, hEquals, hArrow]
      · simp [afterAssign?, hSign]

theorem assigned?_append (hFront : t :: front <:+ before) :
    (if t.isName then afterAssign? (front ++ ahead) else none) =
      (if t.isName then afterAssign? front else none).map (· ++ ahead) := by
  split
  · next hName => exact h.afterAssign?_append hFront hName
  · rfl

/-- A comment further on does not come between a key and its colon. -/
theorem afterKey?_append (hFront : t :: front <:+ before) (hKey : canBeKey t = true) (s : State) :
    afterKey? s (front ++ ahead) =
      (afterKey? s front).map fun found => (found.1, found.2 ++ ahead) := by
  cases front with
  | nil =>
      cases ahead with
      | nil => simp [afterKey?]
      | cons next ahead =>
          have hColon := (h next rfl).colon t hFront hKey
          cases hScopes : s.scopes <;> simp [afterKey?, hScopes, hColon]
  | cons colon front =>
      cases hScopes : s.scopes with
      | nil => simp [afterKey?, hScopes]
      | cons scope outer =>
          simp only [List.cons_append, afterKey?, hScopes]
          split <;> rfl

theorem keyed?_append (hFront : t :: front <:+ before) :
    (if t.isName || t.kind == .string then afterKey? s (front ++ ahead) else none) =
      (if t.isName || t.kind == .string then afterKey? s front else none).map
        fun found => (found.1, found.2 ++ ahead) := by
  split
  · next hKey => exact h.afterKey?_append hFront hKey s
  · rfl

theorem dropName_append (hFront : t :: front <:+ before) (hWord : t.isNamed "function" = true) :
    dropName (front ++ ahead) = dropName front ++ ahead := by
  cases front with
  | nil =>
      cases ahead with
      | nil => rfl
      | cons next ahead => simp [dropName, ((h next rfl).function t hFront hWord).1]
  | cons name front =>
      simp only [List.cons_append, dropName]
      split <;> rfl

/-- Behind the word and at most a name, a list of parameters does not begin. -/
theorem readParams_eq (hFront : t :: front <:+ before) (hWord : t.isNamed "function" = true)
    (hNone : dropName front = []) : readParams ahead = ([], ahead) := by
  cases ahead with
  | nil => rfl
  | cons next ahead =>
      have hNot : next.isPunctuation "(" = false := by
        cases front with
        | nil => exact ((h next rfl).function t hFront hWord).2
        | cons name others =>
            rw [dropName] at hNone
            split at hNone
            · next hName =>
                subst hNone
                exact (h next rfl).params t name hFront hWord hName
            · cases hNone
      simp [readParams, hNot]

/-- Where a head ends without a brace no scope is opened. -/
theorem enter_eq (hBody : endsHead ahead before = true) (path : Text) (isFunction : Bool) :
    s.enter path isFunction ahead = s := by
  cases ahead with
  | nil => rfl
  | cons next ahead => simp [State.enter, (h next rfl).body hBody]

end IsLoose

/-- A function whose parameters end before the place has its head end there. -/
theorem endsHead_of_suffix (hFront : t :: front <:+ before) (hWord : t.isNamed "function" = true)
    (hEnd : (readParams (dropName (front ++ after))).2 = after) : endsHead after before = true := by
  induction before with
  | nil => simp at hFront
  | cons first before ih =>
      rw [endsHead]
      rcases List.suffix_cons_iff.mp hFront with hSame | hFront
      · cases hSame
        simp [hWord, hEnd]
      · rw [ih hFront, Bool.or_true]

/-! Steps. -/

section Steps

variable (h : IsOrdinary c) (hLoose : IsLoose before after)

include h hLoose

/-- The parameters of a function are the same, wherever in its head or behind it the comment
stands. -/
theorem readParams_insert (hFront : t :: front <:+ before) (hWord : t.isNamed "function" = true) :
    (readParams (dropName (front ++ c :: after))).1 = (readParams (dropName (front ++ after))).1 ∧
      Meets before after c (readParams (dropName (front ++ after))).2
        (readParams (dropName (front ++ c :: after))).2 := by
  rw [hLoose.dropName_append hFront hWord, (h.isLoose before after).dropName_append hFront hWord]
  have hSuffix : dropName front <:+ before :=
    (dropName_suffix front).trans ((List.suffix_cons t front).trans hFront)
  cases hNamed : dropName front with
  | nil =>
      rw [List.nil_append, List.nil_append, hLoose.readParams_eq hFront hWord hNamed,
        (h.isLoose before after).readParams_eq hFront hWord hNamed]
      exact ⟨rfl, .ahead List.nil_suffix⟩
  | cons first others =>
      rw [hNamed] at hSuffix
      simp only [List.cons_append, readParams]
      split
      · exact h.paramsFrom_insert ((List.suffix_cons first others).trans hSuffix) 0 true
      · exact ⟨rfl, .ahead hSuffix⟩

/-- A function is read the same around a comment. -/
theorem readFunction_insert (hFront : t :: front <:+ before) (hWord : t.isNamed "function" = true)
    (path : Text) (line : Nat) :
    Step.Meets before after c (readFunction s path line (dropName (front ++ after)))
      (readFunction s path line (dropName (front ++ c :: after))) := by
  obtain ⟨hParams, hRest⟩ := readParams_insert h hLoose hFront hWord
  refine ⟨by simp only [readFunction, hParams], ?_, hRest⟩
  simp only [readFunction]
  congr 1
  revert hRest
  generalize hAfter : (readParams (dropName (front ++ after))).2 = rest
  generalize (readParams (dropName (front ++ c :: after))).2 = other
  intro hRest
  cases hRest with
  | passed _ => rfl
  | @ahead left hLeft =>
      cases left with
      | cons first left => rfl
      | nil =>
          -- The head ends where the comment stands, and no body comes.
          have hEnds := endsHead_of_suffix hFront hWord hAfter
          rw [List.nil_append, List.nil_append, hLoose.enter_eq hEnds]
          simp [State.enter, h.isPunctuation]

omit hLoose in
/-- Which scope a value opens does not change if it begins before the comment, or is not one that
opens a scope. -/
theorem enter_insert (hPlain : front = [] → ∀ next ∈ after.head?, isStructured next = false)
    (path : Text) (isFunction : Bool) :
    s.enter path isFunction (front ++ c :: after) = s.enter path isFunction (front ++ after) := by
  cases front with
  | cons first front => rfl
  | nil =>
      cases after with
      | nil => simp [State.enter, h.isPunctuation]
      | cons next after =>
          have hBrace := (Bool.or_eq_false_iff.mp (hPlain rfl next rfl)).2
          simp [State.enter, h.isPunctuation, hBrace]

omit hLoose in
/-- A value that is no function is read the same around a comment. -/
theorem readOther_insert (hFront : front <:+ before)
    (hPlain : front = [] → ∀ next ∈ after.head?, isStructured next = false) (path : Text)
    (line : Nat) :
    Step.Meets before after c (readValue.readOther s path line (front ++ after))
      (readValue.readOther s path line (front ++ c :: after)) where
  event := rfl
  state := by simp only [readValue.readOther, enter_insert h hPlain]
  rest := .ahead hFront

omit h hLoose in
theorem readValue_of_not_function {tokens : List Token}
    (hNot : ∀ next ∈ tokens.head?, next.isNamed "function" = false) (path : Text) (line : Nat) :
    readValue s path line tokens = readValue.readOther s path line tokens := by
  cases tokens with
  | nil => rfl
  | cons next rest => simp [readValue, hNot next rfl]

/-- A value is read the same around a comment, or up to it. -/
theorem readValue_insert (hFront : front <:+ before)
    (hPlain : front = [] → ∀ next ∈ after.head?, isStructured next = false) (path : Text)
    (line : Nat) :
    Step.Meets before after c (readValue s path line (front ++ after))
      (readValue s path line (front ++ c :: after)) := by
  have hOther := readOther_insert (s := s) h hFront hPlain path line
  cases front with
  | nil =>
      rw [List.nil_append, List.nil_append] at hOther ⊢
      rw [readValue_of_not_function fun next hMem => (Bool.or_eq_false_iff.mp (hPlain rfl next hMem)).1,
        readValue_of_not_function (by rintro _ ⟨⟩; exact h.isNamed _)]
      exact hOther
  | cons first front =>
      simp only [List.cons_append, readValue] at hOther ⊢
      split
      · next hWord => exact readFunction_insert h hLoose hFront hWord path line
      · exact hOther

/-- A value that is passed over takes the comment with it. -/
theorem skipPlain_insert (hFront : front <:+ before)
    (hPlain : front = [] → ∀ next ∈ after.head?, isStructured next = false) (path : Text)
    (line : Nat) :
    Meets before after c
      (skipPlain (front ++ after) (readValue s path line (front ++ after)).rest)
      (skipPlain (front ++ c :: after) (readValue s path line (front ++ c :: after)).rest) := by
  have hOther : (∀ next ∈ (front ++ after).head?, isStructured next = false) →
      ∀ next ∈ (front ++ c :: after).head?, isStructured next = false := by
    cases front with
    | nil =>
        rintro _ _ ⟨⟩
        simp [isStructured, h.isNamed, h.isPunctuation]
    | cons first front => exact id
  have hSkip : ∀ tokens : List Token, (∀ next ∈ tokens.head?, isStructured next = false) →
      skipPlain tokens (readValue s path line tokens).rest = skipFrom 0 tokens := by
    intro tokens hTokens
    rw [readValue_of_not_function fun next hMem => (Bool.or_eq_false_iff.mp (hTokens next hMem)).1]
    cases tokens with
    | nil => rfl
    | cons next rest =>
        have hNext : (next.isNamed "function" || next.isPunctuation ['{']) = false := hTokens next rfl
        simp only [skipPlain, hNext, Bool.false_eq_true, ↓reduceIte]
        rfl
  by_cases hTokens : ∀ next ∈ (front ++ after).head?, isStructured next = false
  · rw [hSkip _ hTokens, hSkip _ (hOther hTokens)]
    exact h.skipFrom_insert hFront 0
  · cases front with
    | nil => exact absurd (hPlain rfl) hTokens
    | cons first front =>
        have hFirst : isStructured first = true := by simpa using hTokens
        unfold isStructured at hFirst
        simp only [List.cons_append, skipPlain, hFirst, ↓reduceIte]
        exact (readValue_insert h hLoose hFront hPlain path line).rest

/-- A token and what it begins are read the same around a comment. -/
theorem readPlain_insert (hFront : t :: front <:+ before) :
    Step.Meets before after c (readPlain s t (front ++ after))
      (readPlain s t (front ++ c :: after)) := by
  have hRest : front <:+ before := (List.suffix_cons t front).trans hFront
  have hComment := h.isLoose before after
  simp only [readPlain, hLoose.functionName?_append hFront, hComment.functionName?_append hFront,
    hLoose.assigned?_append hFront, hComment.assigned?_append hFront, hLoose.keyed?_append hFront,
    hComment.keyed?_append hFront]
  cases hFunction : functionName? t front with
  | some found =>
      obtain ⟨name, behind⟩ := found
      have hName := isName_of_functionName? hFunction
      obtain ⟨rfl, hWord⟩ := functionName?_eq_some hFunction
      have hStep := readFunction_insert (s := s) h hLoose hFront hWord (s.qualify name.text) name.line
      simp only [List.cons_append, dropName, hName, ↓reduceIte] at hStep
      exact hStep
  | none =>
      simp only [Option.map_none]
      split
      · exact ⟨rfl, rfl, .ahead hRest⟩
      · cases hAssign : (if t.isName then afterAssign? front else none) with
        | some value =>
            obtain ⟨hName, hAssign⟩ := Option.ite_none_right_eq_some.mp hAssign
            obtain ⟨sign, rfl, hSign⟩ := exists_sign_of_afterAssign? hAssign
            have hValue : value <:+ before := (List.suffix_cons sign value).trans hRest
            have hPlain : value = [] → ∀ next ∈ after.head?, isStructured next = false := by
              rintro rfl next hNext
              exact ((hLoose next hNext).assigned t sign hFront hName hSign).2.2
            simp only [Option.map_some]
            split
            · exact ⟨rfl, by simp only [enter_insert h hPlain], .ahead hValue⟩
            · exact readValue_insert h hLoose hValue hPlain _ _
        | none =>
            simp only [Option.map_none]
            cases hKey : (if t.isName || t.kind == .string then afterKey? s front else none) with
            | some found =>
                obtain ⟨scope, value⟩ := found
                obtain ⟨hKind, hKey⟩ := Option.ite_none_right_eq_some.mp hKey
                obtain ⟨colon, rfl, hColon⟩ := exists_colon_of_afterKey? hKey
                have hValue : value <:+ before := (List.suffix_cons colon value).trans hRest
                have hPlain : value = [] → ∀ next ∈ after.head?, isStructured next = false := by
                  rintro rfl next hNext
                  exact (hLoose next hNext).value t colon hFront hKind hColon
                have hStep := readValue_insert (s := s) h hLoose hValue hPlain
                exact ⟨(hStep _ _).event, (hStep _ _).state,
                  skipPlain_insert h hLoose hValue hPlain _ _⟩
            | none => exact ⟨rfl, rfl, .ahead hRest⟩

/-- A step takes no notice of the comment, and passes it or leaves it ahead. -/
theorem step_insert (hFront : t :: front <:+ before) :
    Step.Meets before after c (step s t (front ++ after)) (step s t (front ++ c :: after)) := by
  have hRest : front <:+ before := (List.suffix_cons t front).trans hFront
  simp only [step]
  split
  · split
    · simp only [readDoc]
      split
      · exact ⟨rfl, rfl, .ahead hRest⟩
      · split <;> exact ⟨rfl, rfl, .ahead hRest⟩
    · exact ⟨rfl, rfl, .ahead hRest⟩
  · split
    · exact ⟨rfl, rfl, .ahead hRest⟩
    · split
      · exact ⟨rfl, rfl, .ahead hRest⟩
      · exact readPlain_insert h hLoose hFront

/-- The same is found out, whether the comment is ahead or has been passed. -/
theorem events_insert {tokens others : List Token} (hMeets : Meets before after c tokens others) :
    events s others = events s tokens := by
  fun_induction events s tokens generalizing others with
  | case1 s =>
      generalize hTokens : ([] : List Token) = tokens at hMeets
      cases hMeets with
      | passed _ => rw [← hTokens, events]
      | @ahead front hFront =>
          obtain ⟨rfl, rfl⟩ := List.append_eq_nil_iff.mp hTokens.symm
          rw [List.nil_append, h.events_cons, events]
  | case2 s t rest ih =>
      generalize hTokens : t :: rest = tokens at hMeets
      cases hMeets with
      | passed _ => rw [← hTokens, events]
      | @ahead front hFront =>
          cases front with
          | nil =>
              rw [List.nil_append] at hTokens
              rw [List.nil_append, h.events_cons, ← hTokens, events]
          | cons first front =>
              rw [List.cons_append] at hTokens
              obtain ⟨rfl, rfl⟩ := List.cons.inj hTokens
              have hStep := step_insert (s := s) h hLoose hFront
              rw [List.cons_append, events, hStep.event, hStep.state, ih hStep.rest]

end Steps

/-- A comment that documents nothing can be put in anywhere but in the head of a declaration: the
same symbols are found, with the same overview. -/
theorem ofTokens_insert_comment (before after : List Token) (c : Token) (hOrdinary : IsOrdinary c)
    (hJoint : isJoint before after = false) :
    ofTokens (before ++ c :: after) = ofTokens (before ++ after) := by
  have hMeets : Meets before after c (before ++ after) (before ++ c :: after) :=
    .ahead List.suffix_rfl
  rw [ofTokens, events_insert hOrdinary (IsLoose.of_isJoint hJoint) hMeets, ofTokens]

/-- A comment about something else. -/
def aside : Token :=
  ⟨.comment, "/* see below */", 1⟩

def word (text : Text) : Token :=
  ⟨.name, text, 1⟩

def sign (text : Text) : Token :=
  ⟨.punctuation, text, 1⟩

/-- What the symbols of tokens are called, with their parameters. -/
def declarations (tokens : List Token) : List (Text × List Text) :=
  (ofTokens tokens).symbols.map fun s => (s.name, s.params)

/-- Between two parameters a comment is passed. -/
theorem ofTokens_insert_comment_params :
    IsOrdinary aside ∧
      isJoint [word "f", sign "=", word "function", sign "(", word "a"]
        [sign ",", word "b", sign ")"] = false ∧
      ofTokens [word "f", sign "=", word "function", sign "(", word "a", aside, sign ",", word "b",
          sign ")"] =
        ofTokens [word "f", sign "=", word "function", sign "(", word "a", sign ",", word "b",
          sign ")"] := by
  have hOrdinary : IsOrdinary aside := ⟨rfl, by decide⟩
  have hJoint : isJoint [word "f", sign "=", word "function", sign "(", word "a"]
      [sign ",", word "b", sign ")"] = false := by decide
  exact ⟨hOrdinary, hJoint, ofTokens_insert_comment _ _ aside hOrdinary hJoint⟩

/-- Places in heads of declarations: in that of a function before its name, its parameters and its
body, in that of an assignment before the sign and behind it, and in that of an entry before the colon
and behind it. -/
def headPlaces : List (List Token × List Token) :=
  [([word "function"], [word "f"]),
    ([word "function", word "f"], [sign "(", word "a", sign ")"]),
    ([word "f", sign "=", word "function"], [sign "(", word "a", sign ")"]),
    ([word "f", sign "=", word "function"], [word "g", sign "(", word "a", sign ")"]),
    ([word "function", word "f", sign "(", sign ")"],
      [sign ['{'], word "this.g", sign "=", word "function", sign ['}']]),
    ([word "f"], [sign "=", word "function"]),
    ([word "f", sign "="], [word "function"]),
    ([⟨.comment, "/** F. */", 1⟩, word "f", sign "="], [sign "=", word "g"]),
    ([⟨.comment, "/** F. */", 1⟩, word "f", sign "="], [sign ">", word "g"]),
    ([word "f", sign "="], [sign ['{'], word "k", sign ":", word "function"]),
    ([word "f", sign "=", sign ['{'], word "k"], [sign ":", word "function"]),
    ([word "f", sign "=", sign ['{'], word "k", sign ":"], [word "function"])]

/-- In the head of a declaration a comment is not passed. Something else is declared with it than
without it, or a function loses its parameters. -/
theorem ofTokens_insert_head :
    IsOrdinary aside ∧ ∀ place ∈ headPlaces, isJoint place.1 place.2 = true ∧
      declarations (place.1 ++ aside :: place.2) ≠ declarations (place.1 ++ place.2) := by
  exact ⟨⟨rfl, by decide⟩, by decide +kernel⟩

end ScriptDoc.Outline
