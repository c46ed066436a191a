import ScriptDoc.Outline.Reader
import ScriptDoc.Proofs.DocComment.Values

/-! Where symbols come from. Each symbol belongs to one token, these tokens come in the order of the
symbols, and a doc comment goes to the declaration right after it or to none. What one step can do
is said once, by `Reaction`; what a whole run gives follows from that and from where the waiting
comment stands. -/
namespace ScriptDoc.Outline

variable {s : State} {t doc : Token} {symbol : Symbol} {earlier : List Nat}
variable {tokens rest before behind ahead : List Token}

/-- Tokens that a waiting comment outlasts. -/
def isPassed (t : Token) : Bool :=
  (t.kind == .comment && !t.isDocComment) ||
    (t.isNamed "var" || t.isNamed "let" || t.isNamed "const")

/-- Whether a comment is about the file as a whole. -/
def isOverview (t : Token) : Bool :=
  Symbol.overviewTags.any (DocComment.parse t.text).tags.has

/-- The first value that a comment gives to the name tag, empty without one. -/
def givenName (t : Token) : Text :=
  ((DocComment.parse t.text).tags.get "name").headD []

/-- A doc comment that is neither about the file nor a symbol of its own. -/
structure Waits (t : Token) : Prop where
  isDoc : t.isDocComment = true
  notOverview : isOverview t = false
  unnamed : givenName t = []

/-- A comment stands for a symbol of its own exactly if it gives a name. -/
theorem virtual?_eq_none_iff :
    virtual? (DocComment.parse t.text) t.line = none ↔ givenName t = [] := by
  unfold virtual? givenName
  cases hValues : (DocComment.parse t.text).tags.get "name" with
  | nil => simp
  | cons value others =>
      have hMem : value ∈ (DocComment.parse t.text).tags.get "name" := by simp [hValues]
      simpa using DocComment.firstWord?_of_mem_parse hMem

/-- The symbol of a declaration on some line: what the comment that waits says about it or, without
a comment, a function about which nothing is said. -/
inductive Declared : Option Token → Nat → Symbol → Prop
  | documented (doc : Token) (path : Text) (kind : Symbol.Kind) (params : List Text) (line : Nat) :
      Declared (some doc) line (documented path kind (DocComment.parse doc.text) params line)
  | bare (path : Text) (params : List Text) (line : Nat) : Declared none line (bare path params line)

/-- What one step can do, as far as comments and symbols go. A comment waits on only behind a token
that is passed. The token that a declared symbol belongs to is the first one, or the second one
behind `function`; the step ends behind it. -/
inductive Reaction (s : State) (t : Token) (rest : List Token) : Step → Prop
  | pass {state : State} (hPassed : isPassed t = true) (hDoc : state.doc = s.doc) :
      Reaction s t rest ⟨none, state, rest⟩
  | wait {state : State} (hWaits : Waits t) (hDoc : state.doc = some t) :
      Reaction s t rest ⟨none, state, rest⟩
  | silent {event : Option Event} {state : State} {after : List Token}
      (hEvent : event.toList.filterMap Event.symbol? = []) (hDoc : state.doc = none)
      (hAfter : after <:+ rest) : Reaction s t rest ⟨event, state, after⟩
  | virtual {state : State} {after : List Token} {symbol : Symbol} (hIsDoc : t.isDocComment = true)
      (hOverview : isOverview t = false)
      (hSymbol : virtual? (DocComment.parse t.text) t.line = some symbol)
      (hDoc : state.doc = none) (hAfter : after <:+ rest) :
      Reaction s t rest ⟨some (.symbol symbol), state, after⟩
  | declared {front behind after : List Token} {d : Token} {state : State} {symbol : Symbol}
      (hSplit : t :: rest = front ++ d :: behind) (hFront : front.length ≤ 1)
      (hFunction : ∀ f ∈ front, f.isNamed "function" = true) (hSymbol : Declared s.doc d.line symbol)
      (hDoc : state.doc = none) (hAfter : after <:+ behind) :
      Reaction s t rest ⟨some (.symbol symbol), state, after⟩

/-- A function is declared, or has neither a comment nor a place where it counts. -/
theorem readFunction_reaction {front : List Token} {d : Token}
    (hSplit : t :: rest = front ++ d :: behind) (hFront : front.length ≤ 1)
    (hFunction : ∀ f ∈ front, f.isNamed "function" = true) (hTokens : tokens <:+ behind)
    (path : Text) : Reaction s t rest (readFunction s path d.line tokens) := by
  have hAfter := (readParams_suffix tokens).trans hTokens
  have hBehind : behind <:+ rest := by
    cases front with
    | nil =>
        obtain ⟨-, rfl⟩ := List.cons.inj hSplit
        exact List.suffix_rfl
    | cons f others =>
        obtain ⟨-, rfl⟩ := List.cons.inj hSplit
        exact ⟨others ++ [d], by simp⟩
  unfold readFunction
  dsimp only
  cases hDoc : s.doc with
  | some doc =>
      exact .declared hSplit hFront hFunction (hDoc ▸ .documented doc path _ _ _) rfl hAfter
  | none =>
      dsimp only
      split
      · exact .silent rfl rfl (hAfter.trans hBehind)
      · exact .declared hSplit hFront hFunction (hDoc ▸ .bare path _ _) rfl hAfter

/-- A value gives at most the symbol of its declaration. -/
theorem readValue_reaction (h : tokens <:+ rest) (path : Text) :
    Reaction s t rest (readValue s path t.line tokens) := by
  have hSplit : t :: rest = [] ++ t :: rest := rfl
  -- Whatever is no function counts with a comment only, and nothing of it is read.
  have hOther : Reaction s t rest (readValue.readOther s path t.line tokens) := by
    unfold readValue.readOther
    dsimp only
    cases hDoc : s.doc with
    | some doc =>
        exact .declared hSplit (by simp) nofun (hDoc ▸ .documented doc path _ _ _) rfl h
    | none => exact .silent rfl rfl h
  unfold readValue
  split
  · next first after =>
      split
      · have hAfter := (dropName_suffix after).trans ((List.suffix_cons first after).trans h)
        exact readFunction_reaction hSplit (by simp) nofun hAfter path
      · exact hOther
  · exact hOther

/-- No comment waits behind a value. -/
theorem readValue_doc (s : State) (path : Text) (line : Nat) (tokens : List Token) :
    (readValue s path line tokens).state.doc = none := by
  unfold readValue
  split
  · split <;> rfl
  · rfl

/-- Tokens behind a finished step may be passed over. -/
theorem Reaction.skip {next : Step} {after : List Token} (h : Reaction s t rest next)
    (hDoc : next.state.doc = none) (hAfter : after <:+ next.rest) :
    Reaction s t rest { next with rest := after } := by
  cases h with
  | pass hPassed hSame => exact .silent rfl hDoc hAfter
  | wait hWaits hWaiting => exact absurd (hWaiting.symm.trans hDoc) (by simp)
  | silent hEvent _ hRest => exact .silent hEvent hDoc (hAfter.trans hRest)
  | virtual hIsDoc hOverview hSymbol _ hRest =>
      exact .virtual hIsDoc hOverview hSymbol hDoc (hAfter.trans hRest)
  | declared hSplit hFront hFunction hSymbol _ hRest =>
      exact .declared hSplit hFront hFunction hSymbol hDoc (hAfter.trans hRest)

/-- Any other token gives at most one symbol, on its line. -/
theorem readPlain_reaction (s : State) (t : Token) (rest : List Token) :
    Reaction s t rest (readPlain s t rest) := by
  unfold readPlain
  split
  · next name after hName =>
      obtain ⟨rfl, hNamed⟩ := functionName?_eq_some hName
      have hSplit : t :: name :: after = [t] ++ name :: after := rfl
      have hFunction : ∀ f ∈ [t], f.isNamed "function" = true := by simpa using hNamed
      exact readFunction_reaction hSplit (by simp) hFunction List.suffix_rfl _
  · split
    · next hKeyword =>
        have hPassed : isPassed t = true := by rw [isPassed, hKeyword, Bool.or_true]
        exact .pass hPassed rfl
    · split
      · next value hAssign =>
          have hValue : value <:+ rest := by
            split at hAssign
            · exact afterAssign?_suffix hAssign
            · cases hAssign
          split
          · exact .silent rfl rfl hValue
          · exact readValue_reaction hValue _
      · split
        · next scope value hKey =>
            have hValue : value <:+ rest := by
              split at hKey
              · exact afterKey?_suffix hKey
              · cases hKey
            exact (readValue_reaction hValue _).skip (readValue_doc _ _ _ _) (skipPlain_suffix _ _)
        · exact .silent rfl rfl List.suffix_rfl

/-- A doc comment gives at most the symbol that it names. -/
theorem readDoc_reaction (h : t.isDocComment = true) (s : State) (rest : List Token) :
    Reaction s t rest (readDoc s t rest) := by
  unfold readDoc
  dsimp only
  split
  · exact .silent rfl rfl List.suffix_rfl
  · next hOverview =>
      have hNot : isOverview t = false := Bool.eq_false_iff.mpr hOverview
      split
      · next symbol hSymbol => exact .virtual h hNot hSymbol rfl List.suffix_rfl
      · next hNone => exact .wait ⟨h, hNot, virtual?_eq_none_iff.mp hNone⟩ rfl

/-- Every step gives at most one symbol, on the line of its token. -/
theorem step_reaction (s : State) (t : Token) (rest : List Token) :
    Reaction s t rest (step s t rest) := by
  unfold step
  split
  · next hComment =>
      split
      · next hDoc => exact readDoc_reaction hDoc s rest
      · next hDoc => exact .pass (by simp [isPassed, hComment, hDoc]) rfl
  · split
    · exact .silent rfl rfl List.suffix_rfl
    · split
      · exact .silent rfl rfl List.suffix_rfl
      · exact readPlain_reaction s t rest

/-- The comment that waits in front of the next token: it stands behind the places of all earlier
symbols, and every token behind it has been passed. -/
def Awaits (before : List Token) (earlier : List Nat) (doc : Token) : Prop :=
  Waits doc ∧ ∃ index, (∀ p ∈ earlier, p < index) ∧ before[index]? = some doc ∧
    ∀ j t, index < j → before[j]? = some t → isPassed t = true

/-- A comment goes on waiting behind a token that is passed. -/
theorem Awaits.pass (h : Awaits before earlier doc) (hPassed : isPassed t = true) :
    Awaits (before ++ [t]) earlier doc := by
  obtain ⟨hWaits, index, hEarlier, hDoc, hBehind⟩ := h
  have hIndex := (List.getElem?_eq_some_iff.mp hDoc).1
  refine ⟨hWaits, index, hEarlier, ?_, ?_⟩
  · rw [List.getElem?_append_left hIndex]
    exact hDoc
  · intro j other hLt hOther
    by_cases hInside : j < before.length
    · rw [List.getElem?_append_left hInside] at hOther
      exact hBehind j other hLt hOther
    · rw [List.getElem?_append_right (by omega), List.getElem?_singleton] at hOther
      split at hOther <;> cases hOther
      exact hPassed

/-- A comment that waits is the last one. -/
theorem Awaits.last (h : Waits t) (hEarlier : ∀ p ∈ earlier, p < before.length) :
    Awaits (before ++ [t]) earlier t := by
  refine ⟨h, before.length, hEarlier, by simp, ?_⟩
  intro j other hLt hOther
  have hLength := (List.getElem?_eq_some_iff.mp hOther).1
  simp only [List.length_append, List.length_singleton] at hLength
  omega

/-- Where the symbol of the token at some place comes from, if the symbols before it belong to the
tokens at the earlier places. -/
inductive Origin (tokens : List Token) (earlier : List Nat) (place : Nat) (symbol : Symbol) : Prop
  /-- The token is a doc comment that gives a name. -/
  | virtual (comment : Token) (hComment : tokens[place]? = some comment)
      (hIsDoc : comment.isDocComment = true) (hOverview : isOverview comment = false)
      (hName : givenName comment ≠ [])
      (hDescription : symbol.description = (DocComment.parse comment.text).description)
      (hTags : symbol.tags = (DocComment.parse comment.text).tags.drop "name")
  /-- The token is declared as a function about which nothing is said. -/
  | undocumented (hKind : symbol.kind = .function)
      (hDescription : symbol.description = "undocumented") (hTags : symbol.tags = .empty)
  /-- The token is declared right behind a doc comment. -/
  | documented (index : Nat) (comment : Token) (hEarlier : ∀ p ∈ earlier, p < index)
      (hBefore : index < place) (hComment : tokens[index]? = some comment) (hWaits : Waits comment)
      (hBetween : ∀ j t, index < j → j < place → tokens[j]? = some t →
        isPassed t = true ∨ j + 1 = place ∧ t.isNamed "function" = true)
      (hDescription : symbol.description = (DocComment.parse comment.text).description)
      (hTags : symbol.tags = (DocComment.parse comment.text).tags)

theorem Origin.of_virtual? (hIsDoc : t.isDocComment = true) (hOverview : isOverview t = false)
    (hSymbol : virtual? (DocComment.parse t.text) t.line = some symbol) :
    symbol.line = t.line ∧ Origin (before ++ t :: behind) earlier before.length symbol := by
  have hName : givenName t ≠ [] := by
    rw [Ne, ← virtual?_eq_none_iff, hSymbol]
    simp
  obtain ⟨value, _, hSymbol⟩ := Option.bind_eq_some_iff.mp hSymbol
  obtain ⟨name, _, rfl⟩ := Option.map_eq_some_iff.mp hSymbol
  exact ⟨rfl, .virtual t (by simp) hIsDoc hOverview hName rfl rfl⟩

/-- A declaration takes the comment that waits. Between the two there are passed tokens, and
`function` in front of the name that it declares. -/
theorem Origin.of_declared {front : List Token} {d : Token} {waiting : Option Token}
    (hWaiting : ∀ doc, waiting = some doc → Awaits before earlier doc) (hFront : front.length ≤ 1)
    (hFunction : ∀ f ∈ front, f.isNamed "function" = true)
    (hSymbol : Declared waiting d.line symbol) :
    symbol.line = d.line ∧
      Origin (before ++ front ++ d :: behind) earlier (before ++ front).length symbol := by
  cases hSymbol with
  | bare path params => exact ⟨rfl, .undocumented rfl rfl rfl⟩
  | documented doc path kind params =>
      obtain ⟨hWaits, index, hEarlier, hDoc, hBehind⟩ := hWaiting doc rfl
      have hIndex := (List.getElem?_eq_some_iff.mp hDoc).1
      refine ⟨rfl, .documented index doc hEarlier ?_ ?_ hWaits ?_ rfl rfl⟩
      · rw [List.length_append]
        omega
      · rw [List.append_assoc, List.getElem?_append_left hIndex]
        exact hDoc
      · intro j t hLt hPlace hToken
        rw [List.getElem?_append_left hPlace] at hToken
        by_cases hInside : j < before.length
        · rw [List.getElem?_append_left hInside] at hToken
          exact Or.inl (hBehind j t hLt hToken)
        · rw [List.getElem?_append_right (by omega)] at hToken
          rw [List.length_append] at hPlace ⊢
          exact Or.inr ⟨by omega, hFunction t (List.mem_of_getElem? hToken)⟩

/-- Symbols arise in order from the tokens at the given places, which lie behind earlier ones. -/
inductive Arise (tokens : List Token) : List Nat → List Symbol → List Nat → Prop
  | nil (earlier : List Nat) : Arise tokens earlier [] []
  | cons {earlier places : List Nat} {symbols : List Symbol} {place : Nat} {t : Token}
      {symbol : Symbol} (hEarlier : ∀ p ∈ earlier, p < place) (hToken : tokens[place]? = some t)
      (hOrigin : symbol.line = t.line ∧ Origin tokens earlier place symbol)
      (after : Arise tokens (earlier ++ [place]) symbols places) :
      Arise tokens earlier (symbol :: symbols) (place :: places)

namespace Arise

variable {places : List Nat} {symbols : List Symbol}

theorem length_eq (h : Arise tokens earlier symbols places) : places.length = symbols.length := by
  induction h with
  | nil => rfl
  | cons _ _ _ _ ih => rw [List.length_cons, List.length_cons, ih]

/-- Symbols come from tokens further and further on. -/
theorem ascending (h : Arise tokens earlier symbols places) :
    places.Pairwise (· < ·) ∧ ∀ p ∈ earlier, ∀ q ∈ places, p < q := by
  induction h with
  | nil => exact ⟨List.Pairwise.nil, by simp⟩
  | cons hEarlier _ _ _ ih =>
      obtain ⟨hAfter, hBehind⟩ := ih
      refine ⟨List.pairwise_cons.mpr ⟨?_, hAfter⟩, ?_⟩
      · exact hBehind _ (by simp)
      · intro p hp q hq
        rcases List.mem_cons.mp hq with rfl | hq
        · exact hEarlier p hp
        · exact hBehind p (by simp [hp]) q hq

theorem origin (h : Arise tokens earlier symbols places) (k place : Nat) (symbol : Symbol)
    (hPlace : places[k]? = some place) (hSymbol : symbols[k]? = some symbol) :
    (∃ t, tokens[place]? = some t ∧ symbol.line = t.line) ∧
      Origin tokens (earlier ++ places.take k) place symbol := by
  induction h generalizing k with
  | nil => simp at hPlace
  | cons hEarlier hToken hOrigin after ih =>
      cases k with
      | zero =>
          obtain rfl := Option.some.inj hPlace
          obtain rfl := Option.some.inj hSymbol
          rw [List.take_zero, List.append_nil]
          exact ⟨⟨_, hToken, hOrigin.1⟩, hOrigin.2⟩
      | succ k =>
          have hNext := ih k hPlace hSymbol
          rwa [List.append_assoc] at hNext

end Arise

/-- What a step keeps: it takes some tokens and leaves the others, and then the comment that waits
stands behind earlier symbols still; or there is one more symbol and no comment. -/
theorem Reaction.silent_or_arises {next : Step} (h : Reaction s t rest next)
    (hEarlier : ∀ p ∈ earlier, p < before.length)
    (hDoc : ∀ doc, s.doc = some doc → Awaits before earlier doc) :
    ∃ taken, t :: rest = taken ++ next.rest ∧
      (next.event.toList.filterMap Event.symbol? = [] ∧
          (∀ doc, next.state.doc = some doc → Awaits (before ++ taken) earlier doc) ∨
        ∃ symbol place d, next.event = some (.symbol symbol) ∧ next.state.doc = none ∧
          before.length ≤ place ∧ place < (before ++ taken).length ∧
          (before ++ t :: rest)[place]? = some d ∧
          symbol.line = d.line ∧ Origin (before ++ t :: rest) earlier place symbol) := by
  cases h with
  | pass hPassed hSame =>
      refine ⟨[t], rfl, Or.inl ⟨rfl, fun doc hState => ?_⟩⟩
      exact (hDoc doc (hSame ▸ hState)).pass hPassed
  | wait hWaits hState =>
      refine ⟨[t], rfl, Or.inl ⟨rfl, fun doc hNext => ?_⟩⟩
      obtain rfl : t = doc := Option.some.inj (hState.symm.trans hNext)
      exact .last hWaits hEarlier
  | silent hEvent hState hAfter =>
      obtain ⟨skipped, rfl⟩ := hAfter
      exact ⟨t :: skipped, rfl, Or.inl ⟨hEvent, fun doc hNext => by simp [hState] at hNext⟩⟩
  | @virtual state after symbol hIsDoc hOverview hSymbol hState hAfter =>
      obtain ⟨skipped, rfl⟩ := hAfter
      exact ⟨t :: skipped, rfl, Or.inr ⟨symbol, before.length, t, rfl, hState, Nat.le_refl _,
        by simp, by simp, Origin.of_virtual? hIsDoc hOverview hSymbol⟩⟩
  | @declared front behind after d state symbol hSplit hFront hFunction hSymbol hState hAfter =>
      obtain ⟨skipped, rfl⟩ := hAfter
      rw [hSplit, ← List.append_assoc]
      exact ⟨front ++ d :: skipped, by simp, Or.inr ⟨symbol, (before ++ front).length, d, rfl,
        hState, by simp, by simp, by simp, Origin.of_declared hDoc hFront hFunction hSymbol⟩⟩

/-- Reading on behind some tokens. The induction follows the steps; it carries where the comment
stands that waits. -/
theorem exists_places (before : List Token) (earlier : List Nat)
    (hEarlier : ∀ p ∈ earlier, p < before.length)
    (hDoc : ∀ doc, s.doc = some doc → Awaits before earlier doc) :
    ∃ places, Arise (before ++ ahead) earlier ((events s ahead).filterMap Event.symbol?) places := by
  fun_induction events s ahead generalizing before earlier with
  | case1 s => exact ⟨[], .nil earlier⟩
  | case2 s t rest ih =>
      obtain ⟨taken, hTaken, hStep⟩ := (step_reaction s t rest).silent_or_arises hEarlier hDoc
      have hBehind : ∀ p ∈ earlier, p < (before ++ taken).length := by
        intro p hp
        rw [List.length_append]
        exact Nat.lt_add_right _ (hEarlier p hp)
      rcases hStep with ⟨hNone, hNext⟩ | ⟨symbol, place, d, hEvent, hNext, hLe, hLt, hToken, hOrigin⟩
      · obtain ⟨places, hPlaces⟩ := ih (before ++ taken) earlier hBehind hNext
        rw [List.append_assoc, ← hTaken] at hPlaces
        exact ⟨places, by rwa [List.filterMap_append, hNone, List.nil_append]⟩
      · have hPlace : ∀ p ∈ earlier ++ [place], p < (before ++ taken).length := by
          intro p hp
          rcases List.mem_append.mp hp with hp | hp
          · exact hBehind p hp
          · rwa [List.mem_singleton.mp hp]
        obtain ⟨places, hPlaces⟩ := ih (before ++ taken) (earlier ++ [place]) hPlace
          (fun doc hSome => by simp [hNext] at hSome)
        rw [List.append_assoc, ← hTaken] at hPlaces
        refine ⟨place :: places, ?_⟩
        rw [hEvent]
        exact .cons (fun p hp => Nat.lt_of_lt_of_le (hEarlier p hp) hLe) hToken hOrigin hPlaces

/-- Every doc comment documents at most one symbol, the one right after it, and symbols come in the
order of the script. Each symbol belongs to a token on its line, and these tokens come one after the
other. The token is itself a doc comment that gives a name; or it is a function about which nothing
is said; or it has a doc comment before it, behind the tokens of all earlier symbols and with
nothing but other comments and keywords in between, whose description and tags the symbol has. -/
theorem ofTokens_origins (tokens : List Token) :
    ∃ places : List Nat,
      places.length = (ofTokens tokens).symbols.length ∧
      places.Pairwise (· < ·) ∧
      ∀ k place symbol, places[k]? = some place → (ofTokens tokens).symbols[k]? = some symbol →
        (∃ t, tokens[place]? = some t ∧ symbol.line = t.line) ∧
          Origin tokens (places.take k) place symbol := by
  obtain ⟨places, hPlaces⟩ : ∃ places, Arise tokens [] (ofTokens tokens).symbols places :=
    exists_places [] [] nofun nofun
  exact ⟨places, hPlaces.length_eq, hPlaces.ascending.1, hPlaces.origin⟩

/-- A comment with a name, one in front of a function, and one that a semicolon cuts off from the
function behind it. -/
def lampTokens : List Token :=
  [⟨.comment, "/** A lamp.\n@name Lamp */", 1⟩, ⟨.comment, "/** Lights it. */", 3⟩,
    ⟨.comment, "// soon", 4⟩, ⟨.name, "function", 5⟩, ⟨.name, "light", 6⟩, ⟨.punctuation, "(", 6⟩,
    ⟨.punctuation, ")", 6⟩, ⟨.comment, "/** Lost. */", 7⟩, ⟨.punctuation, ";", 7⟩,
    ⟨.name, "var", 8⟩, ⟨.name, "dim", 9⟩, ⟨.punctuation, "=", 9⟩, ⟨.name, "function", 9⟩]

theorem ofTokens_origins_lamp :
    (ofTokens lampTokens).symbols.map (fun symbol => (symbol.description, symbol.line)) =
        [(("A lamp." : Text), 1), ("Lights it.", 6), ("undocumented", 9)] ∧
      ∃ places : List Nat, places.length = 3 ∧ places.Pairwise (· < ·) ∧
        ∀ k place symbol, places[k]? = some place →
          (ofTokens lampTokens).symbols[k]? = some symbol →
          Origin lampTokens (places.take k) place symbol := by
  obtain ⟨places, hLength, hAscending, hOrigin⟩ := ofTokens_origins lampTokens
  have hSymbols : (ofTokens lampTokens).symbols.map (fun symbol => (symbol.description, symbol.line))
      = [(("A lamp." : Text), 1), ("Lights it.", 6), ("undocumented", 9)] := by
    decide +kernel
  refine ⟨hSymbols, places, ?_, hAscending, ?_⟩
  · rw [hLength, ← List.length_map, hSymbols]
    rfl
  · intro k place symbol hPlace hSymbol
    exact (hOrigin k place symbol hPlace hSymbol).2

end ScriptDoc.Outline
