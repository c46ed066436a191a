import Mathlib.Data.List.Forall2
import ScriptDoc.Proofs.Resolution.FullNames

/-! What comes of the symbols that comments speak about. A symbol does not record whether a comment
speaks about it, and whether it counts as documented is read off its description. The two differ for
a single word, which stands in the place of a missing description: a comment that says no more than
this word is taken for none. -/
namespace ScriptDoc

namespace Outline

variable {s : State} {t : Token} {rest tokens : List Token} {symbol : Symbol}

/-- A symbol that is found, and the comment on account of which it is. -/
structure Finding where
  symbol : Symbol
  comment? : Option Token

/-- The comment on account of which a step finds what it finds: the token itself, or the comment that
waits. -/
def speaker? (s : State) (t : Token) : Option Token :=
  if t.isDocComment then some t else s.doc

/-- What is found from some state on, with the comments. -/
def findings (s : State) : List Token → List Finding
  | [] => []
  | t :: rest =>
    ((step s t rest).event.toList.filterMap Event.symbol?).map (⟨·, speaker? s t⟩) ++
      findings (step s t rest).state (step s t rest).rest
termination_by tokens => tokens.length
decreasing_by
  have hLe := step_length_le s t rest
  simp only [List.length_cons]
  omega

/-- Without the comments, the findings are the raw symbols. -/
theorem map_symbol_findings (s : State) (tokens : List Token) :
    (findings s tokens).map Finding.symbol = (events s tokens).filterMap Event.symbol? := by
  fun_induction findings s tokens with
  | case1 s => rw [events]; rfl
  | case2 s t rest ih =>
      rw [events, List.filterMap_append, List.map_append, ih, List.map_map]
      exact congrArg (· ++ _) (List.map_id _)

/-- What a finding says. One on account of a comment has the description of that comment, which is a
doc comment of the script; about any other nothing is said. -/
inductive Told (tokens : List Token) : Finding → Prop
  | comment (symbol : Symbol) (comment : Token) (hMem : comment ∈ tokens)
      (hIsDoc : comment.isDocComment = true)
      (hDescription : symbol.description = (DocComment.parse comment.text).description) :
      Told tokens ⟨symbol, some comment⟩
  | bare (symbol : Symbol) (hDescription : symbol.description = "undocumented")
      (hTags : symbol.tags = .empty) : Told tokens ⟨symbol, none⟩

theorem step_of_isDocComment (h : t.isDocComment = true) (s : State) (rest : List Token) :
    step s t rest = readDoc s t rest := by
  have hKind : t.kind = .comment := by
    rw [Token.isDocComment, Bool.and_eq_true, Bool.and_eq_true, beq_iff_eq] at h
    exact h.1.1
  rw [step, if_pos hKind, if_pos h]

/-- A symbol of its own has the description of its comment. -/
theorem description_of_virtual? {comment : DocComment} {line : Nat}
    (h : virtual? comment line = some symbol) : symbol.description = comment.description := by
  obtain ⟨value, _, hSymbol⟩ := Option.bind_eq_some_iff.mp h
  obtain ⟨name, _, rfl⟩ := Option.map_eq_some_iff.mp hSymbol
  rfl

/-- The comment that waits is a doc comment of the script. -/
def DocFrom (tokens : List Token) (s : State) : Prop :=
  ∀ doc ∈ s.doc, doc ∈ tokens ∧ doc.isDocComment = true

/-- Where no comment waits there is nothing to show. -/
theorem DocFrom.of_eq_none (h : s.doc = none) : DocFrom tokens s := by
  intro doc hDoc
  rw [h] at hDoc
  cases hDoc

/-- A declared symbol has the comment that waited for it. -/
theorem Told.of_declared {line : Nat} (h : DocFrom tokens s) (hSymbol : Declared s.doc line symbol) :
    Told tokens ⟨symbol, s.doc⟩ := by
  cases hDoc : s.doc with
  | none =>
      rw [hDoc] at hSymbol
      cases hSymbol
      exact .bare _ rfl rfl
  | some doc =>
      rw [hDoc] at hSymbol
      obtain ⟨hMem, hIsDoc⟩ := h doc hDoc
      cases hSymbol
      exact .comment _ doc hMem hIsDoc rfl

/-- What one step keeps: the comment that waits is one of the script, and what is found is told by the
comment that speaks. -/
theorem step_told (h : DocFrom tokens s) (hMem : t ∈ tokens) (rest : List Token) :
    DocFrom tokens (step s t rest).state ∧
      ∀ symbol ∈ (step s t rest).event.toList.filterMap Event.symbol?,
        Told tokens ⟨symbol, speaker? s t⟩ := by
  by_cases hIsDoc : t.isDocComment = true
  · -- A doc comment declares nothing, so what is found is a symbol of its own.
    rw [step_of_isDocComment hIsDoc, readDoc, speaker?, if_pos hIsDoc]
    split
    · exact ⟨.of_eq_none rfl, List.forall_mem_nil _⟩
    · split
      · next symbol hSymbol =>
          refine ⟨.of_eq_none rfl, List.forall_mem_singleton.mpr ?_⟩
          exact .comment symbol t hMem hIsDoc (description_of_virtual? hSymbol)
      · refine ⟨?_, List.forall_mem_nil _⟩
        rintro doc ⟨⟩
        exact ⟨hMem, hIsDoc⟩
  · rw [speaker?, if_neg hIsDoc]
    generalize hNext : step s t rest = next
    have hReaction := step_reaction s t rest
    rw [hNext] at hReaction
    cases hReaction with
    | pass hPassed hDoc => exact ⟨by rwa [DocFrom, hDoc], List.forall_mem_nil _⟩
    | wait hWaits hDoc => exact absurd hWaits.isDoc hIsDoc
    | silent hEvent hDoc hAfter =>
        rw [hEvent]
        exact ⟨.of_eq_none hDoc, List.forall_mem_nil _⟩
    | virtual hDoc hOverview hSymbol hState hAfter => exact absurd hDoc hIsDoc
    | declared hSplit hFront hFunction hSymbol hDoc hAfter =>
        exact ⟨.of_eq_none hDoc, List.forall_mem_singleton.mpr (.of_declared h hSymbol)⟩

/-- The induction follows the steps; it carries where the comment that waits comes from. -/
theorem findings_told {ahead : List Token} (h : DocFrom tokens s) (hAhead : ∀ t ∈ ahead, t ∈ tokens) :
    ∀ f ∈ findings s ahead, Told tokens f := by
  fun_induction findings s ahead with
  | case1 s => exact List.forall_mem_nil _
  | case2 s t rest ih =>
      obtain ⟨hFirst, hRest⟩ := List.forall_mem_cons.mp hAhead
      obtain ⟨hNext, hFound⟩ := step_told h hFirst rest
      rw [List.forall_mem_append, List.forall_mem_map]
      exact ⟨hFound, ih hNext fun t hMem => hRest t ((step_suffix s _ rest).subset hMem)⟩

end Outline

namespace Resolution

open Outline (Finding findings)

/-- A symbol of a document stands for a raw one: it keeps what the raw one declares, under the names
that the path and the tags of the raw one give it. -/
structure StandsFor (raw s : Symbol) : Prop where
  retains : Retains raw s
  called : calling s = calling (settle (foldMemberOf raw))

/-- The options show symbols about which nothing is said, as far as their names are like this one. -/
def ShowsBare (o : Options) (s : Symbol) : Prop :=
  o.allFunctionsUnderscored.truthy = true ∨
    o.allFunctions.truthy = true ∧ ∀ segment ∈ segments (foldedName s), segment.head? ≠ some (.char '_')

/-- What is shown stands in the document, one for one and in order. -/
theorem document_standsFor (o : Options) (path : Text) (overview : Option Text) (raw : List Symbol) :
    List.Forall₂ StandsFor (raw.filter fun s => IsShown o s)
      (document o.visibility path raw overview).1.symbols := by
  let portrait : Symbol → Symbol × Text × Text × Text := fun s => (declared s, calling s)
  have hPortraits : (raw.filter fun s => IsShown o s).map (fun s => portrait (settle (foldMemberOf s))) =
      (document o.visibility path raw overview).1.symbols.map portrait := by
    have hSymbols : (document o.visibility path raw overview).1.symbols =
        (linkAll [] (raw.filterMap (admitted? o.visibility))).1 := rfl
    rw [hSymbols, filterMap_admitted?, map_linkAll portrait]
    · rw [List.map_map]
      rfl
    · intro parent kind member
      cases kind <;> rfl
    · intro symbols s
      rfl
  rw [← List.forall₂_eq_eq_eq, List.forall₂_map_left_iff, List.forall₂_map_right_iff] at hPortraits
  refine hPortraits.imp fun first s hSame => ?_
  obtain ⟨hDeclared, hCalling⟩ := Prod.mk.inj hSame
  rw [declared_settle] at hDeclared
  exact ⟨(foldMemberOf_retains first).of_declared_eq hDeclared, hCalling.symm⟩

/-- The places of the findings that are shown. -/
def shownPlaces (o : Options) (found : List Finding) : List Nat :=
  (found.zipIdx.filter fun f => IsShown o f.1.symbol).map Prod.snd

/-- A finding has a place in the document exactly if it is shown. -/
theorem mem_shownPlaces_iff {o : Options} {found : List Finding} {place : Nat} {f : Finding}
    (h : found[place]? = some f) : place ∈ shownPlaces o found ↔ IsShown o f.symbol := by
  simp [shownPlaces, List.mem_zipIdx_iff_getElem?, h]

/-- Places of what is shown are in order. -/
theorem shownPlaces_ascending (o : Options) (found : List Finding) :
    (shownPlaces o found).Pairwise (· < ·) := by
  have hAll : (found.zipIdx.map Prod.snd).Pairwise (· < ·) := by
    rw [List.zipIdx_map_snd]
    exact List.pairwise_lt_range'
  exact hAll.sublist (List.filter_sublist.map Prod.snd)

/-- The finding at a place stands in a document as some symbol. -/
def StandsAt (found : List Finding) (place : Nat) (s : Symbol) : Prop :=
  ∃ f, found[place]? = some f ∧ StandsFor f.symbol s

/-- Every documented symbol stands for one finding, in their order. -/
theorem document_standsAt (o : Options) (path : Text) (overview : Option Text) (found : List Finding) :
    List.Forall₂ (StandsAt found) (shownPlaces o found)
      (document o.visibility path (found.map Finding.symbol) overview).1.symbols := by
  have hStands := document_standsFor o path overview (found.map Finding.symbol)
  have hNumbered : found.map Finding.symbol = found.zipIdx.map fun f => f.1.symbol := by
    rw [← List.zipIdx_map_fst 0 found, List.map_map, List.zipIdx_map_fst]
    rfl
  generalize (document o.visibility path (found.map Finding.symbol) overview).1.symbols = symbols at *
  rw [hNumbered, List.filter_map, List.forall₂_map_left_iff] at hStands
  rw [shownPlaces, List.forall₂_map_left_iff]
  have hPlaces : ∀ f ∈ found.zipIdx.filter fun f => IsShown o f.1.symbol,
      found[f.2]? = some f.1 := fun f hMem =>
    List.mem_zipIdx_iff_getElem?.mp (List.mem_filter.mp hMem).1
  refine ((List.forall₂_and_left _ _).mpr ⟨hPlaces, hStands⟩).imp ?_
  rintro f s ⟨hPlace, hFor⟩
  exact ⟨f.1, hPlace, hFor⟩

/-- A symbol that a comment speaks about is in the document unless the comment says it is
undocumented. For every text that has tokens, every path and all options, the document holds findings
of the text, each once and in order. A finding is told by the comment on account of which it is found;
and with such a comment, and neither of the tags that hide it, it is in the document exactly if the
description is not the one word that stands for a missing one, or the options show symbols about which
nothing is said. -/
theorem documents_keep_documented {ε : Type} (o : Options) (path text : Text) (tokens : List Token)
    (hTokens : Token.tokenize text = .ok tokens) :
    (findings {} tokens).map Finding.symbol = (Outline.ofTokens tokens).symbols ∧
      (∀ f ∈ findings {} tokens, Outline.Told tokens f) ∧
      ∃ d places, (documents o.visibility (fun _ => (.ok text : Except ε Text)) [path]).result = .ok [d] ∧
        places.Pairwise (· < ·) ∧ List.Forall₂ (StandsAt (findings {} tokens)) places d.symbols ∧
        ∀ place f comment, (findings {} tokens)[place]? = some f → f.comment? = some comment →
          ("ignore" : Text) ∉ f.symbol.tags.names → ("private" : Text) ∉ f.symbol.tags.names →
            (place ∈ places ↔
              (DocComment.parse comment.text).description ≠ "undocumented" ∨ ShowsBare o f.symbol) := by
  have hSymbols : (findings {} tokens).map Finding.symbol = (Outline.ofTokens tokens).symbols :=
    Outline.map_symbol_findings {} tokens
  have hTold : ∀ f ∈ findings {} tokens, Outline.Told tokens f :=
    Outline.findings_told (.of_eq_none rfl) fun _ hMem => hMem
  refine ⟨hSymbols, hTold, _, shownPlaces o (findings {} tokens),
    congrArg Logged.result (documents_of_tokens hTokens o.visibility path),
    shownPlaces_ascending o _, hSymbols ▸ document_standsAt o path _ _, ?_⟩
  rintro place ⟨symbol, _⟩ comment hPlace rfl hIgnore hPrivate
  have hDescription : symbol.description = (DocComment.parse comment.text).description := by
    cases hTold _ (List.mem_of_getElem? hPlace) with
    | comment _ _ _ _ hDescription => exact hDescription
  rw [mem_shownPlaces_iff hPlace, ← hDescription]
  exact ⟨fun hShown => hShown.2.2, fun hSaid => ⟨hIgnore, fun hMem => absurd hMem hPrivate, hSaid⟩⟩

/-- A comment with a name, and a function with a comment in front of it. -/
def shelfScript : Text :=
  "/** A shelf.\n@name Shelf */ /** Fills it. */ function fill() {}"

def shelfTokens : List Token :=
  [⟨.comment, "/** A shelf.\n@name Shelf */", 1⟩, ⟨.comment, "/** Fills it. */", 2⟩,
    ⟨.name, "function", 2⟩, ⟨.name, "fill", 2⟩, ⟨.punctuation, "(", 2⟩, ⟨.punctuation, ")", 2⟩,
    ⟨.punctuation, ['{'], 2⟩, ⟨.punctuation, ['}'], 2⟩]

theorem documents_keep_documented_shelf :
    Token.tokenize shelfScript = .ok shelfTokens ∧
      (findings {} shelfTokens).map (fun f => (f.symbol.name, f.comment?, f.symbol.tags.names)) =
        [(("Shelf" : Text), shelfTokens[0]?, []), ("fill", shelfTokens[1]?, [])] ∧
      ∃ d places, (documents ({} : Options).visibility
          (fun _ => (.ok shelfScript : Except Unit Text)) ["shelf.js"]).result = .ok [d] ∧
        List.Forall₂ (StandsAt (findings {} shelfTokens)) places d.symbols ∧
        ∀ place f comment, (findings {} shelfTokens)[place]? = some f → f.comment? = some comment →
          ("ignore" : Text) ∉ f.symbol.tags.names → ("private" : Text) ∉ f.symbol.tags.names →
            (place ∈ places ↔ (DocComment.parse comment.text).description ≠ "undocumented" ∨
              ShowsBare {} f.symbol) := by
  have hTokens : Token.tokenize shelfScript = .ok shelfTokens := by decide +kernel
  obtain ⟨_, _, d, places, hResult, _, hStands, hKept⟩ :=
    documents_keep_documented {} "shelf.js" shelfScript shelfTokens hTokens
  exact ⟨hTokens, by decide +kernel, d, places, hResult, hStands, hKept⟩

/-- A function whose comment says that it is undocumented. -/
def denialScript : Text :=
  "/** undocumented */ function f() {}"

def denialTokens : List Token :=
  [⟨.comment, "/** undocumented */", 1⟩, ⟨.name, "function", 1⟩, ⟨.name, "f", 1⟩,
    ⟨.punctuation, "(", 1⟩, ⟨.punctuation, ")", 1⟩, ⟨.punctuation, ['{'], 1⟩,
    ⟨.punctuation, ['}'], 1⟩]

/-- The function is found on account of its comment, which has no tags, and is not in the document. -/
theorem documents_drop_documented :
    Token.tokenize denialScript = .ok denialTokens ∧
      (findings {} denialTokens).map (fun f => (f.symbol.name, f.comment?, f.symbol.tags.names)) =
        [(("f" : Text), denialTokens[0]?, [])] ∧
      ∃ d, (documents ({} : Options).visibility (fun _ => (.ok denialScript : Except Unit Text))
        ["a.js"]).result = .ok [d] ∧ d.symbols = [] := by
  have hTokens : Token.tokenize denialScript = .ok denialTokens := by decide +kernel
  refine ⟨hTokens, by decide +kernel, _,
    congrArg Logged.result (documents_of_tokens hTokens ({} : Options).visibility "a.js"), ?_⟩
  exact List.length_eq_zero_iff.mp (by decide +kernel)

end Resolution
end ScriptDoc
