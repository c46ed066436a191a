import ScriptDoc.Proofs.Outline.Origins
import ScriptDoc.Proofs.Resolution.Files
import ScriptDoc.Proofs.Resolution.Members
import ScriptDoc.Proofs.Resolution.Names
import ScriptDoc.Proofs.Resolution.Selection

/-! The names of a resolved symbol fit together: the full name is the name, behind the parent and a
dot if there is a parent. A symbol that was declared under a plain name gets its parent from a tag
alone. The parent that the tag names is put before the name and cut off again, and it comes off
exactly if it is not empty and does not go over the end of a line. -/
namespace ScriptDoc

/-- The name of a symbol is one segment, and the full name is what parent and name make up. -/
structure Symbol.NamesAgree (s : Symbol) : Prop where
  segment : .char '/' ∉ s.name
  fullName : s.fullName = if s.memberOf = [] then s.name else s.memberOf ++ "." ++ s.name

/-- The parent that a tag gives to a raw symbol. -/
def Symbol.givenParent? (s : Symbol) : Option Text :=
  (s.tags.get "memberof").head?

namespace Outline

/-! Raw symbols are as they are first made. -/

/-- A declared symbol has a path for its name and no relations. -/
theorem Declared.isFresh {doc : Option Token} {line : Nat} {symbol : Symbol}
    (h : Declared doc line symbol) : symbol.IsFresh := by
  cases h with
  | documented doc path kind params line => exact Symbol.isFresh_fresh ..
  | bare path params line => exact Symbol.isFresh_fresh ..

theorem isFresh_of_virtual? {comment : DocComment} {line : Nat} {symbol : Symbol}
    (h : virtual? comment line = some symbol) : symbol.IsFresh := by
  obtain ⟨value, _, hSymbol⟩ := Option.bind_eq_some_iff.mp h
  obtain ⟨name, _, rfl⟩ := Option.map_eq_some_iff.mp hSymbol
  exact Symbol.isFresh_fresh ..

/-- The symbol of a step is fresh. -/
theorem Reaction.isFresh {s : State} {t : Token} {rest : List Token} {next : Step}
    (h : Reaction s t rest next) :
    ∀ symbol ∈ next.event.toList.filterMap Event.symbol?, symbol.IsFresh := by
  intro symbol hMem
  cases h with
  | pass _ _ => cases hMem
  | wait _ _ => cases hMem
  | silent hEvent _ _ =>
      rw [hEvent] at hMem
      cases hMem
  | virtual _ _ hSymbol _ _ =>
      obtain rfl := List.mem_singleton.mp hMem
      exact isFresh_of_virtual? hSymbol
  | declared _ _ _ hSymbol _ _ =>
      obtain rfl := List.mem_singleton.mp hMem
      exact hSymbol.isFresh

/-- All symbols that are found are fresh. -/
theorem events_isFresh (s : State) (tokens : List Token) :
    ∀ symbol ∈ (events s tokens).filterMap Event.symbol?, symbol.IsFresh := by
  fun_induction events s tokens with
  | case1 s => exact List.forall_mem_nil _
  | case2 s t rest ih =>
      rw [List.filterMap_append, List.forall_mem_append]
      exact ⟨(step_reaction s t rest).isFresh, ih⟩

theorem ofTokens_isFresh (tokens : List Token) :
    ∀ symbol ∈ (ofTokens tokens).symbols, symbol.IsFresh :=
  events_isFresh {} tokens

end Outline

namespace Resolution

/-- What a symbol is called. -/
def calling (s : Symbol) : Text × Text × Text :=
  (s.name, s.fullName, s.memberOf)

/-- Whether names agree is told by the names alone. -/
theorem namesAgree_congr {s other : Symbol} (h : calling s = calling other) :
    s.NamesAgree ↔ other.NamesAgree := by
  simp only [calling, Prod.mk.injEq] at h
  obtain ⟨hName, hFull, hMember⟩ := h
  constructor
  · rintro ⟨hSegment, hFits⟩
    exact ⟨hName ▸ hSegment, by rw [← hName, ← hFull, ← hMember, hFits]⟩
  · rintro ⟨hSegment, hFits⟩
    exact ⟨hName ▸ hSegment, by rw [hName, hFull, hMember, hFits]⟩

/-- The dotted form of a member is that of its parent, a dot and its own. -/
theorem dotted_append_slash (parent member : Text) :
    dotted (parent ++ .char '/' :: member) = dotted parent ++ "." ++ dotted member := by
  simp [dotted, Text.replace, Text.ofString, Text.ofChars]

theorem dotted_eq_nil_iff {path : Text} : dotted path = [] ↔ path = [] := by
  simp [dotted, Text.replace]

/-- Without a tag a plain name stays as it is. -/
theorem namesAgree_of_no_parent {raw : Symbol} (hFresh : raw.IsFresh)
    (hSlash : .char '/' ∉ raw.name) (hNone : raw.givenParent? = none) :
    (settle (foldMemberOf raw)).NamesAgree := by
  have hTag : raw.tags.get "memberof" = [] := List.head?_eq_none_iff.mp hNone
  have hFold : foldMemberOf raw = raw := by rw [foldMemberOf, hTag]
  rw [hFold, settle_of_none (splitMember?_eq_none_of_not_mem hSlash)]
  exact ⟨hSlash, by rw [if_pos hFresh.memberOf, hFresh.fullName]⟩

/-- A parent that a tag names comes off the name again exactly if it is not empty and on one line.
Otherwise the slash behind it stays in the name. -/
theorem namesAgree_of_parent {raw : Symbol} {parent : Text} (hName : raw.name ≠ [])
    (hSlash : .char '/' ∉ raw.name) (hParent : raw.givenParent? = some parent) :
    (settle (foldMemberOf raw)).NamesAgree ↔ parent ≠ [] ∧ .char '\n' ∉ parent := by
  have hFolded : (foldMemberOf raw).name = parent ++ .char '/' :: raw.name := by
    have hHead : (raw.tags.get "memberof").head? = some parent := hParent
    rw [foldMemberOf_name, foldedName, hHead]
    exact List.append_assoc _ _ _
  have hSplit := splitMember?_append_slash parent hSlash
  rw [← hFolded] at hSplit
  by_cases hCut : parent ≠ [] ∧ .char '\n' ∉ parent
  · rw [if_neg (by simp [hName, hCut])] at hSplit
    refine iff_of_true ?_ hCut
    rw [settle_of_some hSplit]
    refine ⟨hSlash, ?_⟩
    rw [if_neg (mt dotted_eq_nil_iff.mp hCut.1), hFolded, dotted_append_slash,
      dotted_of_not_mem hSlash]
  · rw [if_pos (by simp only [hName, false_or]; tauto)] at hSplit
    refine iff_of_false ?_ hCut
    rw [settle_of_none hSplit]
    rintro ⟨hSegment, _⟩
    exact hSegment (by simp [hFolded])

/-- After folding and settling, a symbol of a plain name has names that agree exactly if the parent
that a tag gives it, if there is one, is not empty and on one line. -/
theorem namesAgree_iff {raw : Symbol} (hFresh : raw.IsFresh) (hName : raw.name ≠ [])
    (hSlash : .char '/' ∉ raw.name) :
    (settle (foldMemberOf raw)).NamesAgree ↔
      ∀ parent ∈ raw.givenParent?, parent ≠ [] ∧ .char '\n' ∉ parent := by
  cases hParent : raw.givenParent? with
  | none => exact iff_of_true (namesAgree_of_no_parent hFresh hSlash hParent) nofun
  | some parent => simpa using namesAgree_of_parent hName hSlash hParent

/-- What the symbols of a document are called is settled when each of them is linked. -/
theorem document_calling (o : Options) (path : Text) (overview : Option Text) (raw : List Symbol) :
    (document o.visibility path raw overview).1.symbols.map calling =
      (raw.filter fun s => IsShown o s).map fun s => calling (settle (foldMemberOf s)) := by
  have hSymbols : (document o.visibility path raw overview).1.symbols =
      (linkAll [] (raw.filterMap (admitted? o.visibility))).1 := rfl
  rw [hSymbols, filterMap_admitted?, map_linkAll calling]
  · simp
  · intro parent kind member
    cases kind <;> rfl
  · intro symbols s
    rfl

/-- Names, full names and parents agree unless a tag gives a parent that is empty or goes over the
end of a line. In the document of every text that has tokens, for every path and all options, the
symbols are the raw ones that are to be shown, one for one; and one that was declared under a plain
name, with no slash in it, has a name without slashes and a full name that parent and name make up,
exactly if the first parent that a tag gives it, if any, is not empty and on one line. -/
theorem documents_names_exact {ε : Type} (o : Options) (path text : Text) (tokens : List Token)
    (hTokens : Token.tokenize text = .ok tokens) :
    ∃ d, (documents o.visibility (fun _ => (.ok text : Except ε Text)) [path]).result = .ok [d] ∧
      List.Forall₂ (fun raw s => raw.name ≠ [] → .char '/' ∉ raw.name →
          (s.NamesAgree ↔ ∀ parent ∈ raw.givenParent?, parent ≠ [] ∧ .char '\n' ∉ parent))
        ((Outline.ofTokens tokens).symbols.filter fun s => IsShown o s) d.symbols := by
  refine ⟨_, congrArg Logged.result (documents_of_tokens hTokens o.visibility path), ?_⟩
  have hCalling := (document_calling o path (Outline.ofTokens tokens).overview
    (Outline.ofTokens tokens).symbols).symm
  rw [← List.forall₂_eq_eq_eq, List.forall₂_map_left_iff, List.forall₂_map_right_iff] at hCalling
  have hFresh : ∀ s ∈ (Outline.ofTokens tokens).symbols.filter fun s => IsShown o s, s.IsFresh :=
    fun s hMem => Outline.ofTokens_isFresh tokens s (List.mem_filter.mp hMem).1
  refine ((List.forall₂_and_left _ _).mpr ⟨hFresh, hCalling⟩).imp ?_
  rintro raw s ⟨hRaw, hSame⟩ hName hSlash
  rw [← namesAgree_congr hSame, namesAgree_iff hRaw hName hSlash]

/-- A lamp, and a function that a tag makes a member of it. -/
def lampScript : Text :=
  "/** Lamp. */ var Lamp = 1;\n/** On.\n@memberof Lamp */ function on() {}"

def lampTokens : List Token :=
  [⟨.comment, "/** Lamp. */", 1⟩, ⟨.name, "var", 1⟩, ⟨.name, "Lamp", 1⟩, ⟨.punctuation, "=", 1⟩,
    ⟨.number, "1", 1⟩, ⟨.punctuation, ";", 1⟩, ⟨.comment, "/** On.\n@memberof Lamp */", 2⟩,
    ⟨.name, "function", 3⟩, ⟨.name, "on", 3⟩, ⟨.punctuation, "(", 3⟩, ⟨.punctuation, ")", 3⟩,
    ⟨.punctuation, ['{'], 3⟩, ⟨.punctuation, ['}'], 3⟩]

theorem documents_names_exact_lamp :
    Token.tokenize lampScript = .ok lampTokens ∧
      (Outline.ofTokens lampTokens).symbols.map (fun s => (s.name, s.givenParent?)) =
        [(("Lamp" : Text), none), ("on", some ("Lamp" : Text))] ∧
      ∃ d, (documents ({} : Options).visibility (fun _ => (.ok lampScript : Except Unit Text))
          ["lamp.js"]).result = .ok [d] ∧
        List.Forall₂ (fun raw s => raw.name ≠ [] → .char '/' ∉ raw.name →
            (s.NamesAgree ↔ ∀ parent ∈ raw.givenParent?, parent ≠ [] ∧ .char '\n' ∉ parent))
          ((Outline.ofTokens lampTokens).symbols.filter fun s => IsShown {} s) d.symbols := by
  have hTokens : Token.tokenize lampScript = .ok lampTokens := by decide +kernel
  exact ⟨hTokens, by decide +kernel, documents_names_exact {} "lamp.js" lampScript _ hTokens⟩

/-- A function that a tag makes a member of something. -/
def memberScript (parent : Text) : Text :=
  "/** D.\n@memberof" ++ parent ++ " */ function f() {}"

/-- Tokens of the function, whose comment goes over some number of lines. -/
def memberTokens (comment : Text) (line : Nat) : List Token :=
  [⟨.comment, comment, 1⟩, ⟨.name, "function", line⟩, ⟨.name, "f", line⟩,
    ⟨.punctuation, "(", line⟩, ⟨.punctuation, ")", line⟩, ⟨.punctuation, ['{'], line⟩,
    ⟨.punctuation, ['}'], line⟩]

/-- A symbol whose name has a slash in it is not named by its parent and itself. -/
theorem not_namesAgree_of_calling (others : Text × Text) {symbols : List Symbol} {name : Text}
    (h : symbols.map calling = [(name, others)]) (hSlash : .char '/' ∈ name) :
    ∃ s ∈ symbols, s.name = name ∧ ¬ s.NamesAgree := by
  obtain ⟨s, rest, rfl, hCalling, _⟩ := List.map_eq_cons_iff.mp h
  have hName : s.name = name := congrArg Prod.fst hCalling
  refine ⟨s, List.mem_cons_self, hName, ?_⟩
  rintro ⟨hSegment, _⟩
  exact hSegment (hName ▸ hSlash)

/-- A tag without a value, or with one that goes on in the next line, leaves a slash in the name of
a function that was declared without one. -/
theorem documents_names_slash :
    (Outline.ofTokens (memberTokens "/** D.\n@memberof */" 2)).symbols.map Symbol.name =
        [("f" : Text)] ∧
      (Outline.ofTokens (memberTokens "/** D.\n@memberof A\nB */" 3)).symbols.map Symbol.name =
        [("f" : Text)] ∧
      (∃ d, (documents ({} : Options).visibility (fun _ => (.ok (memberScript []) :
          Except Unit Text)) ["a.js"]).result = .ok [d] ∧
        ∃ s ∈ d.symbols, s.name = "/f" ∧ ¬ s.NamesAgree) ∧
      ∃ d, (documents ({} : Options).visibility (fun _ => (.ok (memberScript " A\nB") :
          Except Unit Text)) ["a.js"]).result = .ok [d] ∧
        ∃ s ∈ d.symbols, s.name = "A\nB/f" ∧ ¬ s.NamesAgree := by
  have hEmpty : Token.tokenize (memberScript []) =
      .ok (memberTokens "/** D.\n@memberof */" 2) := by decide +kernel
  have hLines : Token.tokenize (memberScript " A\nB") =
      .ok (memberTokens "/** D.\n@memberof A\nB */" 3) := by decide +kernel
  refine ⟨by decide +kernel, by decide +kernel, ?_, ?_⟩
  · refine ⟨_, congrArg Logged.result (documents_of_tokens hEmpty _ _), ?_⟩
    exact not_namesAgree_of_calling ("f", []) (by decide +kernel) (by decide)
  · refine ⟨_, congrArg Logged.result (documents_of_tokens hLines _ _), ?_⟩
    exact not_namesAgree_of_calling ("f", []) (by decide +kernel) (by decide)

end Resolution
end ScriptDoc
