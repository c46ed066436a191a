import ScriptDoc.Proofs.DocComment.LineEnds
import ScriptDoc.Proofs.Token.BlankLines

/-! Line ends of two characters. With a carriage return before every line feed a script has the same
tokens as before, but for line ends inside of comments and of strings in backticks. This needs that
no other token goes over the end of a line; a backslash there would take the carriage return with
it, and leave the line feed. -/
namespace ScriptDoc

namespace Text

@[simp] theorem withReturns_nil : withReturns [] = [] := rfl

@[simp] theorem withReturns_newline (t : Text) :
    withReturns (.char '\n' :: t) = .char '\r' :: .char '\n' :: withReturns t :=
  withLineEnds_newline t

@[simp] theorem withReturns_append (s t : Text) :
    withReturns (s ++ t) = withReturns s ++ withReturns t :=
  withLineEnds_append s t

theorem withReturns_cons_of_ne {c : CodePoint} (h : c ≠ '\n') (t : Text) :
    withReturns (c :: t) = c :: withReturns t :=
  withLineEnds_cons_of_ne t h

/-- One line stays as it is. -/
theorem withReturns_of_not_mem {t : Text} (h : .char '\n' ∉ t) : withReturns t = t := by
  induction t with
  | nil => rfl
  | cons c t ih =>
      obtain ⟨hFirst, hRest⟩ := not_or.mp (mt List.mem_cons.mpr h)
      rw [withReturns_cons_of_ne (Ne.symm hFirst), ih hRest]

/-- Lines are counted by their line feeds. -/
theorem newlines_withReturns (t : Text) : newlines (withReturns t) = newlines t := by
  induction t with
  | nil => rfl
  | cons c t ih =>
      by_cases hLine : c = '\n'
      · subst hLine
        simpa [newlines] using ih
      · rw [withReturns_cons_of_ne hLine]
        simpa [newlines, List.count_cons] using ih

/-- A text without line ends is the image of itself only. -/
theorem withReturns_eq_iff {s t : Text} (hReturn : .char '\r' ∉ s) (hFeed : .char '\n' ∉ s) :
    withReturns t = s ↔ t = s := by
  constructor
  · rintro rfl
    by_cases hMem : .char '\n' ∈ t
    · obtain ⟨line, more, rfl, _⟩ := List.eq_append_cons_of_mem hMem
      simp at hReturn
    · exact (withReturns_of_not_mem hMem).symm
  · rintro rfl
    exact withReturns_of_not_mem hFeed

/-- A beginning without line ends is there before exactly if it is there afterwards. -/
theorem isPrefixOf_withReturns (start t : Text) (hReturn : .char '\r' ∉ start)
    (hFeed : .char '\n' ∉ start) :
    start.isPrefixOf (withReturns t) = start.isPrefixOf t := by
  have hStart : ∀ t : Text, start.isPrefixOf t = (dropStart? start t).isSome := by
    intro t
    rw [Bool.eq_iff_iff, List.isPrefixOf_iff_prefix, Option.isSome_iff_exists]
    exact exists_congr fun rest => by rw [dropStart?_eq_some_iff, eq_comm]
  rw [hStart, hStart, withReturns, dropStart?_withLineEnds t (by simp [hReturn, hFeed]) (by decide)
    hFeed, Option.isSome_map]

/-- Only carriage returns come to the front of a text. -/
theorem head?_of_head?_withReturns {c : CodePoint} (hReturn : c ≠ '\r') {t : Text}
    (h : (withReturns t).head? = some c) : t.head? = some c := by
  cases t with
  | nil => exact h
  | cons d t =>
      by_cases hLine : d = '\n'
      · subst hLine
        exact absurd (Option.some.inj h).symm hReturn
      · rwa [withReturns_cons_of_ne hLine] at h

end Text

namespace Token

open Text (withReturns withReturns_cons_of_ne)

/-! Readers of single lexemes. -/

theorem closeComment_cons_of_ne {c : CodePoint} (h : c ≠ '*') (rest : Text) :
    closeComment (c :: rest) = (closeComment rest).map (Cut.cons c) :=
  closeComment.eq_3 c rest fun _ hStar _ => h hStar

/-- A comment ends at the same mark. -/
theorem closeComment_withReturns (cs : Text) :
    closeComment (withReturns cs) = (closeComment cs).map (Prod.map withReturns withReturns) := by
  fun_induction closeComment cs with
  | case1 => rfl
  | case2 rest =>
      rw [withReturns_cons_of_ne (by decide), withReturns_cons_of_ne (by decide)]
      rfl
  | case3 c rest hNotEnd ih =>
      by_cases hLine : c = '\n'
      · subst hLine
        rw [Text.withReturns_newline, closeComment_cons_of_ne (by decide),
          closeComment_cons_of_ne (by decide), ih]
        simp [Function.comp_def, Cut.cons]
      · have hSame : ∀ more, c = '*' → withReturns rest = .char '/' :: more → False := by
          intro more hStar hSlash
          have hHead : rest.head? = some (.char '/') :=
            Text.head?_of_head?_withReturns (by decide) (by rw [hSlash]; rfl)
          obtain ⟨others, hOthers⟩ := List.head?_eq_some_iff.mp hHead
          exact hNotEnd others hStar hOthers
        rw [withReturns_cons_of_ne hLine, closeComment.eq_3 _ _ hSame, ih]
        simp [Function.comp_def, Cut.cons, withReturns_cons_of_ne hLine]

/-- A string in backticks goes on over the ends of lines, escaped or not. -/
theorem closeString_backtick_withReturns (cs : Text) :
    closeString '`' (withReturns cs) =
      (closeString '`' cs).map (Prod.map withReturns withReturns) := by
  have hFeed : ∀ rest, closeString '`' (.char '\n' :: rest) =
      (closeString '`' rest).map (Cut.cons '\n') := by
    intro rest
    rw [closeString_cons_of_ne (by decide), if_neg (by decide), if_neg (by decide)]
  fun_induction closeString '`' cs with
  | case1 => rfl
  | case2 c rest ih =>
      rw [withReturns_cons_of_ne (by decide)]
      by_cases hLine : c = '\n'
      · subst hLine
        rw [Text.withReturns_newline, closeString, hFeed, ih]
        simp [Function.comp_def, Cut.cons, withReturns_cons_of_ne]
      · rw [withReturns_cons_of_ne hLine, closeString, ih]
        simp [Function.comp_def, Cut.cons, withReturns_cons_of_ne, hLine]
  | case3 rest hAlone =>
      cases rest with
      | nil => rfl
      | cons c rest => exact absurd rfl (hAlone c rest rfl)
  | case4 rest _ _ =>
      rw [withReturns_cons_of_ne (by decide), closeString_cons_of_ne (by decide), if_pos rfl]
      rfl
  | case5 c rest _ _ _ hEnd => exact absurd rfl hEnd.2
  | case6 c rest _ hEscape hQuote _ ih =>
      by_cases hLine : c = '\n'
      · subst hLine
        rw [Text.withReturns_newline, closeString_cons_of_ne (by decide), if_neg (by decide),
          if_neg (by decide), hFeed, ih]
        simp [Function.comp_def, Cut.cons]
      · rw [withReturns_cons_of_ne hLine, closeString_cons_of_ne hEscape, if_neg hQuote,
          if_neg (by simp), ih]
        simp [Function.comp_def, Cut.cons, withReturns_cons_of_ne hLine]

/-- A string that was left open stays open: a line feed ends it now even behind a backslash. -/
theorem closeString_withReturns_eq_none {quote : CodePoint} (hQuote : isQuote quote = true)
    (hOther : quote ≠ '`') {cs : Text} (h : closeString quote cs = none) :
    closeString quote (withReturns cs) = none := by
  have hFeed : .char '\n' ≠ quote ∧ .char '\r' ≠ quote := by
    constructor <;>
    · rintro rfl
      cases hQuote
  have hLine : ∀ rest, closeString quote (.char '\n' :: rest) = none := by
    intro rest
    rw [closeString_cons_of_ne (by decide), if_neg hFeed.1, if_pos ⟨rfl, hOther⟩]
  fun_induction closeString quote cs with
  | case1 => rfl
  | case2 c rest ih =>
      rw [Option.map_eq_none_iff] at h
      rw [withReturns_cons_of_ne (by decide)]
      by_cases hEnd : c = '\n'
      · -- The backslash takes the carriage return, and then the line feed ends the line.
        subst hEnd
        rw [Text.withReturns_newline, closeString, hLine]
        rfl
      · rw [withReturns_cons_of_ne hEnd, closeString, ih h]
        rfl
  | case3 rest hAlone =>
      cases rest with
      | nil => rfl
      | cons c rest => exact absurd rfl (hAlone c rest rfl)
  | case4 => cases h
  | case5 c rest _ _ _ hEnd =>
      rw [hEnd.1, Text.withReturns_newline, closeString_cons_of_ne (by decide), if_neg hFeed.2,
        if_neg (by simp), hLine]
      rfl
  | case6 c rest _ hEscape hNotQuote hEnd ih =>
      rw [Option.map_eq_none_iff] at h
      have hNotLine : c ≠ '\n' := fun hSame => hEnd ⟨hSame, hOther⟩
      rw [withReturns_cons_of_ne hNotLine, closeString_cons_of_ne hEscape, if_neg hNotQuote,
        if_neg hEnd, ih h]
      rfl

/-- What is no regular expression does not become one. -/
theorem closeRegex_withReturns_eq_none {inClass : Bool} {cs : Text}
    (h : closeRegex inClass cs = none) : closeRegex inClass (withReturns cs) = none := by
  fun_induction closeRegex inClass cs with
  | case1 => rfl
  | case2 inClass c rest ih =>
      rw [Option.map_eq_none_iff] at h
      rw [withReturns_cons_of_ne (by decide)]
      by_cases hEnd : c = '\n'
      · subst hEnd
        rw [Text.withReturns_newline, closeRegex, closeRegex_newline]
        rfl
      · rw [withReturns_cons_of_ne hEnd, closeRegex, ih h]
        rfl
  | case3 inClass c rest hAlone hEnd =>
      rcases hEnd with rfl | rfl
      · simp [closeRegex_cons_of_ne]
      · cases rest with
        | nil => rfl
        | cons d rest => exact absurd rfl (hAlone d rest rfl)
  | case4 inClass rest _ _ ih =>
      rw [Option.map_eq_none_iff] at h
      simp [withReturns_cons_of_ne, closeRegex_cons_of_ne, ih h]
  | case5 inClass rest _ _ _ ih =>
      rw [Option.map_eq_none_iff] at h
      simp [withReturns_cons_of_ne, closeRegex_cons_of_ne, ih h]
  | case6 => cases h
  | case7 inClass c rest _ hEnd hOpen hClose hSlash ih =>
      obtain ⟨hNotEnd, hNotEscape⟩ := not_or.mp hEnd
      rw [Option.map_eq_none_iff] at h
      rw [withReturns_cons_of_ne hNotEnd, closeRegex_cons_of_ne hNotEscape, if_neg hNotEnd,
        if_neg hOpen, if_neg hClose, if_neg hSlash, ih h]
      rfl

/-- What a reader takes from one line it also takes from there with other line ends. -/
theorem IsClosed.withReturns {read : Text → Option Cut} (h : IsClosed read) {cs : Text} {cut : Cut}
    (hRead : read cs = some cut) (hLine : .char '\n' ∉ cut.1) :
    read (withReturns cs) = some (cut.1, withReturns cut.2) := by
  rw [← h.append hRead, Text.withReturns_append, Text.withReturns_of_not_mem hLine]
  exact h.alone hRead _

/-- Runs that stop at line ends are the same. -/
theorem spanWhile_withReturns {p : CodePoint → Bool} (hFeed : p '\n' = false)
    (hReturn : p '\r' = false) (cs : Text) :
    spanWhile p (withReturns cs) = ((spanWhile p cs).1, withReturns (spanWhile p cs).2) := by
  induction cs with
  | nil => rfl
  | cons c cs ih =>
      simp only [spanWhile, Prod.mk.injEq] at ih ⊢
      by_cases hLine : c = '\n'
      · subst hLine
        simp [hFeed, hReturn]
      · rw [withReturns_cons_of_ne hLine]
        cases hGoes : p c with
        | true => simp [hGoes, ih]
        | false => simp [hGoes, withReturns_cons_of_ne hLine]

theorem not_mem_rest_plainLexeme {c d : CodePoint} {cs : Text} (h : d ∉ cs) :
    d ∉ (plainLexeme c cs).rest := by
  intro hMem
  obtain ⟨e, text, hText⟩ := List.exists_cons_of_ne_nil (plainLexeme_text_ne_nil c cs)
  have hSplit := plainLexeme_append c cs
  rw [hText, List.cons_append] at hSplit
  rw [← (List.cons.inj hSplit).2] at h
  exact h (List.mem_append_right _ hMem)

/-- Names, numbers and single characters are read the same. -/
theorem plainLexeme_withReturns (c : CodePoint) (cs : Text) :
    plainLexeme c (withReturns cs) =
      { plainLexeme c cs with rest := withReturns (plainLexeme c cs).rest } := by
  by_cases hMem : .char '\n' ∈ cs
  · obtain ⟨line, more, rfl, hLine⟩ := List.eq_append_cons_of_mem hMem
    rw [Text.withReturns_append, Text.withReturns_newline, Text.withReturns_of_not_mem hLine,
      plainLexeme_endsWords (c := '\r') (by decide +kernel),
      plainLexeme_endsWords (c := '\n') (by decide +kernel)]
    simp [Lexeme.followedBy, Text.withReturns_of_not_mem (not_mem_rest_plainLexeme hLine)]
  · rw [Text.withReturns_of_not_mem hMem,
      Text.withReturns_of_not_mem (not_mem_rest_plainLexeme hMem)]

/-- What becomes of a lexeme: its line ends are written with two characters, or the carriage return
before the end of the line becomes the last character of a line comment. -/
inductive Returned (lexeme : Lexeme) : Lexeme → Prop
  | inside : Returned lexeme ⟨lexeme.kind, withReturns lexeme.text, withReturns lexeme.rest⟩
  | line {text more : Text}
      (hLexeme : lexeme = ⟨.comment, .char '/' :: .char '/' :: text, .char '\n' :: more⟩) :
      Returned lexeme ⟨.comment, .char '/' :: .char '/' :: (text ++ [.char '\r']),
        .char '\n' :: withReturns more⟩

/-- Only comments and strings in backticks go over the end of a line. -/
def KeepsLine (kind : Kind) (text : Text) : Prop :=
  .char '\n' ∈ text → kind = .comment ∨ kind = .string ∧ text.head? = some (.char '`')

instance (kind : Kind) (text : Text) : Decidable (KeepsLine kind text) :=
  inferInstanceAs (Decidable (_ → _))

/-- Only comments and templates run over lines. -/
theorem KeepsLine.not_mem {kind : Kind} {text : Text} (h : KeepsLine kind text)
    (hComment : kind ≠ .comment) (hString : kind = .string → text.head? ≠ some (.char '`')) :
    .char '\n' ∉ text := by
  intro hMem
  rcases h hMem with hKind | ⟨hKind, hHead⟩
  · exact hComment hKind
  · exact hString hKind hHead

/-- A token on one line is the same. -/
theorem Returned.of_line {lexeme : Lexeme} (h : .char '\n' ∉ lexeme.text) :
    Returned lexeme { lexeme with rest := withReturns lexeme.rest } := by
  have hInside : Returned lexeme _ := .inside
  rwa [Text.withReturns_of_not_mem h] at hInside

/-- A slash is read the same, as regular expressions stay on a line. -/
theorem slashLexeme_withReturns {regexAllowed : Bool} {rest : Text}
    (h : .char '\n' ∉ (slashLexeme regexAllowed rest).text) :
    slashLexeme regexAllowed (withReturns rest) =
      { slashLexeme regexAllowed rest with
        rest := withReturns (slashLexeme regexAllowed rest).rest } := by
  by_cases hNone : regexAllowed = true → closeRegex false rest = none
  · rw [slashLexeme_of_none hNone, slashLexeme_of_none]
    intro hAllowed
    exact closeRegex_withReturns_eq_none (hNone hAllowed)
  · obtain ⟨rfl, hSome⟩ := Classical.not_imp.mp hNone
    obtain ⟨body, hBody⟩ := Option.ne_none_iff_exists'.mp hSome
    rw [slashLexeme_of_some hBody rfl] at h ⊢
    have hLine : .char '\n' ∉ body.1 := fun hMem => h (by simp [hMem])
    have hFlags := spanWhile_withReturns (p := Text.isWord) (by decide +kernel) (by decide +kernel)
      body.2
    rw [slashLexeme_of_some ((closeRegex_isClosed false).withReturns hBody hLine) hFlags]

/-- A comment of one line gets the carriage return at its end. -/
theorem lineComment_returned (rest : Text) :
    Returned (Cut.lexeme .comment ((spanWhile (· != .char '\n') (.char '/' :: rest)).cons '/'))
      (Cut.lexeme .comment
        ((spanWhile (· != .char '\n') (.char '/' :: withReturns rest)).cons '/')) := by
  have hWhole : ∀ line : Text, .char '\n' ∉ line →
      spanWhile (· != .char '\n') line = (line, []) := by
    intro line hLine
    have hGoes : ∀ c ∈ line, (c != .char '\n') = true := by
      intro c hMem
      rw [bne_iff_ne]
      rintro rfl
      exact hLine hMem
    simp [spanWhile, List.takeWhile_eq_self_iff.mpr hGoes, List.dropWhile_eq_nil_iff.mpr hGoes]
  have hSplit : ∀ line : Text, .char '\n' ∉ line → ∀ more,
      spanWhile (· != .char '\n') (line ++ .char '\n' :: more) = (line, .char '\n' :: more) := by
    intro line hLine more
    rw [spanWhile_append_of_stop (by decide), hWhole line hLine]
    rfl
  by_cases hMem : .char '\n' ∈ rest
  · obtain ⟨line, more, rfl, hLine⟩ := List.eq_append_cons_of_mem hMem
    have hFirst := hSplit (.char '/' :: line) (by simpa using hLine) more
    have hSecond := hSplit (.char '/' :: (line ++ [.char '\r'])) (by simpa using hLine)
      (withReturns more)
    rw [Text.withReturns_append, Text.withReturns_newline, Text.withReturns_of_not_mem hLine]
    rw [List.cons_append] at hFirst
    rw [List.cons_append, List.append_assoc] at hSecond
    rw [hFirst, show line ++ .char '\r' :: .char '\n' :: withReturns more =
      line ++ ([.char '\r'] ++ .char '\n' :: withReturns more) from rfl, hSecond]
    exact .line rfl
  · rw [Text.withReturns_of_not_mem hMem,
      hWhole (.char '/' :: rest) (by simpa using hMem)]
    exact .of_line (by simpa [Cut.lexeme, Cut.cons] using hMem)

theorem plainLexeme_kind_ne (c : CodePoint) (rest : Text) :
    (plainLexeme c rest).kind ≠ .comment ∧ (plainLexeme c rest).kind ≠ .string := by
  unfold plainLexeme
  split
  · simp [Cut.lexeme]
  · split <;> simp [Cut.lexeme]

/-- A lexeme that keeps its lines is read again with other line ends. -/
theorem Lexes.withReturns {regexAllowed : Bool} {c : CodePoint} {rest : Text} {lexeme : Lexeme}
    (h : Lexes regexAllowed c rest lexeme) (hKeeps : KeepsLine lexeme.kind lexeme.text) :
    ∃ other, Lexes regexAllowed c (withReturns rest) other ∧ Returned lexeme other := by
  cases h with
  | @block rest cut hClose =>
      rw [withReturns_cons_of_ne (by decide)]
      have hOther := closeComment_withReturns rest
      rw [hClose] at hOther
      have hInside : Returned (Cut.lexeme .comment ((cut.cons '*').cons '/')) _ := .inside
      refine ⟨_, .block hOther, ?_⟩
      simpa [Cut.lexeme, Cut.cons, withReturns_cons_of_ne] using hInside
  | line rest =>
      rw [withReturns_cons_of_ne (by decide)]
      exact ⟨_, .line _, lineComment_returned rest⟩
  | slash hBlock hLine =>
      obtain ⟨hComment, hString⟩ := slashLexeme_kind_ne regexAllowed rest
      have hText := hKeeps.not_mem hComment fun hKind => absurd hKind hString
      refine ⟨_, .slash ?_ ?_, ?_⟩
      · exact fun hHead => hBlock (Text.head?_of_head?_withReturns (by decide) hHead)
      · exact fun hHead => hLine (Text.head?_of_head?_withReturns (by decide) hHead)
      · rw [slashLexeme_withReturns hText]
        exact .of_line hText
  | @string quote rest cut hQuote hClose =>
      by_cases hBacktick : c = '`'
      · subst hBacktick
        have hOther := closeString_backtick_withReturns rest
        rw [hClose] at hOther
        have hInside : Returned (Cut.lexeme .string (cut.cons '`')) _ := .inside
        refine ⟨_, .string hQuote hOther, ?_⟩
        simpa [Cut.lexeme, Cut.cons, withReturns_cons_of_ne] using hInside
      · have hText : .char '\n' ∉ c :: cut.1 :=
          hKeeps.not_mem (by simp [Cut.lexeme]) fun _ hHead => hBacktick (Option.some.inj hHead)
        have hLine : .char '\n' ∉ cut.1 := fun hMem => hText (List.mem_cons_of_mem _ hMem)
        have hKept : Returned (Cut.lexeme .string (cut.cons c)) _ := .of_line hText
        exact ⟨_, .string hQuote ((closeString_isClosed c).withReturns hClose hLine), hKept⟩
  | plain hSlash hQuote =>
      obtain ⟨hComment, hString⟩ := plainLexeme_kind_ne c rest
      have hText := hKeeps.not_mem hComment fun hKind => absurd hKind hString
      refine ⟨_, .plain hSlash hQuote, ?_⟩
      rw [plainLexeme_withReturns]
      exact .of_line hText

/-- The ways in which a construct is left open. -/
inductive LeavesOpen : CodePoint → Text → Construct → Prop
  | comment {rest : Text} (hOpen : closeComment rest = none) :
      LeavesOpen '/' (.char '*' :: rest) .comment
  | string {quote : CodePoint} {rest : Text} (hQuote : isQuote quote = true)
      (hOpen : closeString quote rest = none) : LeavesOpen quote rest .string

/-- Reading fails only at something open. -/
theorem LeavesOpen.of_readLexeme {regexAllowed : Bool} {c : CodePoint} {rest : Text}
    {construct : Construct} (h : readLexeme regexAllowed c rest = .error construct) :
    LeavesOpen c rest construct := by
  unfold readLexeme closed at h
  split at h
  · next hSlash =>
      subst hSlash
      split at h
      · split at h
        · cases h
        · next hOpen =>
            cases h
            exact .comment (Option.map_eq_none_iff.mp hOpen)
      · cases h
      · cases h
  · split at h
    · next hQuote =>
        split at h
        · cases h
        · next hOpen =>
            cases h
            exact .string hQuote (Option.map_eq_none_iff.mp hOpen)
    · cases h

/-- Something open makes reading fail, whether or not a regular expression may stand there. -/
theorem LeavesOpen.readLexeme_eq {c : CodePoint} {rest : Text} {construct : Construct}
    (h : LeavesOpen c rest construct) (regexAllowed : Bool) :
    readLexeme regexAllowed c rest = .error construct := by
  cases h with
  | comment hOpen => simp [readLexeme, closed, hOpen]
  | string hQuote hOpen =>
      have hSlash : c ≠ '/' := by
        rintro rfl
        cases hQuote
      simp [readLexeme, closed, hSlash, hQuote, hOpen]

/-- What is open stays open. -/
theorem LeavesOpen.withReturns {c : CodePoint} {rest : Text} {construct : Construct}
    (h : LeavesOpen c rest construct) : LeavesOpen c (withReturns rest) construct := by
  cases h with
  | comment hOpen =>
      rw [withReturns_cons_of_ne (by decide)]
      refine .comment ?_
      rw [closeComment_withReturns, hOpen]
      rfl
  | string hQuote hOpen =>
      refine .string hQuote ?_
      by_cases hBacktick : c = '`'
      · rw [hBacktick] at hOpen ⊢
        rw [closeString_backtick_withReturns, hOpen]
        rfl
      · exact closeString_withReturns_eq_none hQuote hBacktick hOpen

/-! Tokens that are read alike. -/

/-- Tokens that mean the same to a reader of declarations: the texts of comments and of strings over
several lines may differ, but doc comments say the same. -/
structure Similar (t other : Token) : Prop where
  kind : other.kind = t.kind
  line : other.line = t.line
  text : other.text = t.text ∨ t.kind = .comment ∨ t.kind = .string ∧ .char '\n' ∈ t.text
  doc : other.isDocComment = t.isDocComment
  parse : t.isDocComment = true → DocComment.parse other.text = DocComment.parse t.text

/-- Documentation comments remain such. -/
theorem isDocComment_withReturns (kind : Kind) (text : Text) (line : Nat) :
    isDocComment ⟨kind, withReturns text, line⟩ = isDocComment ⟨kind, text, line⟩ := by
  have hEmpty : (withReturns text != "/**/") = (text != "/**/") := by
    rw [Bool.eq_iff_iff, bne_iff_ne, bne_iff_ne, ne_eq,
      Text.withReturns_eq_iff (by decide) (by decide)]
  simp only [isDocComment, hEmpty,
    Text.isPrefixOf_withReturns "/**" text (by decide) (by decide)]

/-- Tokens that were read alike are similar. -/
theorem Similar.of_returned {lexeme other : Lexeme} (h : Returned lexeme other)
    (hKeeps : KeepsLine lexeme.kind lexeme.text) (line : Nat) :
    Similar ⟨lexeme.kind, lexeme.text, line⟩ ⟨other.kind, other.text, line⟩ := by
  cases h with
  | inside =>
      refine ⟨rfl, rfl, ?_, isDocComment_withReturns .., fun _ => DocComment.parse_withReturns _⟩
      by_cases hMem : .char '\n' ∈ lexeme.text
      · exact .inr ((hKeeps hMem).imp_right fun hString => ⟨hString.1, hMem⟩)
      · exact .inl (Text.withReturns_of_not_mem hMem)
  | line hLexeme =>
      subst hLexeme
      exact ⟨rfl, rfl, .inr (.inl rfl), rfl, fun hDoc => by cases hDoc⟩

/-- Similar tokens allow the same to follow. -/
theorem regexAllowedAfter_of_similar {last before : Option Token} {t other : Token}
    (h : Similar t other) (hLast : regexAllowedAfter before = regexAllowedAfter last) :
    regexAllowedAfter (significant before other) = regexAllowedAfter (significant last t) := by
  obtain ⟨kind, text, line⟩ := t
  obtain ⟨otherKind, otherText, otherLine⟩ := other
  obtain rfl : otherKind = kind := h.kind
  cases otherKind with
  | comment => exact hLast
  | string => rfl
  | name | number | regex | punctuation =>
      obtain rfl : otherText = text := by simpa using h.text
      rfl

/-! Scans. -/

section Scans

variable {line : Nat} {last : Option Token} {c : CodePoint} {rest : Text}

theorem scanFrom_space (h : Text.isSpace c = true) :
    scanFrom line last (c :: rest) = scanFrom (line + Text.newlines [c]) last rest := by
  rw [scanFrom, if_pos h]

theorem scanFrom_open (hSpace : Text.isSpace c = false) {construct : Construct}
    (h : readLexeme (regexAllowedAfter last) c rest = .error construct) :
    scanFrom line last (c :: rest) = .error ⟨construct, line⟩ := by
  rw [scanFrom, if_neg (Bool.eq_false_iff.mp hSpace)]
  split
  · next hError =>
      rw [h] at hError
      cases hError
      rfl
  · next hFound =>
      rw [h] at hFound
      cases hFound

theorem scanFrom_token (hSpace : Text.isSpace c = false) {lexeme : Lexeme}
    (h : readLexeme (regexAllowedAfter last) c rest = .ok lexeme) :
    scanFrom line last (c :: rest) =
      (scanFrom (line + Text.newlines lexeme.text)
        (significant last ⟨lexeme.kind, lexeme.text, line⟩) lexeme.rest).map
        (⟨lexeme.kind, lexeme.text, line⟩ :: ·) := by
  rw [scanFrom, if_neg (Bool.eq_false_iff.mp hSpace)]
  split
  · next hError =>
      rw [h] at hError
      cases hError
  · next hFound =>
      rw [h] at hFound
      cases hFound
      rfl

end Scans

/-- The tokens in front of the first construct that is left open. -/
def scannedFrom (line : Nat) (last : Option Token) : Text → List Token
  | [] => []
  | c :: rest =>
    if Text.isSpace c then scannedFrom (line + Text.newlines [c]) last rest
    else
      match _h : readLexeme (regexAllowedAfter last) c rest with
      | .error _ => []
      | .ok lexeme =>
        ⟨lexeme.kind, lexeme.text, line⟩ :: scannedFrom (line + Text.newlines lexeme.text)
          (significant last ⟨lexeme.kind, lexeme.text, line⟩) lexeme.rest
termination_by cs => cs.length
decreasing_by
  · simp
  · exact readLexeme_rest_length_lt _h

theorem ne_newline_of_not_isSpace {c : CodePoint} (h : Text.isSpace c = false) : c ≠ '\n' := by
  rintro rfl
  cases h

namespace Returned

variable {lexeme other : Lexeme}

/-- What was read alike runs over as many lines. -/
theorem newlines_eq (h : Returned lexeme other) :
    Text.newlines other.text = Text.newlines lexeme.text := by
  cases h with
  | inside => exact Text.newlines_withReturns _
  | line hLexeme => simp [hLexeme, Text.newlines]

/-- The carriage return that a line comment takes was white space. -/
theorem scanFrom_eq (h : Returned lexeme other) (line : Nat) (last : Option Token) :
    scanFrom line last other.rest = scanFrom line last (withReturns lexeme.rest) := by
  cases h with
  | inside => rfl
  | line hLexeme =>
      rw [hLexeme, Text.withReturns_newline, scanFrom_space (c := '\r') (by decide)]
      rfl

end Returned

/-- The tokens of a script in front of the first construct that it leaves open. -/
def scanned (text : Text) : List Token :=
  scannedFrom 1 none text

/-- No token but a comment or a string in backticks goes over the end of a line. -/
def KeepsLines (tokens : List Token) : Prop :=
  ∀ t ∈ tokens, KeepsLine t.kind t.text

instance (tokens : List Token) : Decidable (KeepsLines tokens) :=
  inferInstanceAs (Decidable (∀ t ∈ tokens, _))

/-- Scans that find the same construct left open, or similar tokens. -/
inductive SameScan : Except Unterminated (List Token) → Except Unterminated (List Token) → Prop
  | error (fault : Unterminated) : SameScan (.error fault) (.error fault)
  | ok {tokens others : List Token} (h : List.Forall₂ Similar tokens others) :
      SameScan (.ok tokens) (.ok others)

/-- One more similar token keeps scans alike. -/
theorem SameScan.cons {scan scan' : Except Unterminated (List Token)} {t other : Token}
    (h : SameScan scan scan') (hFirst : Similar t other) :
    SameScan (scan.map (t :: ·)) (scan'.map (other :: ·)) := by
  cases h with
  | error fault => exact .error fault
  | ok hSimilar => exact .ok (.cons hFirst hSimilar)

/-- With a carriage return before every line feed, a scan of tokens that keep their lines goes the
same way. -/
theorem scanFrom_withReturns {line : Nat} {last before : Option Token} {cs : Text}
    (hLast : regexAllowedAfter before = regexAllowedAfter last)
    (hKeeps : KeepsLines (scannedFrom line last cs)) :
    SameScan (scanFrom line last cs) (scanFrom line before (withReturns cs)) := by
  fun_induction scannedFrom line last cs generalizing before with
  | case1 line last =>
      rw [Text.withReturns_nil, scanFrom, scanFrom]
      exact .ok .nil
  | case2 line last c rest hSpace ih =>
      rw [scanFrom_space hSpace]
      by_cases hLine : c = '\n'
      · subst hLine
        rw [Text.withReturns_newline, scanFrom_space (by decide), scanFrom_space (by decide)]
        exact ih hLast hKeeps
      · rw [withReturns_cons_of_ne hLine, scanFrom_space hSpace]
        exact ih hLast hKeeps
  | case3 line last c rest hSpace construct hOpen =>
      have hSpace := Bool.eq_false_iff.mpr hSpace
      have hOther := (LeavesOpen.of_readLexeme hOpen).withReturns.readLexeme_eq
        (regexAllowedAfter before)
      rw [withReturns_cons_of_ne (ne_newline_of_not_isSpace hSpace), scanFrom_open hSpace hOpen,
        scanFrom_open hSpace hOther]
      exact .error _
  | case4 line last c rest hSpace lexeme hRead ih =>
      have hSpace := Bool.eq_false_iff.mpr hSpace
      obtain ⟨hFirst, hOthers⟩ := List.forall_mem_cons.mp hKeeps
      obtain ⟨other, hOther, hReturned⟩ := (Lexes.of_readLexeme hRead).withReturns hFirst
      have hSimilar := Similar.of_returned hReturned hFirst line
      rw [← hLast] at hOther
      rw [withReturns_cons_of_ne (ne_newline_of_not_isSpace hSpace), scanFrom_token hSpace hRead,
        scanFrom_token hSpace hOther.readLexeme_eq, hReturned.newlines_eq, hReturned.scanFrom_eq]
      exact (ih (regexAllowedAfter_of_similar hSimilar hLast) hOthers).cons hSimilar

end Token
end ScriptDoc
