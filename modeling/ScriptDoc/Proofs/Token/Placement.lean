import Mathlib.Control.Monad.Basic
import ScriptDoc.Token.Scan

/-! Where tokens stand in the text of a script. Places count characters from the beginning of the
text, so a statement about the tokens from some place on needs no change when it is used at a later
place. -/
namespace ScriptDoc.Token

/-- A scan that comes to its end, step by step: it passes white space and takes lexemes. -/
inductive Scans : Nat → Option Token → Text → List Token → Prop
  | done (line : Nat) (last : Option Token) : Scans line last [] []
  | space {line : Nat} {last : Option Token} {c : CodePoint} {rest : Text} {tokens : List Token}
      (hSpace : Text.isSpace c = true) (after : Scans (line + Text.newlines [c]) last rest tokens) :
      Scans line last (c :: rest) tokens
  | token {line : Nat} {last : Option Token} {c : CodePoint} {rest : Text} {tokens : List Token}
      {lexeme : Lexeme} (hSpace : Text.isSpace c = false)
      (hRead : readLexeme (regexAllowedAfter last) c rest = .ok lexeme)
      (after : Scans (line + Text.newlines lexeme.text)
        (significant last ⟨lexeme.kind, lexeme.text, line⟩) lexeme.rest tokens) :
      Scans line last (c :: rest) (⟨lexeme.kind, lexeme.text, line⟩ :: tokens)

/-- The scanner does what the rules say. The induction is on its recursion. -/
theorem Scans.of_scanFrom {line : Nat} {last : Option Token} {cs : Text} {tokens : List Token}
    (h : scanFrom line last cs = .ok tokens) : Scans line last cs tokens := by
  fun_induction scanFrom line last cs generalizing tokens with
  | case1 line last =>
      cases h
      exact .done line last
  | case2 line last c rest hSpace ih => exact .space hSpace (ih h)
  | case3 => cases h
  | case4 line last c rest hSpace lexeme hRead t =>
      rename_i ih
      generalize hAfter : scanFrom _ _ lexeme.rest = after at h
      cases after with
      | error => cases h
      | ok others =>
          cases h
          exact .token (Bool.eq_false_iff.mpr hSpace) hRead (ih hAfter)

/-- The rules leave the scanner no choice. -/
theorem Scans.scanFrom_eq {line : Nat} {last : Option Token} {cs : Text} {tokens : List Token}
    (h : Scans line last cs tokens) : scanFrom line last cs = .ok tokens := by
  induction h with
  | done line last => rw [scanFrom]
  | space hSpace after ih => rw [scanFrom, if_pos hSpace, ih]
  | token hSpace hRead after ih =>
      rw [scanFrom, if_neg (Bool.eq_false_iff.mp hSpace)]
      split
      · next hError =>
          rw [hRead] at hError
          cases hError
      · next found hFound =>
          rw [hRead] at hFound
          cases hFound
          dsimp only
          rw [ih]
          rfl

/-- A token and the place of its first character. -/
structure Span where
  start : Nat
  token : Token
  deriving DecidableEq, Repr

/-- The place behind the last character. -/
def Span.stop (s : Span) : Nat :=
  s.start + s.token.text.length

/-- The character at a place belongs to the token. -/
def Span.Covers (s : Span) (place : Nat) : Prop :=
  s.start ≤ place ∧ place < s.stop

/-- The character at a place belongs to no token. -/
def IsGap (spans : List Span) (place : Nat) : Prop :=
  ∀ span ∈ spans, ¬ span.Covers place

instance (s : Span) (place : Nat) : Decidable (s.Covers place) :=
  inferInstanceAs (Decidable (_ ∧ _))

instance (spans : List Span) (place : Nat) : Decidable (IsGap spans place) :=
  inferInstanceAs (Decidable (∀ span ∈ spans, ¬ span.Covers place))

/-- From the origin on, the text is made of the given tokens in their order, and of white space. The
line of a token counts the line feeds of the whole text before it. -/
structure Placed (text : Text) (origin : Nat) (spans : List Span) : Prop where
  ahead : ∀ span ∈ spans, origin ≤ span.start
  apart : spans.Pairwise fun first second => first.stop ≤ second.start
  filled : ∀ span ∈ spans, span.token.text ≠ []
  slice : ∀ span ∈ spans, (text.drop span.start).take span.token.text.length = span.token.text
  line : ∀ span ∈ spans, span.token.line = 1 + Text.newlines (text.take span.start)
  blank : ∀ place c, origin ≤ place → text[place]? = some c → IsGap spans place →
    Text.isSpace c = true

namespace Placed

variable {text : Text} {origin : Nat} {span : Span} {spans : List Span} {c : CodePoint}

theorem nil (text : Text) : Placed text text.length [] where
  ahead := nofun
  apart := List.Pairwise.nil
  filled := nofun
  slice := nofun
  line := nofun
  blank := by
    intro place c hLe hAt _
    have hLt := (List.getElem?_eq_some_iff.mp hAt).1
    omega

/-- White space may stand before the tokens. -/
theorem skip (h : Placed text (origin + 1) spans) (hAt : text[origin]? = some c)
    (hSpace : Text.isSpace c = true) : Placed text origin spans where
  ahead := by
    intro span hMem
    have hLe := h.ahead span hMem
    omega
  apart := h.apart
  filled := h.filled
  slice := h.slice
  line := h.line
  blank := by
    intro place d hLe hPlace hGap
    by_cases hFirst : place = origin
    · rw [hFirst, hAt] at hPlace
      cases hPlace
      exact hSpace
    · exact h.blank place d (by omega) hPlace hGap

/-- A token may stand right before the others. -/
theorem cons (h : Placed text span.stop spans) (hFilled : span.token.text ≠ [])
    (hSlice : (text.drop span.start).take span.token.text.length = span.token.text)
    (hLine : span.token.line = 1 + Text.newlines (text.take span.start)) :
    Placed text span.start (span :: spans) where
  ahead := by
    intro other hMem
    rcases List.mem_cons.mp hMem with rfl | hMem
    · exact Nat.le_refl _
    · exact Nat.le_trans (Nat.le_add_right _ _) (h.ahead other hMem)
  apart := List.pairwise_cons.mpr ⟨h.ahead, h.apart⟩
  filled := List.forall_mem_cons.mpr ⟨hFilled, h.filled⟩
  slice := List.forall_mem_cons.mpr ⟨hSlice, h.slice⟩
  line := List.forall_mem_cons.mpr ⟨hLine, h.line⟩
  blank := by
    intro place c hLe hAt hGap
    obtain ⟨hNot, hOthers⟩ := List.forall_mem_cons.mp hGap
    have hStop : span.stop ≤ place := Nat.le_of_not_lt fun hLt => hNot ⟨hLe, hLt⟩
    exact h.blank place c hStop hAt hOthers

/-- Whether the gaps are blank can be told from the places of the text. -/
theorem blank_iff : (∀ place c, origin ≤ place → text[place]? = some c → IsGap spans place →
      Text.isSpace c = true) ↔
    ∀ place : Fin text.length, origin ≤ place.val → IsGap spans place →
      Text.isSpace (text.get place) = true := by
  constructor
  · intro h place hLe hGap
    exact h place _ hLe (List.getElem?_eq_getElem place.isLt) hGap
  · intro h place c hLe hAt hGap
    obtain ⟨hLt, rfl⟩ := List.getElem?_eq_some_iff.mp hAt
    exact h ⟨place, hLt⟩ hLe hGap

instance (text : Text) (origin : Nat) (spans : List Span) : Decidable (Placed text origin spans) :=
  decidable_of_iff
    ((∀ span ∈ spans, origin ≤ span.start) ∧
      (spans.Pairwise fun first second => first.stop ≤ second.start) ∧
      (∀ span ∈ spans, span.token.text ≠ []) ∧
      (∀ span ∈ spans,
        (text.drop span.start).take span.token.text.length = span.token.text) ∧
      (∀ span ∈ spans, span.token.line = 1 + Text.newlines (text.take span.start)) ∧
      ∀ place : Fin text.length, origin ≤ place.val → IsGap spans place →
        Text.isSpace (text.get place) = true)
    ⟨fun ⟨ahead, apart, filled, slice, line, blank⟩ =>
        ⟨ahead, apart, filled, slice, line, blank_iff.mpr blank⟩,
      fun h => ⟨h.ahead, h.apart, h.filled, h.slice, h.line, blank_iff.mp h.blank⟩⟩

/-- Starts are strictly ascending, since no token is empty. -/
theorem ascending (h : Placed text origin spans) : (spans.map Span.start).Pairwise (· < ·) := by
  rw [List.pairwise_map]
  refine h.apart.imp_of_mem ?_
  intro first second hFirst _ hApart
  have hLength := List.length_pos_iff.mpr (h.filled first hFirst)
  unfold Span.stop at hApart
  omega

end Placed

/-- The invariant of a scan: the characters passed fix the place and the line of the next token. -/
theorem Scans.placed {line : Nat} {last : Option Token} {cs : Text} {tokens : List Token}
    (h : Scans line last cs tokens) (passed : Text) (hLine : line = 1 + Text.newlines passed) :
    ∃ spans : List Span, spans.map Span.token = tokens ∧
      Placed (passed ++ cs) passed.length spans := by
  induction h generalizing passed with
  | done line last => exact ⟨[], rfl, by simpa using Placed.nil passed⟩
  | @space line last c rest tokens hSpace after ih =>
      have hNext : line + Text.newlines [c] = 1 + Text.newlines (passed ++ [c]) := by
        rw [hLine, Text.newlines_append, Nat.add_assoc]
      obtain ⟨spans, hTokens, hPlaced⟩ := ih (passed ++ [c]) hNext
      rw [List.append_assoc, List.length_append] at hPlaced
      exact ⟨spans, hTokens, hPlaced.skip (by simp) hSpace⟩
  | @token line last c rest tokens lexeme hSpace hRead after ih =>
      have hNext : line + Text.newlines lexeme.text = 1 + Text.newlines (passed ++ lexeme.text) := by
        rw [hLine, Text.newlines_append, Nat.add_assoc]
      obtain ⟨spans, hTokens, hPlaced⟩ := ih (passed ++ lexeme.text) hNext
      rw [List.append_assoc, readLexeme_append hRead, List.length_append] at hPlaced
      let span : Span := ⟨passed.length, ⟨lexeme.kind, lexeme.text, line⟩⟩
      have hRest : Placed (passed ++ c :: rest) span.stop spans := hPlaced
      refine ⟨span :: spans, by rw [List.map_cons, hTokens], ?_⟩
      apply hRest.cons (readLexeme_text_ne_nil hRead)
      · rw [← readLexeme_append hRead, List.drop_left, List.take_left]
      · rw [List.take_left]
        exact hLine

/-- Tokens lose nothing but white space. They stand in the text in their order without overlap, each
with at least one character; all characters that belong to none of them are white space; and the
line of a token is one more than the number of line feeds before it. -/
theorem tokenize_loses_only_space (text : Text) (tokens : List Token)
    (h : tokenize text = .ok tokens) :
    ∃ spans : List Span, spans.map Span.token = tokens ∧
      (spans.map Span.start).Pairwise (· < ·) ∧ Placed text 0 spans := by
  obtain ⟨spans, hTokens, hPlaced⟩ := (Scans.of_scanFrom h).placed [] rfl
  exact ⟨spans, hTokens, hPlaced.ascending, hPlaced⟩

/-- A quotient, a string over two lines, and a regular expression with a slash in a class. -/
def halfScript : Text :=
  " x = 1 / 2 // half\n`a\\`\nb`\t* /[/]/g"

/-- The tokens of the script; the string and what follows it begin on different lines. -/
def halfTokens : List Token :=
  [⟨.name, "x", 1⟩, ⟨.punctuation, "=", 1⟩, ⟨.number, "1", 1⟩, ⟨.punctuation, "/", 1⟩,
    ⟨.number, "2", 1⟩, ⟨.comment, "// half", 1⟩, ⟨.string, "`a\\`\nb`", 2⟩,
    ⟨.punctuation, "*", 3⟩, ⟨.regex, "/[/]/g", 3⟩]

theorem tokenize_loses_only_space_half :
    tokenize halfScript = .ok halfTokens ∧
      ∃ spans : List Span, spans.map Span.token = halfTokens ∧
        (spans.map Span.start).Pairwise (· < ·) ∧ Placed halfScript 0 spans := by
  have hTokens : tokenize halfScript = .ok halfTokens := by decide +kernel
  exact ⟨hTokens, tokenize_loses_only_space halfScript halfTokens hTokens⟩

end ScriptDoc.Token
