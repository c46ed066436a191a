import ScriptDoc.Proofs.Token.Locality

/-! A line feed more between two tokens. The scan of the longer text goes through the same steps: up
to the line feed it reads the same lexemes, since none of them can see that far, and behind it the
same ones one line further down. -/
namespace ScriptDoc.Token

/-- The same token some lines further down. -/
def shifted (n : Nat) (t : Token) : Token :=
  { t with line := t.line + n }

section Shift

variable {line : Nat} {last other : Option Token} {cs : Text} {tokens : List Token}

/-- Lines of tokens have no part in what may follow. -/
theorem regexAllowedAfter_significant (h : regexAllowedAfter other = regexAllowedAfter last)
    (kind : Kind) (text : Text) (line line' : Nat) :
    regexAllowedAfter (significant other ⟨kind, text, line'⟩) =
      regexAllowedAfter (significant last ⟨kind, text, line⟩) := by
  unfold significant
  split
  · exact h
  · rfl

/-- A scan that begins further down reads the same tokens, all of them further down. Of the token
before it only matters what may stand behind it. -/
theorem Scans.shift (h : Scans line last cs tokens)
    (hLast : regexAllowedAfter other = regexAllowedAfter last) (n : Nat) :
    Scans (line + n) other cs (tokens.map (shifted n)) := by
  induction h generalizing other with
  | done line last => exact .done _ _
  | space hSpace after ih =>
      have hAfter := ih hLast
      rw [Nat.add_right_comm] at hAfter
      exact .space hSpace hAfter
  | @token line last c rest tokens lexeme hSpace hRead after ih =>
      have hAfter := ih (regexAllowedAfter_significant hLast lexeme.kind lexeme.text line (line + n))
      rw [Nat.add_right_comm] at hAfter
      rw [← hLast] at hRead
      exact .token hSpace hRead hAfter

/-- No token begins with white space. -/
theorem Scans.head_not_space (h : Scans line last cs tokens) :
    ∀ t ∈ tokens, ∃ c more, t.text = c :: more ∧ Text.isSpace c = false := by
  induction h with
  | done line last => exact nofun
  | space hSpace after ih => exact ih
  | @token line last c rest tokens lexeme hSpace hRead after ih =>
      refine List.forall_mem_cons.mpr ⟨?_, ih⟩
      obtain ⟨d, more, hText⟩ := List.exists_cons_of_ne_nil (readLexeme_text_ne_nil hRead)
      have hAppend := readLexeme_append hRead
      rw [hText, List.cons_append] at hAppend
      obtain rfl : d = c := (List.cons.inj hAppend).1
      exact ⟨d, more, hText, hSpace⟩

end Shift

namespace Placed

variable {text : Text} {origin : Nat} {span : Span} {spans : List Span} {c : CodePoint}

theorem tail (h : Placed text origin (span :: spans)) : Placed text span.stop spans where
  ahead := (List.pairwise_cons.mp h.apart).1
  apart := (List.pairwise_cons.mp h.apart).2
  filled := (List.forall_mem_cons.mp h.filled).2
  slice := (List.forall_mem_cons.mp h.slice).2
  line := (List.forall_mem_cons.mp h.line).2
  blank := by
    intro place c hLe hAt hGap
    have hFirst := (List.forall_mem_cons.mp h.ahead).1
    have hStart : span.start ≤ span.stop := Nat.le_add_right _ _
    refine h.blank place c (by omega) hAt (List.forall_mem_cons.mpr ⟨?_, hGap⟩)
    rintro ⟨_, hLt⟩
    omega

/-- The first character of a token stands at its start. -/
theorem getElem?_start (h : Placed text origin spans) (hMem : span ∈ spans) {more : Text}
    (hText : span.token.text = c :: more) : text[span.start]? = some c := by
  have hSlice := h.slice span hMem
  rw [hText] at hSlice
  have hHead := congrArg List.head? hSlice
  simpa [List.head?_take, List.head?_drop] using hHead

/-- White space at the origin can be left out. -/
theorem pass (h : Placed text origin spans) (hAt : text[origin]? = some c)
    (hSpace : Text.isSpace c = true)
    (hTokens : ∀ span ∈ spans, ∃ d more, span.token.text = d :: more ∧ Text.isSpace d = false) :
    Placed text (origin + 1) spans where
  ahead := by
    intro span hMem
    have hLe := h.ahead span hMem
    obtain ⟨d, more, hText, hNot⟩ := hTokens span hMem
    have hNe : span.start ≠ origin := by
      intro hSame
      have hStart := h.getElem?_start hMem hText
      rw [hSame, hAt] at hStart
      cases hStart
      rw [hSpace] at hNot
      cases hNot
    omega
  apart := h.apart
  filled := h.filled
  slice := h.slice
  line := h.line
  blank := fun place c hLe => h.blank place c (by omega)

/-- The first token stands at the origin if no white space does. -/
theorem start_eq (h : Placed text origin (span :: spans)) (hAt : text[origin]? = some c)
    (hSpace : Text.isSpace c = false) : span.start = origin := by
  have hLe := (List.forall_mem_cons.mp h.ahead).1
  by_contra hNe
  have hGap : IsGap (span :: spans) origin := by
    intro other hMem hCovers
    have hStart : span.start ≤ other.start := by
      rcases List.mem_cons.mp hMem with rfl | hMem
      · exact Nat.le_refl _
      · exact Nat.le_trans (Nat.le_add_right _ _) (h.tail.ahead other hMem)
    have hCovered := hCovers.1
    omega
  rw [h.blank origin c (Nat.le_refl _) hAt hGap] at hSpace
  cases hSpace

end Placed

/-- The token of a span after a line feed was put behind the character at a place. -/
def Span.moved (place : Nat) (s : Span) : Token :=
  if place < s.start then s.token.shifted 1 else s.token

variable {line origin : Nat} {last : Option Token} {c : CodePoint} {before after : Text}
variable {spans : List Span}

/-- Spans behind a gap move on by one line, those before it stay. -/
theorem Placed.map_moved {text : Text} {place : Nat} (h : Placed text place spans)
    (hGap : IsGap spans place) :
    spans.map (Span.moved place) = (spans.map Span.token).map (shifted 1) := by
  rw [List.map_map]
  apply List.map_congr_left
  intro span hMem
  have hLt : place < span.start := by
    have hLe := h.ahead span hMem
    have hLength := List.length_pos_iff.mpr (h.filled span hMem)
    by_contra hNot
    exact hGap span hMem ⟨by omega, by unfold Span.stop; omega⟩
  exact if_pos hLt

/-- What is left of a text begins with the character behind its first part, or with one of that part. -/
theorem cases_of_drop_eq_cons {d : CodePoint} {rest : Text} (hOrigin : origin ≤ before.length)
    (h : (before ++ c :: after).drop origin = d :: rest) :
    origin = before.length ∧ d = c ∧ rest = after ∨
      ∃ w, before.drop origin = d :: w ∧ before.drop (origin + 1) = w ∧ origin + 1 ≤ before.length ∧
        rest = w ++ c :: after := by
  rw [List.drop_append_of_le_length hOrigin] at h
  cases hDrop : before.drop origin with
  | nil =>
      have hLength := List.drop_eq_nil_iff.mp hDrop
      rw [hDrop, List.nil_append] at h
      obtain ⟨rfl, rfl⟩ := List.cons.inj h
      exact Or.inl ⟨by omega, rfl, rfl⟩
  | cons e w =>
      have hLt : origin < before.length := by
        rw [← List.drop_eq_nil_iff.not.trans Nat.not_le]
        simp [hDrop]
      rw [hDrop, List.cons_append] at h
      obtain ⟨rfl, rfl⟩ := List.cons.inj h
      exact Or.inr ⟨w, rfl, by rw [← List.tail_drop, hDrop, List.tail_cons], hLt, rfl⟩

/-- The line feed comes right behind the white space that the scan stands at: all tokens that follow
are one line further down. -/
theorem Scans.newline_here (hSpace : Text.isSpace c = true)
    (h : Scans (line + Text.newlines [c]) last after (spans.map Span.token))
    (hPlaced : Placed (before ++ c :: after) before.length spans) (hGap : IsGap spans before.length) :
    Scans line last (c :: .char '\n' :: after) (spans.map (Span.moved before.length)) := by
  rw [hPlaced.map_moved hGap]
  exact .space hSpace (.space (by decide) (h.shift rfl 1))

/-- The line feed comes behind the token that the scan stands at: the token is read as before. -/
theorem Scans.newline_token {d : CodePoint} {w left : Text} {lexeme : Lexeme} {tokens : List Token}
    (hSpace : Text.isSpace c = true) (hFirst : Text.isSpace d = false)
    (hRead : readLexeme (regexAllowedAfter last) d (w ++ c :: after) = .ok lexeme)
    (hRest : lexeme.rest = left ++ c :: after)
    (h : Scans (line + Text.newlines lexeme.text)
      (significant last ⟨lexeme.kind, lexeme.text, line⟩) (left ++ c :: .char '\n' :: after) tokens) :
    Scans line last (d :: (w ++ c :: .char '\n' :: after))
      (⟨lexeme.kind, lexeme.text, line⟩ :: tokens) := by
  have hLexes := (Lexes.of_readLexeme hRead).newline hSpace hRest
  have hNext := Scans.token hFirst hLexes.readLexeme_eq h
  exact hNext

/-- One line feed more behind white space that belongs to no token. The induction follows the scan
of the shorter text and the place that it has come to. -/
theorem Scans.newline (hSpace : Text.isSpace c = true)
    (h : Scans line last ((before ++ c :: after).drop origin) (spans.map Span.token))
    (hPlaced : Placed (before ++ c :: after) origin spans) (hOrigin : origin ≤ before.length)
    (hGap : IsGap spans before.length) :
    Scans line last ((before ++ c :: .char '\n' :: after).drop origin)
      (spans.map (Span.moved before.length)) := by
  generalize hText : (before ++ c :: after).drop origin = cs at h
  generalize hMap : spans.map Span.token = tokens at h
  induction h generalizing origin spans with
  | done line last =>
      have hLength := congrArg List.length hText
      simp at hLength
      omega
  | @space line last d rest tokens hFirst scans ih =>
      have hAt : (before ++ c :: after)[origin]? = some d := by
        rw [← List.head?_drop, hText, List.head?_cons]
      rw [List.drop_append_of_le_length hOrigin]
      rcases cases_of_drop_eq_cons hOrigin hText with ⟨rfl, rfl, rfl⟩ | ⟨w, hDrop, hLater, hLt, rfl⟩
      · rw [List.drop_length, List.nil_append]
        exact (hMap ▸ scans).newline_here hSpace hPlaced hGap
      · have hPass : Placed (before ++ c :: after) (origin + 1) spans := by
          refine hPlaced.pass hAt hFirst fun span hMem => ?_
          exact scans.head_not_space span.token (hMap ▸ List.mem_map_of_mem hMem)
        have hScans := ih hPass hLt hGap (by rw [List.drop_append_of_le_length hLt, hLater]) hMap
        rw [List.drop_append_of_le_length hLt, hLater] at hScans
        rw [hDrop]
        exact .space hFirst hScans
  | @token line last d rest tokens lexeme hFirst hRead scans ih =>
      have hAt : (before ++ c :: after)[origin]? = some d := by
        rw [← List.head?_drop, hText, List.head?_cons]
      cases spans with
      | nil => cases hMap
      | cons span spans =>
          obtain ⟨hToken, hOthers⟩ := List.cons.inj hMap
          have hStart : span.start = origin := hPlaced.start_eq hAt hFirst
          have hLength : span.stop = origin + lexeme.text.length := by
            rw [Span.stop, hStart, hToken]
          -- The white space comes behind this token, so the token does not move.
          have hStop : span.stop ≤ before.length := by
            by_contra hNot
            exact (List.forall_mem_cons.mp hGap).1 ⟨by omega, by omega⟩
          have hMoved : span.moved before.length = ⟨lexeme.kind, lexeme.text, line⟩ := by
            rw [Span.moved, if_neg (by omega), hToken]
          have hRest : (before ++ c :: after).drop span.stop = lexeme.rest := by
            rw [hLength, ← List.drop_drop, hText, ← readLexeme_append hRead, List.drop_left]
          have hScans := ih hPlaced.tail hStop (List.forall_mem_cons.mp hGap).2 hRest hOthers
          rw [List.drop_append_of_le_length hStop] at hRest hScans
          rw [List.drop_append_of_le_length hOrigin, List.map_cons, hMoved]
          rcases cases_of_drop_eq_cons hOrigin hText with ⟨_, rfl, _⟩ | ⟨w, hDrop, _, _, rfl⟩
          · cases hSpace.symm.trans hFirst
          · rw [hDrop]
            exact .newline_token hSpace hFirst hRead hRest.symm hScans

/-- A line feed behind a character that belongs to no token changes no token, apart from the lines
of those behind it. -/
theorem tokenize_newline (h : tokenize (before ++ c :: after) = .ok (spans.map Span.token))
    (hPlaced : Placed (before ++ c :: after) 0 spans) (hGap : IsGap spans before.length) :
    tokenize (before ++ c :: .char '\n' :: after) =
      .ok (spans.map (Span.moved before.length)) := by
  have hSpace : Text.isSpace c = true :=
    hPlaced.blank before.length c (Nat.zero_le _) (by simp) hGap
  exact ((Scans.of_scanFrom h).newline hSpace hPlaced (Nat.zero_le _) hGap).scanFrom_eq

end ScriptDoc.Token
