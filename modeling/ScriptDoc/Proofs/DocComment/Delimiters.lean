import Mathlib.Data.List.Forall2
import Mathlib.Data.List.Infix
import ScriptDoc.Proofs.DocComment.Values
import ScriptDoc.Proofs.Text.Lines
import ScriptDoc.Token.Scan

/-! The delimiters of a doc comment. The stars that open a comment are taken off before those that
close it, as many as there are. As long as anything but stars stands between the delimiters, the two
runs of stars end before they meet, and what is left of each line is a part of it. A comment of
stars alone loses all of them at its beginning, and then the slash that closes it is no delimiter
any more. -/
namespace ScriptDoc

namespace Text

variable {before after first line s t : Text} {others : List Text} {c : CodePoint}

/-- What has no line feed in it joins the first line of what it is put before. -/
theorem linesOf_append_left (h : .char '\n' ∉ before) (hLines : linesOf t = first :: others) :
    linesOf (before ++ t) = (before ++ first) :: others := by
  induction before with
  | nil => exact hLines
  | cons c before ih =>
      obtain ⟨hFirst, hRest⟩ := not_or.mp (mt List.mem_cons.mpr h)
      rw [List.cons_append, linesOf_cons_of_ne (Ne.symm hFirst), ih hRest]
      rfl

/-- What has no line feed in it leaves the beginnings of lines as they are when it is put behind
them. -/
theorem linesOf_append_right (h : .char '\n' ∉ after) (t : Text) :
    List.Forall₂ (· <+: ·) (linesOf t) (linesOf (t ++ after)) := by
  induction t with
  | nil =>
      have hLine : linesOf (after ++ []) = [after ++ []] := linesOf_append_left h rfl
      rw [List.append_nil] at hLine
      rw [List.nil_append, hLine]
      exact .cons List.nil_prefix .nil
  | cons c t ih =>
      by_cases hFeed : c = '\n'
      · subst hFeed
        exact .cons List.prefix_rfl ih
      · obtain ⟨first, others, hOld⟩ := List.exists_cons_of_ne_nil (linesOf_ne_nil t)
        obtain ⟨first', others', hNew⟩ := List.exists_cons_of_ne_nil (linesOf_ne_nil (t ++ after))
        rw [hOld, hNew, List.forall₂_cons] at ih
        rw [List.cons_append, linesOf_cons_of_ne hFeed, linesOf_cons_of_ne hFeed, hOld, hNew]
        exact .cons ((List.prefix_cons_inj c).mpr ih.1) ih.2

/-- A line is a part of its text. -/
theorem infix_of_mem_linesOf (h : line ∈ linesOf t) : line <:+: t := by
  obtain ⟨first, others, hLines⟩ := List.exists_cons_of_ne_nil (linesOf_ne_nil t)
  have hText : t = first ++ others.flatMap (.char '\n' :: ·) := by
    rw [← intercalate_cons, ← hLines, intercalate_linesOf]
  rw [hLines] at h
  rw [hText]
  rcases List.mem_cons.mp h with rfl | hLater
  · exact (List.prefix_append line _).isInfix
  · have hPiece : .char '\n' :: line <:+: others.flatMap (.char '\n' :: ·) :=
      List.infix_of_mem_flatten (List.mem_map_of_mem hLater)
    exact ((List.suffix_cons _ line).isInfix.trans hPiece).trans (List.suffix_append first _).isInfix

/-- A part of a text without line feeds is a part of a line. -/
theorem exists_line_of_part (h : s <:+: t) (hFeed : .char '\n' ∉ s) :
    ∃ line ∈ linesOf t, s <:+: line := by
  obtain ⟨before, after, rfl⟩ := h
  rw [List.append_assoc]
  induction before with
  | nil =>
      obtain ⟨first, others, hLines⟩ := List.exists_cons_of_ne_nil (linesOf_ne_nil after)
      rw [List.nil_append, linesOf_append_left hFeed hLines]
      exact ⟨s ++ first, List.mem_cons_self, (List.prefix_append s first).isInfix⟩
  | cons c before ih =>
      obtain ⟨line, hMem, hPart⟩ := ih
      by_cases hNewline : c = '\n'
      · subst hNewline
        exact ⟨line, List.mem_cons_of_mem _ hMem, hPart⟩
      · obtain ⟨first, others, hLines⟩ :=
          List.exists_cons_of_ne_nil (linesOf_ne_nil (before ++ (s ++ after)))
        rw [List.cons_append, linesOf_cons_of_ne hNewline, hLines]
        rw [hLines] at hMem
        rcases List.mem_cons.mp hMem with rfl | hLater
        · exact ⟨c :: line, List.mem_cons_self, hPart.trans (List.suffix_cons c line).isInfix⟩
        · exact ⟨line, List.mem_cons_of_mem _ hLater, hPart⟩

theorem exists_mem_of_forall₂ {R : Text → Text → Prop} {lines others : List Text}
    (h : List.Forall₂ R lines others) (hLine : line ∈ lines) : ∃ other ∈ others, R line other := by
  induction h with
  | nil => cases hLine
  | cons hFirst _ ih =>
      rcases List.mem_cons.mp hLine with rfl | hLater
      · exact ⟨_, List.mem_cons_self, hFirst⟩
      · obtain ⟨other, hOther, hRel⟩ := ih hLater
        exact ⟨other, List.mem_cons_of_mem _ hOther, hRel⟩

/-- Every line of a text is a part of a line of another one. -/
def LinesWithin (s t : Text) : Prop :=
  ∀ line ∈ linesOf s, ∃ other ∈ linesOf t, line <:+: other

/-- A part of a text has its lines within those of the text. -/
theorem LinesWithin.of_part (h : s <:+: t) : LinesWithin s t := fun _ hLine =>
  exists_line_of_part ((infix_of_mem_linesOf hLine).trans h) (not_mem_of_mem_linesOf hLine)

theorem LinesWithin.trans {u : Text} (h : LinesWithin s t) (hLater : LinesWithin t u) :
    LinesWithin s u := by
  intro line hLine
  obtain ⟨other, hOther, hPart⟩ := h line hLine
  obtain ⟨last, hLast, hWhole⟩ := hLater other hOther
  exact ⟨last, hLast, hPart.trans hWhole⟩

end Text

namespace DocComment

open Text (linesOf LinesWithin)

variable {body : Text}

/-- A comment around some text. -/
def delimited (body : Text) : Text :=
  "/**" ++ body ++ "*/"

/-! Taking off the delimiters. -/

/-- A comment begins and ends with marks, not with white space. -/
theorem trim_delimited (body : Text) : Text.trim (delimited body) = delimited body := by
  have hFirst : (delimited body).head? = some (.char '/') := rfl
  have hLast : (delimited body).getLast? = some (.char '/') :=
    List.getLast?_append_of_ne_nil _ (List.cons_ne_nil _ _)
  refine Text.trim_eq_self ?_ ?_
  · rw [hFirst]
    rintro c ⟨⟩
    decide
  · rw [hLast]
    rintro c ⟨⟩
    decide

/-- Taking off the opening takes all stars with it, also those of the body. -/
theorem dropOpening_delimited (body : Text) :
    dropOpening (delimited body) = (body ++ Text.ofString "*/").dropWhile (· == .char '*') := by
  have hSplit : delimited body =
      .char '/' :: .char '*' :: .char '*' :: (body ++ Text.ofString "*/") := by
    rw [delimited, List.append_assoc]
    rfl
  rw [hSplit]
  rfl

/-- Taking off the closing takes all stars with it, also those of the body. -/
theorem dropClosing_append (t : Text) :
    dropClosing (t ++ Text.ofString "*/") = t.rdropWhile (· == .char '*') := by
  have hReverse : (t ++ Text.ofString "*/").reverse = .char '/' :: .char '*' :: t.reverse := by
    rw [List.reverse_append]
    rfl
  unfold dropClosing
  rw [hReverse]
  rfl

/-- With anything but stars in it, a body loses the stars at both ends and nothing else. -/
theorem dropClosing_dropOpening (h : ∃ c ∈ body, c ≠ '*') :
    dropClosing (dropOpening (delimited body)) =
      (body.dropWhile (· == .char '*')).rdropWhile (· == .char '*') := by
  have hRest : (body.dropWhile (· == .char '*')).isEmpty = false := by
    rw [List.isEmpty_eq_false_iff, Ne, List.dropWhile_eq_nil_iff]
    simpa using h
  rw [dropOpening_delimited, List.dropWhile_append, hRest, if_neg (by simp), dropClosing_append]

/-- A body of stars goes with those of the opening, and the slash stays. -/
theorem unwrap_of_stars (h : ∀ c ∈ body, c = '*') : unwrap (delimited body) = [[.char '/']] := by
  have hStars : ∀ c ∈ body, (c == .char '*') = true := fun c hMem => beq_iff_eq.mpr (h c hMem)
  have hLeft : dropOpening (delimited body) = [.char '/'] := by
    rw [dropOpening_delimited, List.dropWhile_append_of_pos hStars]
    rfl
  unfold unwrap
  rw [trim_delimited, hLeft]
  rfl

/-! What is left of a line. -/

theorem newline_not_mem_takeWhile (t : Text) :
    .char '\n' ∉ t.takeWhile (· == .char '*') := fun hMem =>
  absurd (List.mem_takeWhile_imp hMem) (by decide)

/-- The stars at both ends belong to the first and to the last line, so the lines of a body stay
apart as they are. -/
theorem forall₂_linesOf_stripped (body : Text) :
    List.Forall₂ (· <:+: ·)
      (linesOf ((body.dropWhile (· == .char '*')).rdropWhile (· == .char '*'))) (linesOf body) := by
  generalize hInner : (body.dropWhile (· == .char '*')).rdropWhile (· == .char '*') = inner
  have hAfter : .char '\n' ∉ (body.dropWhile (· == .char '*')).rtakeWhile (· == .char '*') :=
    fun hMem => absurd (List.mem_rtakeWhile_imp hMem) (by decide)
  have hRight := Text.linesOf_append_right hAfter inner
  rw [← hInner, List.rdropWhile_append_rtakeWhile, hInner] at hRight
  obtain ⟨first, others, hLines⟩ :=
    List.exists_cons_of_ne_nil (Text.linesOf_ne_nil (body.dropWhile (· == .char '*')))
  have hLeft := Text.linesOf_append_left (newline_not_mem_takeWhile body) hLines
  rw [List.takeWhile_append_dropWhile] at hLeft
  rw [hLines] at hRight
  rw [hLeft]
  obtain ⟨line, rest, hFirst, hOthers, hSplit⟩ := List.forall₂_cons_right_iff.mp hRight
  rw [hSplit]
  refine .cons (hFirst.isInfix.trans (List.suffix_append _ first).isInfix) ?_
  exact hOthers.imp fun _ _ hPart => hPart.isInfix

/-- At most a beginning is taken off a line. -/
theorem dropStar_suffix (line : Text) : dropStar line <:+ line := by
  have hDrop : line.dropWhile Text.isSpace <:+ line := List.dropWhile_suffix _
  unfold dropStar
  split
  · exact List.suffix_rfl
  · next c rest _ hRest =>
      rw [hRest] at hDrop
      split
      · exact ((List.suffix_cons c rest).trans (List.suffix_cons _ _)).trans hDrop
      · exact (List.suffix_cons _ _).trans hDrop
  · exact List.nil_suffix
  · exact List.suffix_rfl

/-- What is left of a line without its star and the white space at its end is a part of it. -/
theorem trimRight_dropStar_isPart (line : Text) : Text.trimRight (dropStar line) <:+: line := by
  rw [Text.trimRight_eq]
  exact (List.rdropWhile_prefix _ _).isInfix.trans (dropStar_suffix line).isInfix

/-- The lines of a comment come from the lines of its body one by one, if there is more than stars.
-/
theorem forall₂_unwrap (h : ∃ c ∈ body, c ≠ '*') :
    List.Forall₂ (· <:+: ·) (unwrap (delimited body)) (linesOf body) := by
  unfold unwrap
  rw [trim_delimited, dropClosing_dropOpening h, List.forall₂_map_left_iff]
  exact (forall₂_linesOf_stripped body).imp fun line _ hPart =>
    (trimRight_dropStar_isPart line).trans hPart

/-! What a comment says. -/

/-- The value that a tag has in its own line is a part of the line. -/
theorem infix_of_tagLine? {line name value : Text} (h : tagLine? line = some (name, value)) :
    value <:+: line := by
  have hTrim : Text.trim line <:+: line := Text.trim_isInfix line
  unfold tagLine? at h
  split at h
  · next rest hLine =>
      rw [hLine] at hTrim
      split at h
      · cases h
      · cases h
        have hRest : (rest.dropWhile Text.isWord).dropWhile Text.isSpace <:+ .char '@' :: rest :=
          (List.dropWhile_suffix _).trans ((List.dropWhile_suffix _).trans (List.suffix_cons _ rest))
        exact hRest.isInfix.trans hTrim
  · cases h

/-- The lines of the description and of the tags are parts of the lines of the comment. -/
theorem sections_isPart (lines : List Text) :
    ∀ line ∈ (sections lines).lead ++ (sections lines).tags.flatMap Prod.snd,
      ∃ other ∈ lines, line <:+: other := by
  induction lines with
  | nil => exact List.forall_mem_nil _
  | cons first lines ih =>
      have hLater : ∀ line ∈ (sections lines).lead ++ (sections lines).tags.flatMap Prod.snd,
          ∃ other ∈ first :: lines, line <:+: other := by
        intro line hMem
        obtain ⟨other, hOther, hPart⟩ := ih line hMem
        exact ⟨other, List.mem_cons_of_mem _ hOther, hPart⟩
      rw [sections]
      split
      · next name value hTag =>
          refine List.forall_mem_cons.mpr ⟨⟨first, List.mem_cons_self, infix_of_tagLine? hTag⟩, ?_⟩
          exact hLater
      · refine List.forall_mem_cons.mpr ⟨⟨first, List.mem_cons_self, List.infix_rfl⟩, ?_⟩
        exact hLater

/-- A text that is made of parts of lines lies within them. -/
theorem linesWithin_textOf {lines : List Text}
    (h : ∀ line ∈ lines, ∃ other ∈ linesOf body, line <:+: other) :
    LinesWithin (textOf lines) body := by
  have hTrim : textOf lines <:+: List.intercalate [.char '\n'] lines := Text.trim_isInfix _
  refine (LinesWithin.of_part hTrim).trans ?_
  by_cases hNone : lines = []
  · subst hNone
    exact .of_part List.nil_infix
  · have hFeeds : ∀ line ∈ lines, .char '\n' ∉ line := by
      intro line hMem hFeed
      obtain ⟨other, hOther, hPart⟩ := h line hMem
      exact Text.not_mem_of_mem_linesOf hOther (hPart.subset hFeed)
    unfold LinesWithin
    rwa [Text.linesOf_intercalate hNone hFeeds]

/-- Whatever a comment says stands in the lines of its body. -/
theorem linesWithin_texts (h : List.Forall₂ (· <:+: ·) (unwrap (delimited body)) (linesOf body)) :
    ∀ text ∈ (parse (delimited body)).texts, LinesWithin text body := by
  have hSections : ∀ line ∈ (sections (unwrap (delimited body))).lead ++
      (sections (unwrap (delimited body))).tags.flatMap Prod.snd,
        ∃ other ∈ linesOf body, line <:+: other := by
    intro line hMem
    obtain ⟨middle, hMiddle, hPart⟩ := sections_isPart _ line hMem
    obtain ⟨other, hOther, hWhole⟩ := Text.exists_mem_of_forall₂ h hMiddle
    exact ⟨other, hOther, hPart.trans hWhole⟩
  refine parse_texts (linesWithin_textOf fun line hMem => ?_) fun tag hTag =>
    linesWithin_textOf fun line hMem => ?_
  · exact hSections line (List.mem_append_left _ hMem)
  · exact hSections line (List.mem_append_right _ (List.mem_flatMap.mpr ⟨tag, hTag, hMem⟩))

/-! Bodies of stars. -/

/-- A body of stars alone has no slash in it. -/
theorem not_infix_slash (h : ∀ c ∈ body, c = '*') :
    ¬ ∃ line ∈ linesOf body, [CodePoint.char '/'] <:+: line := by
  rintro ⟨line, hLine, hPart⟩
  have hMem : .char '/' ∈ body :=
    (Text.infix_of_mem_linesOf hLine).subset (hPart.subset (List.mem_singleton_self _))
  exact absurd (h _ hMem) (by decide)

/-- The slash of a comment with a body of stars alone is taken for a line. -/
theorem not_forall₂_unwrap (h : ∀ c ∈ body, c = '*') :
    ¬ List.Forall₂ (· <:+: ·) (unwrap (delimited body)) (linesOf body) := by
  rw [unwrap_of_stars h]
  intro hLines
  exact not_infix_slash h (Text.exists_mem_of_forall₂ hLines (List.mem_singleton_self _))

/-- A comment with a body of stars alone has its closing slash as the description. -/
theorem description_of_stars (h : ∀ c ∈ body, c = '*') :
    (parse (delimited body)).description = [.char '/'] := by
  rw [parse, unwrap_of_stars h]
  rfl

/-- That slash does not stand in the body. -/
theorem not_linesWithin_description (h : ∀ c ∈ body, c = '*') :
    ¬ LinesWithin (parse (delimited body)).description body := by
  rw [description_of_stars h]
  intro hWithin
  exact not_infix_slash h (hWithin _ (List.mem_singleton_self _))

/-- The delimiters of a comment are no part of what it says, unless nothing but stars stands between
them. Whatever else the body of a comment is, there are as many lines left as the body has, each is a
part of the line at its place, and every line of the description and of the values of tags is a part
of a line of the body. Neither holds if the body is empty or made of stars. -/
theorem unwrap_delimited_exact (body : Text) :
    (List.Forall₂ (· <:+: ·) (unwrap (delimited body)) (linesOf body) ↔ ∃ c ∈ body, c ≠ '*') ∧
      ((∀ text ∈ (parse (delimited body)).texts, LinesWithin text body) ↔ ∃ c ∈ body, c ≠ '*') := by
  by_cases hBody : ∃ c ∈ body, c ≠ '*'
  · have hLines := forall₂_unwrap hBody
    exact ⟨iff_of_true hLines hBody, iff_of_true (linesWithin_texts hLines) hBody⟩
  · have hStars : ∀ c ∈ body, c = '*' := by simpa using hBody
    refine ⟨iff_of_false (not_forall₂_unwrap hStars) hBody, iff_of_false ?_ hBody⟩
    intro hTexts
    exact not_linesWithin_description hStars (hTexts _ List.mem_cons_self)

/-- Comments with nothing and with two stars between the delimiters are each read as one comment,
and the slash that closes them is their description. -/
theorem unwrap_delimited_slash :
    (¬ Text.ofString "*/" <:+: [] ∧
        Token.tokenize (delimited []) = .ok [⟨.comment, "/***/", 1⟩] ∧
        unwrap (delimited []) = [("/" : Text)] ∧ (parse (delimited [])).description = "/" ∧
        ¬ List.Forall₂ (· <:+: ·) (unwrap (delimited [])) (linesOf [])) ∧
      ¬ Text.ofString "*/" <:+: Text.ofString "**" ∧
        Token.tokenize (delimited "**") = .ok [⟨.comment, "/*****/", 1⟩] ∧
        unwrap (delimited "**") = [("/" : Text)] ∧ (parse (delimited "**")).description = "/" ∧
        ¬ List.Forall₂ (· <:+: ·) (unwrap (delimited "**")) (linesOf "**") := by
  have hEmpty : ∀ c ∈ ([] : Text), c = '*' := List.forall_mem_nil _
  have hStars : ∀ c ∈ ("**" : Text), c = '*' := by decide
  exact ⟨⟨by decide, by decide +kernel, unwrap_of_stars hEmpty, description_of_stars hEmpty,
    not_forall₂_unwrap hEmpty⟩, by decide, by decide +kernel, unwrap_of_stars hStars,
    description_of_stars hStars, not_forall₂_unwrap hStars⟩

end DocComment
end ScriptDoc
