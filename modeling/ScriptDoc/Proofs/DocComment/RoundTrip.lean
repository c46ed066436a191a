import Mathlib.Tactic.MkIffOfInductiveProp
import ScriptDoc.Proofs.DocComment.Delimiters
import ScriptDoc.Proofs.TagSet.Log

/-! Doc comments that are written and read again. Writing puts a frame around the lines of the
description and of the tags; reading takes the frame off again, finds the lines that open tags, and
trims what it has collected. A text comes back as it was if it has no white space where trimming
would take it off and no line that could be taken for a tag. -/
namespace ScriptDoc.DocComment

/-- A line with a star before it. -/
def starred (line : Text) : Text :=
  " * " ++ line

/-- A comment around some lines. -/
def frame (lines : List Text) : Text :=
  "/**" ++ lines.flatMap (fun line => .char '\n' :: starred line) ++ "\n */"

/-- A tag in a comment. -/
def tagLines (tag : Text × Text) : List Text :=
  Text.linesOf (.char '@' :: (tag.1 ++ .char ' ' :: tag.2))

/-- A description in a comment; an empty one has no line. -/
def descriptionLines (description : Text) : List Text :=
  if description = [] then [] else Text.linesOf description

/-- A comment that says something. -/
def render (description : Text) (tags : List (Text × Text)) : Text :=
  frame (descriptionLines description ++ tags.flatMap tagLines)

/-- Whether a line begins with an at sign and a word, behind white space. -/
def opensTag (line : Text) : Bool :=
  match line.dropWhile Text.isSpace with
  | .char '@' :: c :: _ => Text.isWord c
  | _ => false

/-- No white space at the ends of a text, nor at the end of a line. -/
@[mk_iff]
structure IsTidy (t : Text) : Prop where
  first : ∀ c ∈ t.head?, Text.isSpace c = false
  last : ∀ c ∈ t.getLast?, Text.isSpace c = false
  lines : ∀ line ∈ Text.linesOf t, ∀ c ∈ line.getLast?, Text.isSpace c = false

/-- Texts that can stand before all tags. -/
@[mk_iff]
structure IsLead (t : Text) : Prop where
  tidy : IsTidy t
  plain : ∀ line ∈ Text.linesOf t, opensTag line = false

/-- Names with values that can stand as tags. -/
@[mk_iff]
structure IsEntry (tag : Text × Text) : Prop where
  filled : tag.1 ≠ []
  word : ∀ c ∈ tag.1, Text.isWord c = true
  other : tag.1 ≠ "desc" ∧ tag.1 ≠ "description"
  tidy : IsTidy tag.2
  plain : ∀ line ∈ (Text.linesOf tag.2).tail, opensTag line = false

instance (t : Text) : Decidable (IsTidy t) :=
  decidable_of_iff _ (isTidy_iff t).symm

instance (t : Text) : Decidable (IsLead t) :=
  decidable_of_iff _ (isLead_iff t).symm

instance (tag : Text × Text) : Decidable (IsEntry tag) :=
  decidable_of_iff _ (isEntry_iff tag).symm

/-! Taking off the frame. -/

theorem dropStar_starred (line : Text) : dropStar (starred line) = line := by
  have hDrop : (starred line).dropWhile Text.isSpace = .char '*' :: .char ' ' :: line := rfl
  unfold dropStar
  rw [hDrop]
  rfl

/-- What stands between the delimiters. -/
def inside (lines : List Text) : Text :=
  List.intercalate [.char '\n'] ([] :: (lines.map starred ++ [[.char ' ']]))

theorem inside_eq (lines : List Text) :
    inside lines = lines.flatMap (fun line => .char '\n' :: starred line) ++ "\n " := by
  rw [inside, Text.intercalate_cons, List.flatMap_append, List.flatMap_map]
  rfl

/-- A frame is a comment with the lines between its marks. -/
theorem frame_eq (lines : List Text) : frame lines = delimited (inside lines) := by
  rw [inside_eq, frame, delimited, List.append_assoc, List.append_assoc, List.append_assoc]
  rfl

/-- No star stands at either end of what is between the delimiters. -/
theorem dropClosing_frame (lines : List Text) :
    dropClosing (dropOpening (frame lines)) = inside lines := by
  have hFirst : ∃ rest, inside lines = .char '\n' :: rest := by
    rw [inside, Text.intercalate_cons]
    cases lines with
    | nil => exact ⟨_, rfl⟩
    | cons line lines => exact ⟨_, rfl⟩
  obtain ⟨rest, hRest⟩ := hFirst
  have hFeed : ∃ c ∈ inside lines, c ≠ '*' :=
    ⟨.char '\n', hRest ▸ List.mem_cons_self, by decide⟩
  have hLeft : (inside lines).dropWhile (· == .char '*') = inside lines := by
    rw [hRest]
    rfl
  have hRight : (inside lines).rdropWhile (· == .char '*') = inside lines := by
    have hLast : (inside lines).getLast? = some (.char ' ') := by
      rw [inside_eq]
      exact List.getLast?_append_of_ne_nil _ (List.cons_ne_nil _ _)
    obtain ⟨front, hFront⟩ := List.getLast?_eq_some_iff.mp hLast
    rw [hFront, List.rdropWhile_concat_neg _ _ _ (by decide)]
  rw [frame_eq, dropClosing_dropOpening hFeed, hLeft, hRight]

/-- The lines of a frame come back between two empty ones, without white space at their ends. -/
theorem unwrap_frame {lines : List Text} (h : ∀ line ∈ lines, .char '\n' ∉ line) :
    unwrap (frame lines) = [] :: (lines.map Text.trimRight ++ [[]]) := by
  have hLines : Text.linesOf (inside lines) = [] :: (lines.map starred ++ [[.char ' ']]) := by
    refine Text.linesOf_intercalate (List.cons_ne_nil _ _) ?_
    simp only [List.forall_mem_cons, List.forall_mem_append, List.forall_mem_map]
    exact ⟨by decide, fun line hMem => List.not_mem_append (by decide) (h line hMem), by decide,
      by decide⟩
  unfold unwrap
  rw [frame_eq, trim_delimited, ← frame_eq, dropClosing_frame, hLines]
  simp only [List.map_cons, List.map_append, List.map_map, List.map_nil, Function.comp_def,
    dropStar_starred]
  rfl

/-! Finding the tags. -/

theorem tagLine?_trimRight (line : Text) : tagLine? (Text.trimRight line) = tagLine? line := by
  unfold tagLine?
  rw [Text.trim_trimRight]

/-- A line that opens no tag is read as none. -/
theorem tagLine?_eq_none {line : Text} (h : opensTag line = false) : tagLine? line = none := by
  unfold tagLine?
  split
  · next rest hTrim =>
      cases rest with
      | nil => rfl
      | cons c rest =>
          obtain ⟨more, hMore⟩ := Text.trim_prefix line
          rw [hTrim] at hMore
          have hWord : Text.isWord c = false := by
            unfold opensTag at h
            rw [← hMore] at h
            exact h
          rw [List.takeWhile_cons_of_neg (Bool.eq_false_iff.mp hWord)]
  · rfl

/-- A line with a sign, a word and something else opens a tag of that name. -/
theorem tagLine?_of_trim {line name rest : Text}
    (hTrim : Text.trim line = .char '@' :: (name ++ rest)) (hFilled : name ≠ [])
    (hWord : ∀ c ∈ name, Text.isWord c = true)
    (hStop : ∀ c ∈ rest.head?, Text.isWord c = false) :
    tagLine? line = some (name, rest.dropWhile Text.isSpace) := by
  have hStops : rest.takeWhile Text.isWord = [] := by
    cases rest with
    | nil => rfl
    | cons c rest => exact List.takeWhile_cons_of_neg (Bool.eq_false_iff.mp (hStop c rfl))
  have hTake : (name ++ rest).takeWhile Text.isWord = name := by
    rw [List.takeWhile_append_of_pos hWord, hStops, List.append_nil]
  have hDrop : (name ++ rest).dropWhile Text.isWord = rest := by
    have hWhole := List.takeWhile_append_dropWhile (p := Text.isWord) (l := name ++ rest)
    rw [hTake] at hWhole
    exact List.append_cancel_left hWhole
  simp only [tagLine?, hTrim, hTake, hDrop]

/-- A name with the first line of its value. -/
theorem tagLine?_of_name {name value : Text} (hFilled : name ≠ [])
    (hWord : ∀ c ∈ name, Text.isWord c = true) (hFirst : ∀ c ∈ value.head?, Text.isSpace c = false)
    (hLast : ∀ c ∈ value.getLast?, Text.isSpace c = false) :
    tagLine? (.char '@' :: (name ++ .char ' ' :: value)) = some (name, value) := by
  cases value with
  | nil =>
      -- The blank behind the name is at the end of the line and goes.
      have hName : ∀ c ∈ (.char '@' :: name).getLast?, Text.isSpace c = false := by
        intro c hMem
        rw [List.getLast?_cons_of_ne_nil hFilled] at hMem
        exact Text.not_isSpace_of_isWord (hWord c (List.mem_of_getLast? hMem))
      have hTrim : Text.trim (.char '@' :: (name ++ [.char ' '])) = .char '@' :: (name ++ []) := by
        rw [← List.cons_append, Text.trim_append_spaces _ (by decide), List.append_nil]
        exact Text.trim_eq_self (by rintro c ⟨⟩; decide) hName
      exact tagLine?_of_trim hTrim hFilled hWord fun _ hMem => (Option.not_mem_none _ hMem).elim
  | cons c value =>
      have hEnd : (.char '@' :: (name ++ .char ' ' :: c :: value)).getLast? =
          (c :: value).getLast? := by
        have hSplit : .char '@' :: (name ++ .char ' ' :: c :: value) =
            .char '@' :: (name ++ [.char ' ']) ++ c :: value := by simp
        rw [hSplit, List.getLast?_append_of_ne_nil _ (List.cons_ne_nil _ _)]
      rw [← hEnd] at hLast
      have hTrim := Text.trim_eq_self (by rintro c ⟨⟩; decide) hLast
      have hBlank : ∀ d ∈ (.char ' ' :: c :: value).head?, Text.isWord d = false := by
        rintro d ⟨⟩
        decide +kernel
      rw [tagLine?_of_trim hTrim hFilled hWord hBlank, List.dropWhile_cons_of_pos (by decide),
        List.dropWhile_cons_of_neg (Bool.eq_false_iff.mp (hFirst c rfl))]

/-- Lines that open no tag go to the lines before the first one. -/
theorem sections_append {lines : List Text} (h : ∀ line ∈ lines, tagLine? line = none)
    (rest : List Text) :
    sections (lines ++ rest) = ⟨lines ++ (sections rest).lead, (sections rest).tags⟩ := by
  induction lines with
  | nil => rfl
  | cons line lines ih =>
      obtain ⟨hLine, hLines⟩ := List.forall_mem_cons.mp h
      rw [List.cons_append, sections, ih hLines, hLine]
      rfl

/-- A line that opens a tag takes the lines behind it, up to the next one. -/
theorem sections_tag {line name value : Text} {lines : List Text}
    (hLine : tagLine? line = some (name, value)) (hLines : ∀ line ∈ lines, tagLine? line = none)
    (rest : List Text) :
    sections (line :: lines ++ rest) =
      ⟨[], (name, value :: (lines ++ (sections rest).lead)) :: (sections rest).tags⟩ := by
  rw [List.cons_append, sections, sections_append hLines, hLine]

/-! Collecting texts. -/

theorem textOf_nil_cons (lines : List Text) : textOf ([] :: lines) = textOf lines := by
  cases lines with
  | nil => rfl
  | cons line lines => exact Text.trim_cons_space (by decide) _

/-- Empty lines at the end do not count. -/
theorem textOf_linesOf_append {blanks : List Text} (h : ∀ line ∈ blanks, line = []) (t : Text) :
    textOf (Text.linesOf t ++ blanks) = Text.trim t := by
  obtain ⟨first, others, hLines⟩ := List.exists_cons_of_ne_nil (Text.linesOf_ne_nil t)
  have hText : first ++ others.flatMap (.char '\n' :: ·) = t := by
    rw [← Text.intercalate_cons, ← hLines, Text.intercalate_linesOf]
  rw [textOf, hLines, List.cons_append, Text.intercalate_cons, List.flatMap_append,
    ← List.append_assoc, hText]
  refine Text.trim_append_spaces t ?_
  intro c hMem
  obtain ⟨line, hLine, hIn⟩ := List.mem_flatMap.mp hMem
  rw [h line hLine, List.mem_singleton] at hIn
  subst hIn
  decide

theorem IsTidy.trim_eq {t : Text} (h : IsTidy t) : Text.trim t = t :=
  Text.trim_eq_self h.first h.last

theorem textOf_descriptionLines {blanks : List Text} (h : ∀ line ∈ blanks, line = [])
    (description : Text) :
    textOf ([] :: (descriptionLines description ++ blanks)) = Text.trim description := by
  unfold descriptionLines
  split
  · next hEmpty =>
      subst hEmpty
      exact textOf_linesOf_append h []
  · rw [textOf_nil_cons, textOf_linesOf_append h]

/-! Reading what was written. -/

theorem newline_not_mem_of_word {name : Text} (h : ∀ c ∈ name, Text.isWord c = true) :
    .char '\n' ∉ name := by
  intro hMem
  have hSpace := Text.not_isSpace_of_isWord (h _ hMem)
  exact absurd hSpace (by decide)

/-- The lines of a tidy text have no white space at their ends. -/
theorem IsTidy.map_trimRight {t : Text} (h : IsTidy t) {lines : List Text}
    (hLines : ∀ line ∈ lines, line ∈ Text.linesOf t) : lines.map Text.trimRight = lines := by
  have hSame : ∀ line ∈ lines, Text.trimRight line = id line := fun line hMem =>
    Text.trimRight_eq_self (h.lines line (hLines line hMem))
  rw [List.map_congr_left hSame, List.map_id]

/-- The lines of a tag are its opening with the first line of its value, and the other lines. -/
theorem IsEntry.tagLines_eq {tag : Text × Text} (h : IsEntry tag) :
    ∃ first others, Text.linesOf tag.2 = first :: others ∧
      tagLines tag = (.char '@' :: (tag.1 ++ .char ' ' :: first)) :: others := by
  obtain ⟨first, others, hLines⟩ := List.exists_cons_of_ne_nil (Text.linesOf_ne_nil tag.2)
  refine ⟨first, others, hLines, ?_⟩
  have hText : .char '@' :: (tag.1 ++ .char ' ' :: tag.2) =
      List.intercalate [.char '\n'] ((.char '@' :: (tag.1 ++ .char ' ' :: first)) :: others) := by
    rw [← Text.intercalate_linesOf tag.2, hLines, Text.intercalate_cons, Text.intercalate_cons]
    simp
  rw [tagLines, hText]
  refine Text.linesOf_intercalate (List.cons_ne_nil _ _) ?_
  have hName := newline_not_mem_of_word h.word
  have hOld : ∀ line ∈ first :: others, .char '\n' ∉ line := by
    rw [← hLines]
    exact fun line => Text.not_mem_of_mem_linesOf
  obtain ⟨hFirst, hOthers⟩ := List.forall_mem_cons.mp hOld
  exact List.forall_mem_cons.mpr ⟨by simp [hName, hFirst], hOthers⟩

theorem IsTidy.head?_line {t first : Text} {others : List Text} (h : IsTidy t)
    (hLines : Text.linesOf t = first :: others) : ∀ c ∈ first.head?, Text.isSpace c = false := by
  intro c hMem
  refine h.first c ?_
  obtain ⟨rest, rfl⟩ := List.head?_eq_some_iff.mp hMem
  rw [← Text.intercalate_linesOf t, hLines, Text.intercalate_cons]
  rfl

/-- The lines of a tag are read as this tag. -/
theorem IsEntry.sections_eq {tag : Text × Text} (h : IsEntry tag) (rest : List Text) :
    sections ((tagLines tag).map Text.trimRight ++ rest) =
      ⟨[], (tag.1, Text.linesOf tag.2 ++ (sections rest).lead) :: (sections rest).tags⟩ := by
  obtain ⟨first, others, hLines, hTag⟩ := h.tagLines_eq
  have hPlain := h.plain
  rw [hLines, List.tail_cons] at hPlain
  have hOthers : others.map Text.trimRight = others :=
    h.tidy.map_trimRight fun line hMem => hLines ▸ List.mem_cons_of_mem _ hMem
  have hFirst : tagLine? (Text.trimRight (.char '@' :: (tag.1 ++ .char ' ' :: first))) =
      some (tag.1, first) := by
    rw [tagLine?_trimRight]
    exact tagLine?_of_name h.filled h.word (h.tidy.head?_line hLines)
      (h.tidy.lines first (hLines ▸ List.mem_cons_self))
  rw [hTag, List.map_cons, hOthers, hLines,
    sections_tag hFirst (fun line hMem => tagLine?_eq_none (hPlain line hMem)), List.cons_append]

/-- The tags of a comment come back one by one; only blank lines are left before the first. The
induction is on the tags: the blank line that closes the frame belongs to the last of them, or to
the description if there are none. -/
theorem sections_tags {tags : List (Text × Text)} (h : ∀ tag ∈ tags, IsEntry tag) :
    ∃ parts, sections ((tags.flatMap tagLines).map Text.trimRight ++ [[]]) = parts ∧
      (∀ line ∈ parts.lead, line = []) ∧
      parts.tags.map (fun tag => (tag.1, textOf tag.2)) = tags := by
  induction tags with
  | nil => exact ⟨⟨[[]], []⟩, rfl, by simp, rfl⟩
  | cons tag tags ih =>
      obtain ⟨hTag, hTags⟩ := List.forall_mem_cons.mp h
      obtain ⟨parts, hParts, hBlank, hEntries⟩ := ih hTags
      refine ⟨_, rfl, ?_, ?_⟩
      · rw [List.flatMap_cons, List.map_append, List.append_assoc, hTag.sections_eq]
        exact List.forall_mem_nil _
      · rw [List.flatMap_cons, List.map_append, List.append_assoc, hTag.sections_eq, hParts,
          List.map_cons, hEntries, textOf_linesOf_append hBlank, hTag.tidy.trim_eq]

/-- Tags that give no description leave it alone and are added in turn. -/
theorem foldl_addTag {tags : List (Text × List Text)}
    (h : ∀ tag ∈ tags, isDescriptionTag tag.1 = false) (doc : DocComment) :
    tags.foldl addTag doc =
      ⟨doc.description, (tags.map fun tag => (tag.1, textOf tag.2)).foldl
        (fun set entry => set.add entry.1 entry.2) doc.tags⟩ := by
  induction tags generalizing doc with
  | nil => rfl
  | cons tag tags ih =>
      obtain ⟨hTag, hTags⟩ := List.forall_mem_cons.mp h
      rw [List.foldl_cons, ih hTags, addTag]
      simp [hTag]

theorem mem_linesOf_of_mem_descriptionLines {line description : Text}
    (h : line ∈ descriptionLines description) : line ∈ Text.linesOf description := by
  unfold descriptionLines at h
  split at h
  · cases h
  · exact h

/-- All lines of a rendered comment are single ones. -/
theorem newline_not_mem_lines (description : Text) (tags : List (Text × Text)) :
    ∀ line ∈ descriptionLines description ++ tags.flatMap tagLines, .char '\n' ∉ line := by
  intro line hMem
  rcases List.mem_append.mp hMem with hLead | hTag
  · exact Text.not_mem_of_mem_linesOf (mem_linesOf_of_mem_descriptionLines hLead)
  · obtain ⟨tag, _, hLine⟩ := List.mem_flatMap.mp hTag
    exact Text.not_mem_of_mem_linesOf hLine

/-- The lines of a description are read as lines before the first tag. -/
theorem IsLead.sections_eq {description : Text} (h : IsLead description) (rest : List Text) :
    sections ([] :: (descriptionLines description).map Text.trimRight ++ rest) =
      ⟨[] :: (descriptionLines description ++ (sections rest).lead), (sections rest).tags⟩ := by
  have hLines : ∀ line ∈ descriptionLines description, line ∈ Text.linesOf description :=
    fun line => mem_linesOf_of_mem_descriptionLines
  have hPlain : ∀ line ∈ [] :: descriptionLines description, tagLine? line = none :=
    List.forall_mem_cons.mpr
      ⟨rfl, fun line hMem => tagLine?_eq_none (h.plain line (hLines line hMem))⟩
  rw [h.tidy.map_trimRight hLines, sections_append hPlain, List.cons_append]

/-- A comment that is written and read again says the same: the description is the given one, and
the tags are the given ones, with the names in the order in which they first came and the values of
each name in their order. -/
theorem parse_render (description : Text) (tags : List (Text × Text)) (hLead : IsLead description)
    (hTags : ∀ tag ∈ tags, IsEntry tag) :
    (parse (render description tags)).description = description ∧
      (parse (render description tags)).tags = TagSet.ofList tags ∧
      (parse (render description tags)).tags.groups = TagSet.groupsOf tags := by
  obtain ⟨parts, hParts, hBlank, hEntries⟩ := sections_tags hTags
  have hSections : sections (unwrap (render description tags)) =
      ⟨[] :: (descriptionLines description ++ parts.lead), parts.tags⟩ := by
    rw [render, unwrap_frame (newline_not_mem_lines description tags), List.map_append,
      List.append_assoc, ← List.cons_append, hLead.sections_eq, hParts]
  have hNames : ∀ tag ∈ parts.tags, isDescriptionTag tag.1 = false := by
    intro tag hMem
    have hEntry : (tag.1, textOf tag.2) ∈ tags := hEntries ▸ List.mem_map_of_mem hMem
    simpa [isDescriptionTag] using (hTags _ hEntry).other
  have hParse : parse (render description tags) = ⟨description, TagSet.ofList tags⟩ := by
    rw [parse, hSections, foldl_addTag hNames, hEntries, textOf_descriptionLines hBlank,
      hLead.tidy.trim_eq]
    rfl
  rw [hParse]
  exact ⟨rfl, rfl, TagSet.groups_ofList tags⟩

/-- A text with stars, slashes and an at sign at the beginning of lines. -/
def noteDescription : Text :=
  "* star\n\n  /** slash */\n@ sign"

/-- Values with a blank line, with no line, and with what looks like a tag in the first line. -/
def noteTags : List (Text × Text) :=
  [("param", "x */\n\n * y\n@"), ("since", ""), ("param", "@see z")]

theorem parse_render_note :
    IsLead noteDescription ∧ (∀ tag ∈ noteTags, IsEntry tag) ∧
      (parse (render noteDescription noteTags)).description = noteDescription ∧
      (parse (render noteDescription noteTags)).tags = TagSet.ofList noteTags ∧
      (parse (render noteDescription noteTags)).tags.groups = TagSet.groupsOf noteTags := by
  have hLead : IsLead noteDescription := by decide +kernel
  have hTags : ∀ tag ∈ noteTags, IsEntry tag := by decide +kernel
  exact ⟨hLead, hTags, parse_render noteDescription noteTags hLead hTags⟩

end ScriptDoc.DocComment
