import ScriptDoc.MemberPath
import ScriptDoc.Proofs.Text.Lines

/-! Member paths by segments. A path is read off the text of its name, and a step through a
prototype takes the dot behind it along. Seen from the segments between the dots, the word
`prototype` goes unless the segment before it went, since then its own dot is gone. -/
namespace ScriptDoc.MemberPath

variable {c : CodePoint} {cs name piece segment after tail : Text} {others : List Text}
variable {found : Bool × Text}

/-- The segments that stay, of those behind one that went or stayed. The word `prototype` goes
unless the segment before it went. -/
def stayingAfter (gone : Bool) : List Text → List Text
  | [] => []
  | segment :: others =>
    if segment = "prototype" ∧ gone = false then stayingAfter true others
    else segment :: stayingAfter false others

/-- The segments of a name that stay in its path. The first one does, whatever it is. -/
def staying : List Text → List Text
  | [] => []
  | first :: others => first :: stayingAfter false others

/-- The second text is the line feed at the end of the two, or empty if none is there. A step
through a prototype may end before that line feed. -/
def IsCutAtEnd (body tail : Text) : Prop :=
  tail = [.char '\n'] ∨ tail = [] ∧ body.getLast? ≠ some (.char '\n')

/-- What is cut at the end of a text is cut at the end of its last part. -/
theorem IsCutAtEnd.suffix (before : Text) {body : Text} (h : IsCutAtEnd (before ++ body) tail) :
    IsCutAtEnd body tail := by
  refine h.imp_right (And.imp_right fun hLast hNewline => hLast ?_)
  rw [List.getLast?_append, hNewline, Option.some_or]

/-- There is no dot in what is cut at the end. -/
theorem IsCutAtEnd.dot_not_mem (h : IsCutAtEnd cs tail) : .char '.' ∉ tail := by
  rcases h with rfl | ⟨rfl, -⟩ <;> decide

/-! Steps through a prototype. -/

theorem prototypeStep?_of_ne (h : c ≠ '.') (rest : Text) : prototypeStep? (c :: rest) = none := by
  simp [prototypeStep?, Text.ofString, Text.ofChars, Text.dropStart?, h.symm]

theorem prototypeStep?_dot (after : Text) :
    prototypeStep? (.char '.' :: ("prototype" ++ .char '.' :: after)) = some (true, after) := rfl

/-- The word at the end of a name is a step that leads to no member. -/
theorem prototypeStep?_end (h : IsCutAtEnd cs tail) :
    prototypeStep? (.char '.' :: ("prototype" ++ tail)) = some (false, tail) := by
  rcases h with rfl | ⟨rfl, -⟩ <;> rfl

/-- A step ends at a dot, at the end or before a line feed that ends the text. -/
theorem exists_rest_of_step (h : prototypeStep? (.char '.' :: cs) = some found) :
    ∃ rest, cs = "prototype" ++ rest ∧
      (rest = [] ∨ rest = [.char '\n'] ∨ ∃ after, rest = .char '.' :: after) := by
  have hDrop : ∃ rest, Text.dropStart? ".prototype" (.char '.' :: cs) = some rest ∧
      (rest = [] ∨ rest = [.char '\n'] ∨ ∃ after, rest = .char '.' :: after) := by
    unfold prototypeStep? at h
    split at h
    · cases h
    · next after hDot => exact ⟨_, hDot, .inr (.inr ⟨after, rfl⟩)⟩
    · next hEnd => exact ⟨_, hEnd, .inl rfl⟩
    · next hNewline => exact ⟨_, hNewline, .inr (.inl rfl)⟩
    · cases h
  obtain ⟨rest, hRest, hEnd⟩ := hDrop
  exact ⟨rest, List.tail_eq_of_cons_eq (Text.dropStart?_eq_some_iff.mp hRest), hEnd⟩

theorem takeWhile_dot (h : .char '.' ∉ piece) (rest : Text) :
    (piece ++ .char '.' :: rest).takeWhile (· != .char '.') = piece := by
  have hKept : ∀ c ∈ piece, (c != .char '.') = true := by
    intro c hMem
    exact bne_iff_ne.mpr fun hSame => h (hSame ▸ hMem)
  simp [List.takeWhile_append_of_pos hKept]

/-- Only a segment that is the word can be stepped through. -/
theorem eq_prototype_of_step (hSegment : .char '.' ∉ segment)
    (hCut : IsCutAtEnd (segment ++ others.flatMap (.char '.' :: ·)) tail)
    (h : prototypeStep? (.char '.' :: (segment ++ (others.flatMap (.char '.' :: ·) ++ tail))) =
      some found) : segment = "prototype" := by
  obtain ⟨rest, hText, hEnd⟩ := exists_rest_of_step h
  have hWord : CodePoint.char '.' ∉ Text.ofString "prototype" := by decide
  have hDot : .char '.' ∈ others.flatMap (.char '.' :: ·) ++ tail ↔ .char '.' ∈ rest := by
    simpa [hSegment, hWord] using congrArg (CodePoint.char '.' ∈ ·) hText
  cases others with
  | nil =>
      -- The last segment: only the cut tells a step before a line feed from one to the end.
      simp only [List.flatMap_nil, List.nil_append, List.append_nil] at hText hCut hDot
      have hLast := congrArg List.getLast? hText
      rcases hEnd with rfl | rfl | ⟨after, rfl⟩
      · rcases hCut with rfl | ⟨rfl, -⟩
        · rw [List.append_nil, List.getLast?_concat] at hLast
          cases hLast
        · simpa using hText
      · rcases hCut with rfl | ⟨rfl, hLine⟩
        · exact List.append_cancel_right hText
        · rw [List.append_nil, List.getLast?_concat] at hLast
          exact absurd hLast hLine
      · exact absurd (hDot.mpr List.mem_cons_self) hCut.dot_not_mem
  | cons next others =>
      -- The segment ends at the first dot, and so does the word.
      rcases hEnd with rfl | rfl | ⟨after, rfl⟩
      · simp at hDot
      · simp at hDot
      · have hTaken := congrArg (List.takeWhile (· != .char '.')) hText
        rwa [takeWhile_dot hWord, List.flatMap_cons, List.cons_append, List.cons_append,
          takeWhile_dot hSegment] at hTaken

/-! Paths. -/

/-- A step to a prototype becomes a slash. -/
theorem ofName_of_step (h : prototypeStep? (c :: cs) = some (true, after)) :
    ofName (c :: cs) = .char '/' :: ofName after := by
  rw [ofName]
  split <;> simp_all

/-- A step at the end leaves nothing behind. -/
theorem ofName_of_last_step (h : prototypeStep? (c :: cs) = some (false, after)) :
    ofName (c :: cs) = ofName after := by
  rw [ofName]
  split <;> simp_all

/-- Any other character stays, and a dot becomes a slash. -/
theorem ofName_of_no_step (h : prototypeStep? (c :: cs) = none) :
    ofName (c :: cs) = (if c = '.' then .char '/' else c) :: ofName cs := by
  rw [ofName]
  split <;> simp_all

/-- A piece without dots stays as it is. -/
theorem ofName_append (h : .char '.' ∉ piece) (rest : Text) :
    ofName (piece ++ rest) = piece ++ ofName rest := by
  induction piece with
  | nil => rfl
  | cons c piece ih =>
      obtain ⟨hFirst, hOthers⟩ := not_or.mp (mt List.mem_cons.mpr h)
      rw [List.cons_append, ofName_of_no_step (prototypeStep?_of_ne (Ne.symm hFirst) _),
        if_neg (Ne.symm hFirst), ih hOthers, List.cons_append]

/-- A name without dots is its own path. -/
theorem ofName_of_not_mem (h : .char '.' ∉ name) : ofName name = name := by
  have hAppend := ofName_append h []
  rwa [List.append_nil, ofName, List.append_nil] at hAppend

/-- The path of the segments behind the first one. A step takes the next dot along, so what is left
then begins with a segment and not with a dot; the second half is about that. -/
theorem ofName_segments (hDots : ∀ segment ∈ others, .char '.' ∉ segment)
    (hCut : IsCutAtEnd (others.flatMap (.char '.' :: ·)) tail) :
    ofName (others.flatMap (.char '.' :: ·) ++ tail) =
        (stayingAfter false others).flatMap (.char '/' :: ·) ++ tail ∧
      (others ≠ [] → .char '/' :: ofName (List.intercalate [.char '.'] others ++ tail) =
        (stayingAfter true others).flatMap (.char '/' :: ·) ++ tail) := by
  induction others with
  | nil => exact ⟨ofName_of_not_mem hCut.dot_not_mem, fun hNone => absurd rfl hNone⟩
  | cons segment others ih =>
      obtain ⟨hSegment, hOthers⟩ := List.forall_mem_cons.mp hDots
      rw [List.flatMap_cons] at hCut
      obtain ⟨hStays, hGoes⟩ := ih hOthers (hCut.suffix _)
      have hKept : ofName (segment ++ (others.flatMap (.char '.' :: ·) ++ tail)) =
          segment ++ ((stayingAfter false others).flatMap (.char '/' :: ·) ++ tail) := by
        rw [ofName_append hSegment, hStays]
      rw [List.flatMap_cons, List.cons_append, List.cons_append, List.append_assoc,
        Text.intercalate_cons, List.append_assoc, hKept]
      refine ⟨?_, fun _ => by simp [stayingAfter]⟩
      by_cases hWord : segment = "prototype"
      · subst hWord
        cases others with
        | nil =>
            rw [List.flatMap_nil, List.nil_append,
              ofName_of_last_step (prototypeStep?_end (hCut.suffix _)),
              ofName_of_not_mem hCut.dot_not_mem]
            simp [stayingAfter]
        | cons next others =>
            rw [List.flatMap_cons, List.cons_append, List.cons_append,
              ofName_of_step (prototypeStep?_dot _), ← Text.intercalate_cons,
              hGoes (List.cons_ne_nil _ _)]
            simp [stayingAfter]
      · have hNone : prototypeStep? (.char '.' :: (segment ++ (others.flatMap (.char '.' :: ·) ++
            tail))) = none := by
          by_contra hStep
          obtain ⟨found, hFound⟩ := Option.ne_none_iff_exists'.mp hStep
          exact hWord (eq_prototype_of_step hSegment (hCut.suffix [.char '.']) hFound)
        rw [ofName_of_no_step hNone, if_pos rfl, hKept]
        simp [stayingAfter, hWord]

/-- The path of any text: a line feed at its very end stays there, and what is before it goes by its
segments. -/
theorem ofName_append_end (h : IsCutAtEnd name tail) :
    ofName (name ++ tail) = List.intercalate [.char '/'] (staying (name.splitOn (.char '.'))) ++ tail := by
  obtain ⟨first, others, hPieces⟩ :=
    List.exists_cons_of_ne_nil (List.splitOn_ne_nil (.char '.') name)
  have hDots : ∀ segment ∈ first :: others, .char '.' ∉ segment := by
    intro segment hMem
    exact Text.not_mem_of_mem_splitOn (hPieces ▸ hMem)
  obtain ⟨hFirst, hOthers⟩ := List.forall_mem_cons.mp hDots
  have hName : name = first ++ others.flatMap (.char '.' :: ·) := by
    rw [← Text.intercalate_cons, ← hPieces, List.intercalate_splitOn]
  rw [hName] at h
  rw [hPieces, staying, Text.intercalate_cons, hName, List.append_assoc, ofName_append hFirst,
    (ofName_segments hOthers (h.suffix _)).1, List.append_assoc]

/-- A member path has slashes in place of all dots. -/
theorem dot_not_mem_ofName (name : Text) : .char '.' ∉ ofName name := by
  fun_induction ofName name with
  | case1 => exact List.not_mem_nil
  | case2 c rest after hStep ih => simp [ih]
  | case3 c rest after hStep ih => exact ih
  | case4 c rest hStep ih =>
      split
      · simp [ih]
      · next hOther => simp [ih, Ne.symm hOther]

/-- The path of a name that does not end in a line feed is made of its segments, less those that are
the word `prototype` behind a segment that stayed. No path has a dot, and a path is its own path. -/
theorem ofName_by_segments (name : Text) :
    (name.getLast? ≠ some (.char '\n') →
      ofName name = List.intercalate [.char '/'] (staying (name.splitOn (.char '.')))) ∧
    .char '.' ∉ ofName name ∧ ofName (ofName name) = ofName name := by
  refine ⟨fun hLast => ?_, dot_not_mem_ofName name, ofName_of_not_mem (dot_not_mem_ofName name)⟩
  have hPath : ofName (name ++ []) = _ := ofName_append_end (.inr ⟨rfl, hLast⟩)
  rwa [List.append_nil, List.append_nil] at hPath

/-- A name with several steps in a row, one at its end, and the word in front. -/
def boxName : Text :=
  "prototype.Box.prototype.prototype.prototype..size\n.prototype"

theorem ofName_by_segments_box :
    boxName.getLast? ≠ some (.char '\n') ∧ ofName boxName = "prototype/Box/prototype//size\n" := by
  have hLast : boxName.getLast? ≠ some (.char '\n') := by decide +kernel
  refine ⟨hLast, ((ofName_by_segments boxName).1 hLast).trans ?_⟩
  decide +kernel

end ScriptDoc.MemberPath
