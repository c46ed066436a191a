import Mathlib.Data.List.TakeWhile
import ScriptDoc.DocComment

/-! Values of tags. Every value that a comment gives to a tag has been trimmed, so it is empty or has
a first word. -/
namespace ScriptDoc

/-- Only a blank text has no first word. -/
theorem Text.firstWord?_eq_none_iff {t : Text} :
    firstWord? t = none ↔ ∀ c ∈ t, isSpace c = true := by
  unfold firstWord?
  split
  · next hRest => simpa [List.dropWhile_eq_nil_iff] using hRest
  · next hRest => simpa [List.dropWhile_eq_nil_iff] using hRest

/-- A trimmed text does not end with white space, so it is not made of it. -/
theorem Text.firstWord?_trim (t : Text) : firstWord? (trim t) = none ↔ trim t = [] := by
  rw [firstWord?_eq_none_iff]
  constructor
  · intro hSpace
    unfold trim trimWhile dropRightWhile at hSpace ⊢
    cases hRest : (t.dropWhile isSpace).reverse.dropWhile isSpace with
    | nil => rfl
    | cons c rest =>
        have hLast : isSpace c = false := by
          have hNot := List.head_dropWhile_not isSpace (l := (t.dropWhile isSpace).reverse)
          simpa [hRest] using hNot
        have hIn := hSpace c (by simp [hRest])
        rw [hLast] at hIn
        cases hIn
  · intro hNil
    simp [hNil]

namespace TagSet

/-- Adding a value brings no other value. -/
theorem mem_values_addTo {name value v : Text} {groups : List (Text × List Text)}
    (h : v ∈ (addTo name value groups).flatMap Prod.snd) :
    v = value ∨ v ∈ groups.flatMap Prod.snd := by
  fun_induction addTo name value groups <;> grind

theorem mem_values_of_mem_get {tags : TagSet} {name v : Text} (h : v ∈ tags.get name) :
    v ∈ tags.groups.flatMap Prod.snd := by
  unfold get at h
  cases hGroup : tags.groups.lookup name with
  | none => simp [hGroup] at h
  | some values =>
      obtain ⟨before, after, hSplit, _⟩ := List.lookup_eq_some_iff.mp hGroup
      rw [hGroup] at h
      rw [hSplit]
      simp [show v ∈ values from h]

end TagSet

namespace DocComment

/-- All that a comment says: its description and the values of its tags. -/
def texts (doc : DocComment) : List Text :=
  doc.description :: doc.tags.groups.flatMap Prod.snd

variable {P : Text → Prop}

/-- What holds of the lines of a tag and of all texts before holds of all texts afterwards. -/
theorem addTag_texts {doc : DocComment} {tag : Text × List Text} (hTag : P (textOf tag.2))
    (h : ∀ text ∈ doc.texts, P text) : ∀ text ∈ (doc.addTag tag).texts, P text := by
  obtain ⟨hDescription, hValues⟩ := List.forall_mem_cons.mp h
  unfold addTag
  dsimp only
  split
  · exact List.forall_mem_cons.mpr ⟨hTag, hValues⟩
  · refine List.forall_mem_cons.mpr ⟨hDescription, ?_⟩
    intro value hMem
    rcases TagSet.mem_values_addTo hMem with rfl | hOld
    · exact hTag
    · exact hValues value hOld

/-- What holds of the description and of each tag as they stand in a comment holds of all that it
says. -/
theorem parse_texts {comment : Text} (hLead : P (textOf (sections (unwrap comment)).lead))
    (hTags : ∀ tag ∈ (sections (unwrap comment)).tags, P (textOf tag.2)) :
    ∀ text ∈ (parse comment).texts, P text := by
  have hRun : ∀ (tags : List (Text × List Text)) (doc : DocComment),
      (∀ tag ∈ tags, P (textOf tag.2)) → (∀ text ∈ doc.texts, P text) →
        ∀ text ∈ (tags.foldl addTag doc).texts, P text := by
    intro tags
    induction tags with
    | nil => exact fun doc _ hDoc => hDoc
    | cons tag rest ih =>
        intro doc hAll hDoc
        obtain ⟨hTag, hRest⟩ := List.forall_mem_cons.mp hAll
        exact ih _ hRest (addTag_texts hTag hDoc)
  refine hRun _ _ hTags ?_
  simpa [texts, TagSet.empty] using hLead

/-- A value of a tag has a first word unless it is empty. -/
theorem firstWord?_of_mem_parse {comment name value : Text}
    (h : value ∈ (parse comment).tags.get name) :
    Text.firstWord? value = none ↔ value = [] := by
  have hMem : value ∈ (parse comment).texts :=
    List.mem_cons_of_mem _ (TagSet.mem_values_of_mem_get h)
  exact parse_texts (P := fun text => Text.firstWord? text = none ↔ text = [])
    (Text.firstWord?_trim _) (fun _ _ => Text.firstWord?_trim _) value hMem

end DocComment
end ScriptDoc
