import Mathlib.Data.List.DropRight
import ScriptDoc.Text.Characters

/-! Texts in pieces. What a text is cut at stands in none of the pieces. Trimming is an operation of
lists, and white space at either end makes no difference to it. -/
namespace ScriptDoc.Text

/-- Pieces behind the first one each bring a separator. -/
theorem intercalate_cons (sep : CodePoint) (first : Text) (others : List Text) :
    [sep].intercalate (first :: others) = first ++ others.flatMap (sep :: ·) := by
  induction others generalizing first with
  | nil => simp
  | cons second others ih =>
      rw [List.intercalate_cons_of_ne_nil (List.cons_ne_nil _ _), ih second, List.flatMap_cons,
        List.append_assoc]
      rfl

/-- Pieces have no separator in them. -/
theorem not_mem_of_mem_splitOn {sep : CodePoint} {piece t : Text} (h : piece ∈ t.splitOn sep) :
    sep ∉ piece := by
  induction t generalizing piece with
  | nil =>
      obtain rfl : piece = [] := by simpa using h
      exact List.not_mem_nil
  | cons c t ih =>
      obtain ⟨first, others, hPieces⟩ := List.exists_cons_of_ne_nil (List.splitOn_ne_nil sep t)
      rw [List.splitOn_cons_eq_if_modifyHead, hPieces] at h
      rw [hPieces] at ih
      split at h
      · rcases List.mem_cons.mp h with rfl | hOld
        · exact List.not_mem_nil
        · exact ih hOld
      · next hSep =>
          rcases List.mem_cons.mp h with rfl | hOld
          · rw [List.mem_cons, not_or]
            exact ⟨fun hSame => hSep (by simp [← hSame]), ih List.mem_cons_self⟩
          · exact ih (List.mem_cons_of_mem _ hOld)

/-- A character that is no line feed comes to the first line. -/
theorem linesOf_cons_of_ne {c : CodePoint} (h : c ≠ .char '\n') (t : Text) :
    linesOf (c :: t) = (linesOf t).modifyHead (c :: ·) := by
  rw [linesOf, List.splitOn_cons_eq_if_modifyHead, if_neg (by simpa using h)]
  rfl

/-- Lines that are put together are found again. -/
theorem linesOf_intercalate {lines : List Text} (hFilled : lines ≠ [])
    (h : ∀ line ∈ lines, .char '\n' ∉ line) : linesOf ([.char '\n'].intercalate lines) = lines :=
  List.splitOn_intercalate _ h hFilled

/-- The lines of a text make up the text. -/
theorem intercalate_linesOf (t : Text) : [.char '\n'].intercalate (linesOf t) = t :=
  List.intercalate_splitOn _

theorem linesOf_ne_nil (t : Text) : linesOf t ≠ [] :=
  List.splitOn_ne_nil _ t

theorem not_mem_of_mem_linesOf {line t : Text} (h : line ∈ linesOf t) : .char '\n' ∉ line :=
  not_mem_of_mem_splitOn h

/-- A beginning is dropped exactly if the text begins so. -/
theorem dropStart?_eq_some_iff {start t rest : Text} :
    dropStart? start t = some rest ↔ t = start ++ rest := by
  fun_induction dropStart? start t with
  | case1 t => simp
  | case2 => simp
  | case3 start c t ih => simpa using ih
  | case4 c start d t hOther => simp [Ne.symm hOther]

/-! White space. -/

section Trim

variable {t after : Text}

theorem trimRight_eq (t : Text) : trimRight t = t.rdropWhile isSpace := rfl

theorem trim_eq (t : Text) : trim t = (t.dropWhile isSpace).rdropWhile isSpace := rfl

theorem trimRight_eq_self (hLast : ∀ c ∈ t.getLast?, isSpace c = false) : trimRight t = t := by
  rw [trimRight_eq, List.rdropWhile_eq_self_iff]
  intro hFilled
  exact Bool.eq_false_iff.mp (hLast _ (List.getLast?_eq_some_getLast hFilled))

theorem trim_eq_self (hFirst : ∀ c ∈ t.head?, isSpace c = false)
    (hLast : ∀ c ∈ t.getLast?, isSpace c = false) : trim t = t := by
  have hDrop : t.dropWhile isSpace = t := by
    cases t with
    | nil => rfl
    | cons c t => exact List.dropWhile_cons_of_neg (Bool.eq_false_iff.mp (hFirst c rfl))
  rw [trim_eq, hDrop]
  exact trimRight_eq_self hLast

theorem trim_cons_space {c : CodePoint} (h : isSpace c = true) (t : Text) :
    trim (c :: t) = trim t := by
  rw [trim_eq, List.dropWhile_cons_of_pos h, trim_eq]

theorem rdropWhile_append_spaces (t : Text) (h : ∀ c ∈ after, isSpace c = true) :
    (t ++ after).rdropWhile isSpace = t.rdropWhile isSpace := by
  have hReverse : ∀ c ∈ after.reverse, isSpace c = true :=
    fun c hMem => h c (List.mem_reverse.mp hMem)
  rw [List.rdropWhile, List.reverse_append, List.dropWhile_append_of_pos hReverse]
  rfl

/-- White space at the end makes no difference. -/
theorem trim_append_spaces (t : Text) (h : ∀ c ∈ after, isSpace c = true) :
    trim (t ++ after) = trim t := by
  rw [trim_eq, trim_eq, List.dropWhile_append]
  split
  · next hBlank =>
      rw [List.dropWhile_eq_nil_iff.mpr h, List.isEmpty_iff.mp hBlank]
  · exact rdropWhile_append_spaces _ h

theorem trim_trimRight (t : Text) : trim (trimRight t) = trim t := by
  have hSpaces : ∀ c ∈ t.rtakeWhile isSpace, isSpace c = true := fun _ => List.mem_rtakeWhile_imp
  rw [trimRight_eq, ← trim_append_spaces _ hSpaces, List.rdropWhile_append_rtakeWhile]

theorem trim_prefix (t : Text) : trim t <+: t.dropWhile isSpace :=
  List.rdropWhile_prefix isSpace _

/-- What is left after trimming is a part of the text. -/
theorem trim_isInfix (t : Text) : trim t <:+: t := by
  have hStart := trim_prefix t
  exact hStart.isInfix.trans (List.dropWhile_suffix isSpace).isInfix

end Trim

theorem exists_range_of_inRanges {n : Nat} {ranges : List (Nat × Nat)}
    (h : inRanges n ranges = true) : ∃ range ∈ ranges, range.1 ≤ n ∧ n ≤ range.2 := by
  induction ranges with
  | nil => cases h
  | cons range ranges ih =>
      simp only [inRanges, Bool.and_eq_true, Bool.or_eq_true, decide_eq_true_eq] at h
      obtain ⟨hLow, hHigh | hLater⟩ := h
      · exact ⟨range, List.mem_cons_self, hLow, hHigh⟩
      · obtain ⟨other, hMem, hIn⟩ := ih hLater
        exact ⟨other, List.mem_cons_of_mem _ hMem, hIn⟩

/-- What holds of the code points of every range of white space holds of all white space. -/
theorem forall_isSpace {P : CodePoint → Prop}
    (hAll : ∀ range ∈ spaceRanges, ∀ n ∈ List.range' range.1 (range.2 + 1 - range.1),
      P (CodePoint.ofNat n)) {c : CodePoint} (h : isSpace c = true) : P c := by
  obtain ⟨range, hMem, hLow, hHigh⟩ := exists_range_of_inRanges h
  rw [← CodePoint.ofNat_value c]
  exact hAll range hMem c.value (List.mem_range'_1.mpr ⟨hLow, by omega⟩)

/-- No word has white space in it. -/
theorem not_isSpace_of_isWord {c : CodePoint} (h : isWord c = true) : isSpace c = false := by
  by_contra hSpace
  have hNone : isWord c = false :=
    forall_isSpace (P := fun c => isWord c = false) (by decide +kernel) (eq_true_of_ne_false hSpace)
  rw [h] at hNone
  cases hNone

end ScriptDoc.Text
