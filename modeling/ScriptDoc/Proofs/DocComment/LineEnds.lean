import Mathlib.Data.List.Forall2
import ScriptDoc.DocComment
import ScriptDoc.Proofs.Text.Lines

/-! Carriage returns before line feeds say nothing in a doc comment. Taking off the frame of a
comment works on both ends of the text, so the marks of line ends are handled in both orders; what
is left of them is one carriage return at the end of a line, and white space at the end of a line
goes. -/
namespace ScriptDoc

namespace Text

/-- A text with other code points in place of its line feeds. -/
def withLineEnds (ends t : Text) : Text :=
  t.flatMap fun c => if c = .char '\n' then ends else [c]

/-- A text with a carriage return before every line feed. -/
def withReturns (t : Text) : Text :=
  withLineEnds ['\r', '\n'] t

section LineEnds

variable {ends : Text} (c : CodePoint) (s t : Text)

@[simp] theorem withLineEnds_nil : withLineEnds ends [] = [] := rfl

@[simp] theorem withLineEnds_newline :
    withLineEnds ends (.char '\n' :: t) = ends ++ withLineEnds ends t := by
  simp [withLineEnds]

/-- Line ends are replaced part by part. -/
@[simp] theorem withLineEnds_append :
    withLineEnds ends (s ++ t) = withLineEnds ends s ++ withLineEnds ends t := by
  simp [withLineEnds]

variable {c}

/-- Other characters stay. -/
theorem withLineEnds_cons_of_ne (h : c ≠ '\n') :
    withLineEnds ends (c :: t) = c :: withLineEnds ends t := by
  simp [withLineEnds, h]

/-- Read backwards, line ends are replaced by the reversed ones. -/
theorem reverse_withLineEnds :
    (withLineEnds ends t).reverse = withLineEnds ends.reverse t.reverse := by
  induction t with
  | nil => rfl
  | cons c t ih =>
      by_cases hLine : c = '\n'
      · simp [hLine, ih]
      · rw [withLineEnds_cons_of_ne t hLine, List.reverse_cons, List.reverse_cons, ih,
          withLineEnds_append, withLineEnds_cons_of_ne [] hLine]
        rfl

/-- A beginning is dropped as before if the marks of line ends are like line feeds to it. -/
theorem dropWhile_withLineEnds {p : CodePoint → Bool} (hEnds : ∀ d ∈ ends, p d = p '\n')
    (hFilled : ends ≠ []) :
    (withLineEnds ends t).dropWhile p = withLineEnds ends (t.dropWhile p) := by
  induction t with
  | nil => rfl
  | cons c t ih =>
      by_cases hLine : c = '\n'
      · subst hLine
        cases hGoes : p '\n' with
        | true =>
            rw [withLineEnds_newline, List.dropWhile_append_of_pos fun d hMem =>
              (hEnds d hMem).trans hGoes, ih]
            simp [hGoes]
        | false =>
            obtain ⟨d, rest, rfl⟩ := List.exists_cons_of_ne_nil hFilled
            have hStop : p d = false := (hEnds d List.mem_cons_self).trans hGoes
            simp [hGoes, hStop]
      · rw [withLineEnds_cons_of_ne t hLine]
        cases hGoes : p c with
        | true => simp [hGoes, ih]
        | false => simp [hGoes, withLineEnds_cons_of_ne t hLine]

/-- A beginning without line ends is found as before. -/
theorem dropStart?_withLineEnds {start : Text} (hEnds : ∀ d ∈ ends, d ∉ start) (hFilled : ends ≠ [])
    (hStart : .char '\n' ∉ start) :
    dropStart? start (withLineEnds ends t) = (dropStart? start t).map (withLineEnds ends) := by
  induction start generalizing t with
  | nil => rfl
  | cons d start ih =>
      simp only [List.mem_cons, not_or] at hEnds hStart
      have hOthers := fun t => ih t (fun e hMem => (hEnds e hMem).2) hStart.2
      cases t with
      | nil => rfl
      | cons c t =>
          by_cases hLine : c = '\n'
          · subst hLine
            obtain ⟨e, rest, rfl⟩ := List.exists_cons_of_ne_nil hFilled
            have hOther : d ≠ e := fun hSame => (hEnds e List.mem_cons_self).1 hSame.symm
            simp [dropStart?, hOther, Ne.symm hStart.1]
          · rw [withLineEnds_cons_of_ne t hLine, dropStart?, dropStart?, hOthers]
            split <;> rfl

end LineEnds

/-- A carriage return is white space, so it is trimmed with its line feed. -/
theorem trim_withReturns (t : Text) : trim (withReturns t) = withReturns (trim t) := by
  have hLeft : (withReturns t).dropWhile isSpace = withReturns (t.dropWhile isSpace) :=
    dropWhile_withLineEnds t (by decide) (by decide)
  have hRight : ∀ s : Text, dropRightWhile isSpace (withReturns s) =
      withReturns (dropRightWhile isSpace s) := by
    intro s
    rw [dropRightWhile, withReturns, reverse_withLineEnds,
      dropWhile_withLineEnds s.reverse (by decide) (by decide), reverse_withLineEnds]
    rfl
  rw [trim, trimWhile, hLeft, hRight]
  rfl

/-- Every line stays the same or gets a carriage return at its end. -/
theorem linesOf_withReturns (t : Text) :
    List.Forall₂ (fun line other : Text => line = other ∨ line = other ++ [.char '\r'])
      (linesOf (withReturns t)) (linesOf t) := by
  induction t with
  | nil => exact .cons (.inl rfl) .nil
  | cons c t ih =>
      by_cases hLine : c = '\n'
      · subst hLine
        exact .cons (.inr rfl) ih
      · have hReturns : withReturns (c :: t) = c :: withReturns t := withLineEnds_cons_of_ne t hLine
        rw [hReturns, linesOf_cons_of_ne hLine, linesOf_cons_of_ne hLine]
        revert ih
        generalize linesOf (withReturns t) = lines
        generalize linesOf t = others
        intro ih
        cases ih with
        | nil => exact .nil
        | cons hFirst hOthers =>
            refine .cons ?_ hOthers
            rcases hFirst with rfl | rfl
            · exact .inl rfl
            · exact .inr rfl

theorem trimRight_append_return (t : Text) : trimRight (t ++ [.char '\r']) = trimRight t := by
  simp [trimRight, dropRightWhile, show isSpace '\r' = true from by decide]

end Text

namespace DocComment

open Text (withReturns withLineEnds)

theorem dropOpening_eq (t : Text) :
    dropOpening t =
      ((Text.dropStart? "/**" t).map (List.dropWhile (· == .char '*'))).getD t := by
  cases hStart : Text.dropStart? "/**" t with
  | some rest =>
      rw [Text.dropStart?_eq_some_iff.mp hStart]
      rfl
  | none =>
      unfold dropOpening
      split
      · cases hStart
      · rfl

theorem dropClosing_eq (t : Text) :
    dropClosing t =
      ((Text.dropStart? "/*" t.reverse).map fun rest =>
        (rest.dropWhile (· == .char '*')).reverse).getD t := by
  unfold dropClosing
  cases hStart : Text.dropStart? "/*" t.reverse with
  | some rest =>
      rw [Text.dropStart?_eq_some_iff.mp hStart]
      rfl
  | none =>
      split
      · next hEnd =>
          rw [hEnd] at hStart
          cases hStart
      · rfl

/-- The opening of a comment has no line ends in it. -/
theorem dropOpening_withReturns (t : Text) :
    dropOpening (withReturns t) = withReturns (dropOpening t) := by
  have hStars : ∀ s : Text, (withReturns s).dropWhile (· == .char '*') =
      withReturns (s.dropWhile (· == .char '*')) :=
    fun s => Text.dropWhile_withLineEnds s (by decide) (by decide)
  rw [dropOpening_eq, dropOpening_eq, withReturns,
    Text.dropStart?_withLineEnds t (by decide) (by decide) (by decide)]
  cases Text.dropStart? "/**" t with
  | none => rfl
  | some rest => exact hStars rest

/-- The closing of a comment has no line ends in it. -/
theorem dropClosing_withReturns (t : Text) :
    dropClosing (withReturns t) = withReturns (dropClosing t) := by
  rw [dropClosing_eq, dropClosing_eq, withReturns, Text.reverse_withLineEnds,
    Text.dropStart?_withLineEnds t.reverse (by decide) (by decide) (by decide)]
  cases Text.dropStart? "/*" t.reverse with
  | none => rfl
  | some rest =>
      simp only [Option.map_some, Option.getD_some]
      rw [Text.dropWhile_withLineEnds rest (by decide) (by decide), Text.reverse_withLineEnds]
      rfl

/-- A carriage return at the end of a line goes, whether the line begins with a star or not. -/
theorem trimRight_dropStar_append_return (line : Text) :
    Text.trimRight (dropStar (line ++ [.char '\r'])) = Text.trimRight (dropStar line) := by
  have hSpace : Text.isSpace '\r' = true := by decide
  have hReturn := Text.trimRight_append_return
  unfold dropStar
  rw [List.dropWhile_append]
  match line.dropWhile Text.isSpace with
  | [] => simp [hSpace, hReturn]
  | [c] =>
      by_cases hStar : c = '*'
      · simp [hStar, hSpace]
      · simp [hStar, hReturn]
  | c :: d :: rest =>
      by_cases hStar : c = '*'
      · by_cases hSlash : d = '/'
        · simp [hStar, hSlash, hReturn]
        · by_cases hBlank : Text.isSpace d = true
          · simp [hStar, hBlank, hReturn]
          · simp only [hStar, hBlank, List.isEmpty_cons, Bool.false_eq_true, ↓reduceIte,
              List.cons_append]
            exact hReturn (d :: rest)
      · simp [hStar, hReturn]

/-- Carriage returns stand at the ends of lines, where white space is dropped. -/
theorem unwrap_withReturns (comment : Text) : unwrap (withReturns comment) = unwrap comment := by
  unfold unwrap
  rw [Text.trim_withReturns, dropOpening_withReturns, dropClosing_withReturns]
  have hLines := Text.linesOf_withReturns (dropClosing (dropOpening (Text.trim comment)))
  revert hLines
  generalize Text.linesOf (withReturns _) = lines
  generalize Text.linesOf _ = others
  intro hLines
  induction hLines with
  | nil => rfl
  | cons hLine _ ih =>
      rw [List.map_cons, List.map_cons, ih]
      rcases hLine with rfl | rfl
      · rfl
      · rw [trimRight_dropStar_append_return]

/-- A comment says the same with a carriage return before every line feed. -/
theorem parse_withReturns (comment : Text) : parse (withReturns comment) = parse comment := by
  unfold parse
  rw [unwrap_withReturns]

end DocComment
end ScriptDoc
