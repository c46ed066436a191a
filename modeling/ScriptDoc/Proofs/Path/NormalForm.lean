import ScriptDoc.Path
import ScriptDoc.Proofs.Text.Lines

/-! Paths in normal form. The parts of a path are neither empty nor a dot and have no slash in them,
so a path that is written out is read as the same path again; a path that is lengthened by names of
this kind is in normal form as well. -/
namespace ScriptDoc.Path

variable {p : Path} {part name : Text} {place : List Text}

/-- A text that can stand between two slashes and means an entry or a step to the parent. -/
structure IsPart (part : Text) : Prop where
  filled : part ≠ []
  notDot : part ≠ "."
  noSlash : .char '/' ∉ part

instance : DecidablePred IsPart := fun part =>
  decidable_of_iff (part ≠ [] ∧ part ≠ "." ∧ .char '/' ∉ part)
    ⟨fun ⟨filled, notDot, noSlash⟩ => ⟨filled, notDot, noSlash⟩,
      fun h => ⟨h.filled, h.notDot, h.noSlash⟩⟩

/-- The path of something below a directory, by the names that lead to it from there. -/
def below (p : Path) (place : List Text) : Path :=
  { p with parts := p.parts ++ place }

@[simp] theorem below_nil (p : Path) : p.below [] = p := by
  rw [below, List.append_nil]

theorem below_cons (p : Path) (name : Text) (place : List Text) :
    p.below (name :: place) = (p.child name).below place := by
  rw [below, below, child, List.append_assoc]
  rfl

theorem name_below_concat (p : Path) (place : List Text) (name : Text) :
    (p.below (place ++ [name])).name = name := by
  simp [Path.name, below]

/-- The suffix of a path is that of its last name. -/
theorem suffix_below_concat (p : Path) (place : List Text) (name : Text) :
    (p.below (place ++ [name])).suffix = (splitSuffix name).2 := by
  rw [suffix, name_below_concat]

/-- A name is its stem and its suffix. -/
theorem splitSuffix_append (name : Text) : (splitSuffix name).1 ++ (splitSuffix name).2 = name := by
  rw [splitSuffix]
  split
  · next before hBefore =>
      split
      · exact List.append_nil name
      · have hWhole := List.takeWhile_append_dropWhile (p := (· != .char '.')) (l := name.reverse)
        rw [hBefore] at hWhole
        have hName := congrArg List.reverse hWhole
        simpa using hName
  · exact List.append_nil name

/-- All parts of a path can stand between slashes. -/
def IsNormal (p : Path) : Prop :=
  ∀ part ∈ p.parts, IsPart part

/-- What is made from a text is in normal form. -/
theorem isNormal_ofText (t : Text) : (ofText t).IsNormal := by
  intro part hMem
  obtain ⟨hPiece, hKept⟩ := List.mem_filter.mp hMem
  simp only [Bool.and_eq_true, Bool.not_eq_true', List.isEmpty_eq_false_iff, bne_iff_ne] at hKept
  exact ⟨hKept.1, hKept.2, Text.not_mem_of_mem_splitOn hPiece⟩

/-- There is no slash in the stem. -/
theorem IsNormal.not_mem_stem (h : p.IsNormal) : .char '/' ∉ p.stem := by
  have hName : .char '/' ∉ p.name := by
    rw [Path.name]
    cases hLast : p.parts.getLast? with
    | none => exact List.not_mem_nil
    | some part => exact (h part (List.mem_of_getLast? hLast)).noSlash
  rw [← splitSuffix_append p.name] at hName
  exact fun hMem => hName (List.mem_append_left _ hMem)

/-- Proper names keep a path in normal form. -/
theorem IsNormal.below (h : p.IsNormal) (hPlace : ∀ name ∈ place, IsPart name) :
    (p.below place).IsNormal :=
  List.forall_mem_append.mpr ⟨h, hPlace⟩

theorem IsPart.head?_ne (h : IsPart part) (rest : Text) : (part ++ rest).head? ≠ some (.char '/') := by
  obtain ⟨c, others, rfl⟩ := List.exists_cons_of_ne_nil h.filled
  rintro ⟨⟩
  exact h.noSlash List.mem_cons_self

/-- A text that begins with no slash leaves the beginning of a path as it is. -/
theorem anchorOf_append {rest : Text} (h : rest.head? ≠ some (.char '/')) (anchor : Anchor) :
    anchorOf (anchor.text ++ rest) = anchor := by
  cases rest with
  | nil => cases anchor <;> rfl
  | cons c rest =>
      have hSlash : c ≠ '/' := fun hSame => h (congrArg some hSame)
      cases anchor <;> simp [Anchor.text, anchorOf, hSlash]

/-- The slashes at the beginning of a path are no parts of it. -/
theorem filter_splitOn_append (anchor : Anchor) (rest : Text) :
    ((anchor.text ++ rest).splitOn (.char '/')).filter
        (fun part : Text => !part.isEmpty && part != ".") =
      (rest.splitOn (.char '/')).filter fun part : Text => !part.isEmpty && part != "." := by
  cases anchor <;> rfl

/-- The parts of a path in normal form come back from its text. -/
theorem IsNormal.filter_splitOn (h : p.IsNormal) :
    ((List.intercalate [.char '/'] p.parts).splitOn (.char '/')).filter
        (fun part : Text => !part.isEmpty && part != ".") = p.parts := by
  cases hParts : p.parts with
  | nil => rfl
  | cons part parts =>
      rw [← hParts, List.splitOn_intercalate _ (fun part hMem => (h part hMem).noSlash)
        (by rw [hParts]; exact List.cons_ne_nil _ _)]
      apply List.filter_eq_self.mpr
      intro part hMem
      simp [(h part hMem).filled, (h part hMem).notDot]

/-- A path in normal form that is written out is read as the same path. -/
theorem IsNormal.ofText_toText (h : p.IsNormal) : ofText p.toText = p := by
  rw [toText]
  split
  · next hHere =>
      obtain ⟨anchor, parts⟩ := p
      obtain ⟨rfl, rfl⟩ := hHere
      rfl
  · have hHead : (List.intercalate [.char '/'] p.parts).head? ≠ some (.char '/') := by
      cases hParts : p.parts with
      | nil => rintro ⟨⟩
      | cons part parts =>
          rw [Text.intercalate_cons]
          exact (h part (hParts ▸ List.mem_cons_self)).head?_ne _
    rw [ofText, anchorOf_append hHead, filter_splitOn_append, h.filter_splitOn]

end ScriptDoc.Path
