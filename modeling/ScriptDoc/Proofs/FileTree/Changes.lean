import ScriptDoc.Proofs.FileTree.Places

/-! Making directories and writing files. Directories are made at the places along a path where
nothing stands, and a file is written at the place of its path; everything else stays as it is. -/
namespace ScriptDoc.FileTree

variable {t later : FileTree} {node : Node} {place other : Place} {part : Text} {parts : List Text}

/-- Nothing but the place itself changes when something with nothing below it is put where no directory
stands. -/
theorem standing_put_leaf (hParent : t.IsDirectory place.dropLast) (hPlace : place ≠ [])
    (hNot : ¬ t.IsDirectory place) (hLeaf : ∀ name rest, node.below? (name :: rest) = none)
    (hOther : other ≠ place) : (t.put place node).standing other = t.standing other := by
  by_cases hBelow : place <+: other
  · obtain ⟨suffix, rfl⟩ := hBelow
    cases suffix with
    | nil => exact absurd (List.append_nil place) hOther
    | cons name rest =>
        have hPut : nodeIn? (t.put place node).root place = some node := node?_put hPlace node
        rw [standing_append_of_not_isDirectory hNot, standing, node?, nodeIn?_append, hPut,
          Option.bind_some, hLeaf]
        rfl
  · exact standing_put hParent hBelow node

/-- Whatever there is stands in a directory. -/
theorem isDirectory_dropLast (h : t.standing place ≠ none) : t.IsDirectory place.dropLast := by
  rcases place.eq_nil_or_concat with rfl | ⟨front, name, rfl⟩
  · rfl
  · rw [List.concat_eq_append] at h ⊢
    rw [List.dropLast_concat]
    exact isDirectory_of_append h

theorem IsDirectory.standing_ne_none (h : t.IsDirectory place) : t.standing place ≠ none := by
  rw [h]
  exact Option.some_ne_none _

/-- The root is always there. -/
theorem ne_nil_of_node? (h : t.node? place = none) : place ≠ [] := by
  rintro rfl
  cases h

/-! Making directories. -/

/-- All that has changed is that directories were made, at places along the parts where nothing
stood. -/
structure Makes (place : Place) (parts : List Text) (t later : FileTree) : Prop where
  working : later.working = t.working
  standing : ∀ other, later.standing other = t.standing other ∨
    t.standing other = none ∧ later.IsDirectory other ∧
      ∃ front, front <+: parts ∧ other = front.foldl stepFrom place

namespace Makes

theorem refl (place : Place) (parts : List Text) (t : FileTree) : Makes place parts t t :=
  ⟨rfl, fun _ => Or.inl rfl⟩

/-- No directory goes when others are made. -/
theorem keepsDirectories (h : Makes place parts t later) : KeepsDirectories t later where
  working := h.working
  directory := by
    intro other hDirectory
    rcases h.standing other with hSame | ⟨hNone, hMade, _⟩
    · exact hSame.trans hDirectory
    · exact hMade

/-- Files are the same, wherever directories are made. -/
theorem standing_file_iff (h : Makes place parts t later) (content : Content) :
    later.standing other = some (some content) ↔ t.standing other = some (some content) := by
  rcases h.standing other with hSame | ⟨hNone, hMade, _⟩
  · rw [hSame]
  · rw [hNone, hMade]
    simp

/-- Directories are made for the first part, and from there for the others. -/
theorem cons {middle : FileTree} (hFirst : Makes place [part] t middle)
    (hOthers : Makes (stepFrom place part) parts middle later) : Makes place (part :: parts) t later where
  working := hOthers.working.trans hFirst.working
  standing := by
    intro other
    rcases hOthers.standing other with hSame | ⟨hNone, hMade, front, hFront, hPlace⟩
    · rcases hFirst.standing other with hBefore | ⟨hNone, hMade, front, hFront, hPlace⟩
      · exact Or.inl (hSame.trans hBefore)
      · have hLong : front <+: part :: parts := hFront.trans ⟨parts, rfl⟩
        exact Or.inr ⟨hNone, hSame.trans hMade, front, hLong, hPlace⟩
    · rcases hFirst.standing other with hBefore | ⟨_, hMiddle, _⟩
      · exact Or.inr ⟨hBefore ▸ hNone, hMade, part :: front, (List.prefix_cons_inj part).mpr hFront,
          hPlace⟩
      · exact absurd (hNone.symm.trans hMiddle) (by simp)

end Makes

/-- What making directories along parts comes to. If it succeeds, the parts lead to a directory. -/
structure MakesWay (place : Place) (parts : List Text) (t : FileTree)
    (result : FileTree × Except Error Unit) : Prop where
  makes : Makes place parts t result.1
  reaches : result.2 = .ok () → result.1.follow place parts = .ok (parts.foldl stepFrom place) ∧
    result.1.IsDirectory (parts.foldl stepFrom place)

theorem MakesWay.of_error (e : Error) : MakesWay place parts t (t, .error e) :=
  ⟨.refl place parts t, nofun⟩

/-- A way that begins at a directory goes on over its next part. -/
theorem MakesWay.cons {middle : FileTree} {result : FileTree × Except Error Unit}
    (hPlace : t.IsDirectory place) (hLength : ¬ maxNameBytes < byteCount part)
    (hFirst : Makes place [part] t middle) (h : MakesWay (stepFrom place part) parts middle result) :
    MakesWay place (part :: parts) t result := by
  have hMakes := hFirst.cons h.makes
  refine ⟨hMakes, ?_⟩
  intro hOk
  obtain ⟨hFollow, hDirectory⟩ := h.reaches hOk
  obtain ⟨entries, hNode⟩ := isDirectory_iff.mp (hMakes.keepsDirectories.directory place hPlace)
  refine ⟨?_, hDirectory⟩
  rw [follow, hNode]
  simp only [hLength, ↓reduceIte]
  exact hFollow

/-- A directory is put where nothing stands. -/
theorem makes_put (hPlace : t.IsDirectory place) (hNone : t.node? (stepFrom place part) = none) :
    Makes place [part] t (t.put (stepFrom place part) (.directory [])) := by
  have hNext : stepFrom place part = place ++ [keptName part] := by
    rw [stepFrom]
    split
    · next hParent =>
        obtain ⟨entries, hNode⟩ := isDirectory_iff.mp (isDirectory_dropLast hPlace.standing_ne_none)
        rw [stepFrom, if_pos hParent, hNode] at hNone
        cases hNone
    · rfl
  have hNotNil := ne_nil_of_node? hNone
  refine ⟨rfl, ?_⟩
  intro other
  by_cases hOther : other = stepFrom place part
  · subst hOther
    refine Or.inr ⟨by rw [FileTree.standing, hNone]; rfl, ?_, [part], List.prefix_rfl, rfl⟩
    exact isDirectory_iff.mpr ⟨[], node?_put hNotNil _⟩
  · refine Or.inl (standing_put_leaf ?_ hNotNil ?_ ?_ hOther)
    · rw [hNext, List.dropLast_concat]
      exact hPlace
    · intro hDirectory
      obtain ⟨entries, hNode⟩ := isDirectory_iff.mp hDirectory
      rw [hNone] at hNode
      cases hNode
    · intro name rest
      rw [Node.below?_directory, nodeIn?_nil_cons]

/-- The induction follows the parts. Each of them leads on from a directory. -/
theorem makeAlong_makesWay (hPlace : t.IsDirectory place) (made : Bool) (parts : List Text) :
    MakesWay place parts t (t.makeAlong place made parts) := by
  induction parts generalizing t place made with
  | nil => exact ⟨.refl place [] t, fun _ => ⟨rfl, hPlace⟩⟩
  | cons part parts ih =>
      rw [makeAlong]
      split
      · exact .of_error _
      · next hLength =>
          dsimp only
          split
          · next entries hNode =>
              exact .cons hPlace hLength (.refl place [part] t)
                (ih (isDirectory_iff.mpr ⟨entries, hNode⟩) made)
          · exact .of_error _
          · next hNone =>
              split
              · exact .of_error _
              · have hNext : (t.put (stepFrom place part) (.directory [])).IsDirectory
                    (stepFrom place part) :=
                  isDirectory_iff.mpr ⟨[], node?_put (ne_nil_of_node? hNone) _⟩
                exact .cons hPlace hLength (makes_put hPlace hNone) (ih hNext true)

/-- Making directories changes nothing else, also if it fails on the way. -/
theorem makeDirectories_makes (t : FileTree) (p : Path) :
    Makes (t.origin p) p.parts t (t.makeDirectories p).1 := by
  rw [makeDirectories]
  split
  · exact .refl _ _ t
  · exact .refl _ _ t
  · exact .refl _ _ t
  · next entries _ hNode =>
      exact (makeAlong_makesWay (isDirectory_iff.mpr ⟨entries, hNode⟩) false p.parts).makes

/-- A directory that was made is found by its path. -/
theorem locate_of_makeDirectories {p : Path} (h : t.makeDirectories p = (later, .ok ())) :
    unusable? p = none ∧ later.locate p = .ok (t.target p) ∧ later.IsDirectory (t.target p) := by
  rw [makeDirectories] at h
  split at h
  · cases h
  · cases h
  · cases h
  · next entries hUsable hNode =>
      have hWay := makeAlong_makesWay (isDirectory_iff.mpr ⟨entries, hNode⟩) false p.parts
      rw [h] at hWay
      obtain ⟨hFollow, hDirectory⟩ := hWay.reaches rfl
      have hOrigin : later.origin p = t.origin p := by rw [origin, origin, hWay.makes.working]
      refine ⟨hUsable, ?_, hDirectory⟩
      rw [locate, hOrigin]
      exact hFollow

/-! Writing files. -/

/-- What a successful write comes to: a file stands at the place of the path, where no directory stood
before, and nothing else has changed. -/
structure Writes (p : Path) (content : Content) (t later : FileTree) : Prop where
  working : later.working = t.working
  noDirectory : ¬ t.IsDirectory (t.target p)
  written : later.standing (t.target p) = some (some content)
  elsewhere : ∀ other, other ≠ t.target p → later.standing other = t.standing other

/-- A file never takes the place of a directory. -/
theorem Writes.keepsDirectories {p : Path} {content : Content} (h : Writes p content t later) :
    KeepsDirectories t later where
  working := h.working
  directory := by
    intro other hDirectory
    have hOther : other ≠ t.target p := by
      rintro rfl
      exact h.noDirectory hDirectory
    exact (h.elsewhere other hOther).trans hDirectory

theorem writes_put {p : Path} {content : Content} (hParent : t.IsDirectory (t.target p).dropLast)
    (hNot : ¬ t.IsDirectory (t.target p)) : Writes p content t (t.put (t.target p) (.file content)) := by
  have hPlace : t.target p ≠ [] := by
    intro hRoot
    rw [hRoot] at hNot
    exact hNot rfl
  refine ⟨rfl, hNot, ?_, ?_⟩
  · rw [standing, node?_put hPlace]
    rfl
  · intro other hOther
    exact standing_put_leaf hParent hPlace hNot (fun _ _ => rfl) hOther

/-- A file is put where a file stands, or where nothing stands in a directory. -/
theorem putFile_writes {p : Path} {content : Content}
    (h : t.putFile (t.target p) content = .ok later) : Writes p content t later := by
  rw [putFile] at h
  split at h
  · cases h
  · next old hNode =>
      cases h
      have hOld : t.standing (t.target p) = some (some old) := by
        rw [standing, hNode]
        rfl
      refine writes_put (isDirectory_dropLast ?_) ?_
      · rw [hOld]
        exact Option.some_ne_none _
      · intro hDirectory
        cases hOld.symm.trans hDirectory
  · next hNone =>
      split at h
      · next entries hParent =>
          cases h
          refine writes_put (isDirectory_iff.mpr ⟨entries, hParent⟩) ?_
          intro hDirectory
          obtain ⟨inner, hNode⟩ := isDirectory_iff.mp hDirectory
          cases hNone.symm.trans hNode
      · cases h
      · cases h

theorem write_writes {p : Path} {content : Content} (h : t.write p content = .ok later) :
    Writes p content t later := by
  rw [write] at h
  split at h
  · cases h
  · cases hLocate : t.locate p with
    | error e =>
        rw [hLocate] at h
        cases h
    | ok place =>
        rw [hLocate] at h
        obtain rfl := eq_target_of_locate hLocate
        exact putFile_writes h

/-- With a path from the root the file lands at the same place. -/
theorem writeFromRoot_writes {p : Path} {content : Content}
    (h : t.writeFromRoot p content = .ok later) : Writes p content t later := by
  rw [writeFromRoot] at h
  split at h
  · cases h
  · exact putFile_writes h

/-! Renaming. -/

/-- Nothing keeps a file of that name from being written into the directory of a path: the system takes
its name and path, and no directory has that name. -/
structure Admits (t : FileTree) (directory : Path) (name : Text) : Prop where
  usable : unusable? (directory.child name) = none
  short : byteCount name ≤ maxNameBytes
  free : ¬ t.IsDirectory (t.target (directory.child name))

/-- A step that does not lead to a directory is no step to the parent. -/
theorem stepFrom_of_free {name : Text} (hDirectory : t.IsDirectory place)
    (hFree : ¬ t.IsDirectory (stepFrom place name)) : stepFrom place name = place ++ [keptName name] := by
  rw [stepFrom, if_neg]
  intro hParent
  rw [stepFrom, if_pos hParent] at hFree
  exact hFree (isDirectory_dropLast hDirectory.standing_ne_none)

/-- A file can be written into a directory exactly if this takes its name. -/
theorem exists_write_iff {directory : Path} {name : Text} (hLocate : t.locate directory = .ok place)
    (hDirectory : t.IsDirectory place) (content : Content) :
    (∃ later, t.write (directory.child name) content = .ok later) ↔ t.Admits directory name := by
  have hTarget : t.target (directory.child name) = stepFrom place name := by
    rw [target_child, eq_target_of_locate hLocate]
  constructor
  · rintro ⟨later, hWrite⟩
    refine ⟨?_, ?_, (write_writes hWrite).noDirectory⟩
    · rw [write] at hWrite
      split at hWrite
      · cases hWrite
      · next hUsable => exact hUsable
    · refine Nat.le_of_not_lt fun hLong => ?_
      rw [write, locate_child hLocate hDirectory, if_pos hLong] at hWrite
      split at hWrite
      · cases hWrite
      · cases hWrite
  · rintro ⟨hUsable, hShort, hFree⟩
    rw [hTarget] at hFree
    obtain ⟨entries, hEntries⟩ := isDirectory_iff.mp hDirectory
    rw [write, hUsable]
    simp only [locate_child hLocate hDirectory, if_neg (Nat.not_lt.mpr hShort)]
    dsimp only [bind, Except.bind, putFile]
    cases hNode : t.node? (stepFrom place name) with
    | none =>
        have hParent : t.node? (stepFrom place name).dropLast = some (.directory entries) := by
          rw [stepFrom_of_free hDirectory hFree, List.dropLast_concat, hEntries]
        simp only [hParent]
        exact ⟨_, rfl⟩
    | some node =>
        cases node with
        | file old => exact ⟨_, rfl⟩
        | directory inner => exact absurd (isDirectory_iff.mpr ⟨inner, hNode⟩) hFree

/-- A file that is written elsewhere makes no difference. -/
theorem Writes.admits_iff {p directory : Path} {content : Content} {name : Text}
    (h : Writes p content t later) (hOther : t.target (directory.child name) ≠ t.target p) :
    later.Admits directory name ↔ t.Admits directory name := by
  have hFree : later.IsDirectory (later.target (directory.child name)) ↔
      t.IsDirectory (t.target (directory.child name)) := by
    rw [target_eq_of_working h.working, IsDirectory, IsDirectory, h.elsewhere _ hOther]
  constructor
  · rintro ⟨hUsable, hShort, hNot⟩
    exact ⟨hUsable, hShort, mt hFree.mpr hNot⟩
  · rintro ⟨hUsable, hShort, hNot⟩
    exact ⟨hUsable, hShort, mt hFree.mp hNot⟩

end ScriptDoc.FileTree
