import ScriptDoc.Proofs.FileTree.Changes
import ScriptDoc.Publication

/-! Published files. The name of a document's file begins with its number, and directories keep such a
beginning as it is, so no two files share a place. After publishing, each document and the index stand
in the output directory. -/
namespace ScriptDoc

/-! Names as directories keep them. -/

namespace Text.Mended

/-- What has been read, behind some earlier text (last code point first). -/
def behind (m : Mended) (earlier : Text) : Mended :=
  ⟨m.done ++ earlier, m.pending⟩

variable (mark : List UInt8 → Text) (m : Mended) (earlier : Text)

theorem add_behind (t : Text) : (m.behind earlier).add t = (m.add t).behind earlier := by
  simp [behind, add]

theorem begin_behind (b : UInt8) :
    (m.behind earlier).begin mark b = (m.begin mark b).behind earlier := by
  rw [begin, begin]
  split
  · exact add_behind m earlier _
  · rfl
  · exact add_behind m earlier _

/-- Earlier text has no influence on how bytes are read. -/
theorem step_behind (b : UInt8) : (m.behind earlier).step mark b = (m.step mark b).behind earlier := by
  have hPending : (m.behind earlier).pending = m.pending := rfl
  rw [step, step, hPending]
  split
  · exact begin_behind mark m earlier b
  · split
    · exact add_behind m earlier _
    · rfl
    · rw [add_behind, begin_behind]

/-- Bytes are read the same behind any text. -/
theorem foldl_step_behind (bytes : List UInt8) :
    bytes.foldl (step mark) (m.behind earlier) = (bytes.foldl (step mark) m).behind earlier := by
  induction bytes generalizing m with
  | nil => rfl
  | cons b bytes ih => rw [List.foldl_cons, List.foldl_cons, step_behind, ih]

theorem text_behind : (m.behind earlier).text mark = earlier.reverse ++ m.text mark := by
  have hPending : (m.behind earlier).pending = m.pending := rfl
  rw [text, text, hPending]
  split
  · simp [behind]
  · simp [behind, add]

end Text.Mended

namespace FileTree

/-- A byte of ASCII is the character of its number. -/
theorem decodeName_cons {b : UInt8} (h : b.toNat < 0x80) (bytes : List UInt8) :
    Text.decodeName (b :: bytes) = .ofNat b.toNat :: Text.decodeName bytes := by
  have hFirst (mark : List UInt8 → Text) :
      Text.Mended.step mark {} b = Text.Mended.behind {} [.ofNat b.toNat] := by
    simp [Text.Mended.step, Text.Mended.begin, Text.ByteRole.ofFirst, h, Text.Mended.add,
      Text.Mended.behind]
  rw [Text.decodeName, Text.decodeName, Text.mendWith, Text.mendWith, List.foldl_cons, hFirst,
    Text.Mended.foldl_step_behind, Text.Mended.text_behind]
  rfl

/-- A character of ASCII is kept. -/
theorem keptName_cons {c : Char} (h : c.toNat < 0x80) (rest : Text) :
    keptName (.char c :: rest) = .char c :: keptName rest := by
  have hBytes : String.utf8EncodeChar c = [UInt8.ofNat c.toNat] := by
    have hSmall : c.val.toNat ≤ 127 := Nat.lt_succ_iff.mp h
    rw [String.utf8EncodeChar]
    simp only [hSmall, ↓reduceIte]
    rfl
  have hByte : (UInt8.ofNat c.toNat).toNat = c.toNat := by
    rw [UInt8.toNat_ofNat']
    omega
  have hChar : CodePoint.ofNat c.toNat = .char c := CodePoint.ofNat_value (.char c)
  rw [keptName, keptName, Text.encodeName?, hBytes]
  cases hRest : Text.encodeName? rest with
  | none => rfl
  | some bytes =>
      have hDecode := decodeName_cons (b := .ofNat c.toNat) (by omega) bytes
      rw [hByte, hChar] at hDecode
      exact hDecode

/-- Characters of ASCII at the beginning are kept. -/
theorem keptName_append {cs : List Char} (h : ∀ c ∈ cs, c.toNat < 0x80) (rest : Text) :
    keptName (Text.ofChars cs ++ rest) = Text.ofChars cs ++ keptName rest := by
  induction cs with
  | nil => rfl
  | cons c cs ih =>
      obtain ⟨hFirst, hOthers⟩ := List.forall_mem_cons.mp h
      have hRest := ih hOthers
      exact (keptName_cons hFirst _).trans (congrArg (.char c :: ·) hRest)

/-- A name of ASCII is kept as it is. -/
theorem keptName_of_ascii {cs : List Char} (h : cs.all (·.toNat < 0x80)) :
    keptName (Text.ofChars cs) = Text.ofChars cs := by
  have hAll : ∀ c ∈ cs, c.toNat < 0x80 := fun c hMem => of_decide_eq_true (List.all_eq_true.mp h c hMem)
  have hKept := keptName_append hAll []
  rwa [show keptName [] = [] from rfl, List.append_nil] at hKept

end FileTree

namespace Publication

open FileTree

/-- What the name of a file has before its first underscore. -/
def label (name : Text) : Text :=
  name.takeWhile (· != .char '_')

/-- A number is known by its decimal digits. -/
theorem ofNat_injective : Function.Injective Text.ofNat := by
  intro i j h
  have hDigits : Nat.toDigits 10 i = Nat.toDigits 10 j :=
    (List.map_inj_right fun _ _ => CodePoint.char.inj).mp h
  calc
    i = Nat.ofDigitChars 10 (Nat.toDigits 10 i) 0 := Nat.ofDigitChars_ten_toDigits.symm
    _ = Nat.ofDigitChars 10 (Nat.toDigits 10 j) 0 := by rw [hDigits]
    _ = j := Nat.ofDigitChars_ten_toDigits

theorem isDigit_of_mem_ofNat {n : Nat} {c : Char} (h : .char c ∈ Text.ofNat n) : c.isDigit = true := by
  obtain ⟨digit, hMem, hDigit⟩ := List.mem_map.mp h
  cases hDigit
  exact Nat.isDigit_of_mem_toDigits (by decide) (by decide) hMem

/-- A text with anything but digits in it is no number. -/
theorem ne_ofNat {text : Text} {c : Char} (hMem : .char c ∈ text) (hDigit : c.isDigit = false)
    (n : Nat) : text ≠ Text.ofNat n := by
  rintro rfl
  rw [isDigit_of_mem_ofNat hMem] at hDigit
  cases hDigit

theorem toNat_lt_of_isDigit {c : Char} (h : c.isDigit = true) : c.toNat < 0x80 := by
  simp only [Char.isDigit, Bool.and_eq_true, decide_eq_true_eq] at h
  have hNine : c.toNat ≤ 57 := UInt32.le_iff_toNat_le.mp h.2
  omega

/-- The label of a numbered name is its number. -/
theorem label_of_ofNat (n : Nat) (rest : Text) :
    label (Text.ofNat n ++ .char '_' :: rest) = Text.ofNat n := by
  have hDigits : ∀ c ∈ Text.ofNat n, (c != .char '_') = true := by
    intro c hMem
    rw [bne_iff_ne]
    rintro rfl
    cases isDigit_of_mem_ofNat hMem
  rw [label, List.takeWhile_append_of_pos hDigits]
  simp

/-- The name of a document's file begins with its number, as it is given and as it is kept. -/
theorem outputName_eq (index : Nat) (path : Text) :
    ∃ rest, outputName index path = Text.ofNat index ++ .char '_' :: rest ∧
      keptName (outputName index path) = Text.ofNat index ++ .char '_' :: keptName rest := by
  have hName : outputName index path =
      Text.ofNat index ++ .char '_' :: ((Path.ofText path).stem ++ Text.ofString ".json") := by
    rw [outputName, labelledName, List.append_assoc, List.append_assoc]
    rfl
  have hDigits : ∀ c ∈ Nat.toDigits 10 index, c.toNat < 0x80 := fun c hMem =>
    toNat_lt_of_isDigit (Nat.isDigit_of_mem_toDigits (by decide) (by decide) hMem)
  refine ⟨_, hName, ?_⟩
  rw [hName]
  exact (keptName_append hDigits _).trans (congrArg _ (keptName_cons (by decide) _))

theorem keptName_indexName : keptName indexName = indexName :=
  keptName_of_ascii rfl

/-- The labels of documents are their numbers. -/
theorem map_label_documentFiles (index : Nat) (documents : List Document) :
    (documentFiles index documents).map (fun file => label (keptName file.1)) =
      (List.range' index documents.length).map Text.ofNat := by
  induction documents generalizing index with
  | nil => rfl
  | cons d documents ih =>
      obtain ⟨rest, _, hKept⟩ := outputName_eq index d.path
      rw [documentFiles, List.map_cons, hKept, label_of_ofNat, ih]
      rfl

/-- The labels of all files are numbers and the name of the index. -/
theorem map_label_outputFiles (documents : List Document) :
    (outputFiles documents).map (fun file => label (keptName file.1)) =
      (List.range' 1 documents.length).map Text.ofNat ++ [indexName] := by
  rw [outputFiles, List.map_append, map_label_documentFiles, List.map_singleton, keptName_indexName]
  rfl

/-- No two files have one name. -/
theorem nodup_outputFiles (documents : List Document) :
    ((outputFiles documents).map fun file => keptName file.1).Nodup := by
  have hNumbers : ((List.range' 1 documents.length).map Text.ofNat).Nodup := by
    have hRange : (List.range' 1 documents.length).Nodup := List.nodup_range'
    rw [List.Nodup, List.pairwise_map]
    exact hRange.imp fun hNot hSame => hNot (ofNat_injective hSame)
  have hIndex : ∀ number ∈ (List.range' 1 documents.length).map Text.ofNat,
      ∀ name ∈ [indexName], number ≠ name := by
    intro number hNumber name hName
    obtain ⟨n, _, rfl⟩ := List.mem_map.mp hNumber
    obtain rfl := List.mem_singleton.mp hName
    exact (ne_ofNat (c := 'i') (by decide) (by decide) n).symm
  have hLabels : ((outputFiles documents).map fun file => label (keptName file.1)).Nodup := by
    rw [map_label_outputFiles]
    exact List.nodup_append.mpr ⟨hNumbers, List.pairwise_singleton _ _, hIndex⟩
  rw [List.Nodup, List.pairwise_map] at hLabels ⊢
  exact hLabels.imp fun hNot hSame => hNot (congrArg label hSame)

/-- A name that goes on with neither a number nor the name of the index is the name of no file. -/
theorem keptName_ne_of_mem {documents : List Document} {file : Text × String} {c : Char}
    (hFile : file ∈ outputFiles documents) (name : Text) (hMem : .char c ∈ label name)
    (hDigit : c.isDigit = false) (hIndex : label name ≠ indexName) : keptName file.1 ≠ name := by
  intro hSame
  have hLabel : label name ∈ (outputFiles documents).map fun file => label (keptName file.1) :=
    List.mem_map.mpr ⟨file, hFile, congrArg label hSame⟩
  rw [map_label_outputFiles, List.mem_append, List.mem_singleton] at hLabel
  rcases hLabel with hNumber | hName
  · obtain ⟨n, _, hNumber⟩ := List.mem_map.mp hNumber
    exact ne_ofNat hMem hDigit n hNumber.symm
  · exact hIndex hName

/-- No file is a step to the parent. -/
theorem ne_parent_of_mem {documents : List Document} {file : Text × String}
    (h : file ∈ outputFiles documents) : file.1 ≠ Text.ofString ".." := by
  have hKept : keptName (Text.ofString "..") = Text.ofString ".." := keptName_of_ascii rfl
  intro hSame
  refine keptName_ne_of_mem (c := '.') h (Text.ofString "..") (by decide) (by decide) (by decide) ?_
  rw [hSame, hKept]

/-! Writing the files. -/

variable {t later : FileTree} {directory : Path}

/-- If all files can be written and no two of them share a place, each holds its text in the end. -/
theorem standing_writeAll {files : List (Text × String)}
    (h : writeAll t directory files = (later, .ok ()))
    (hApart : (files.map fun file => t.target (directory.child file.1)).Nodup) :
    KeepsDirectories t later ∧
      (∀ file ∈ files, later.standing (t.target (directory.child file.1)) = some (some (.text file.2))) ∧
      ∀ place, (∀ file ∈ files, place ≠ t.target (directory.child file.1)) →
        later.standing place = t.standing place := by
  induction files generalizing t with
  | nil =>
      cases h
      exact ⟨.refl _, nofun, fun _ _ => rfl⟩
  | cons file files ih =>
      rw [writeAll] at h
      split at h
      · next middle hWrite =>
          have hFirst := write_writes hWrite
          have hKeeps := hFirst.keepsDirectories
          rw [List.map_cons, List.nodup_cons] at hApart
          obtain ⟨hNotMem, hOthers⟩ := hApart
          have hSame : ∀ name, middle.target (directory.child name) = t.target (directory.child name) :=
            fun name => target_eq_of_working hKeeps.working _
          obtain ⟨hLater, hWritten, hElsewhere⟩ := ih h (by simpa only [hSame] using hOthers)
          simp only [hSame] at hWritten hElsewhere
          refine ⟨hKeeps.trans hLater, ?_, ?_⟩
          · intro other hMem
            rcases List.mem_cons.mp hMem with rfl | hMem
            · rw [hElsewhere, hFirst.written]
              intro other hMem hPlace
              exact hNotMem (List.mem_map.mpr ⟨other, hMem, hPlace.symm⟩)
            · exact hWritten other hMem
          · intro place hPlace
            obtain ⟨hNotFirst, hNotOthers⟩ := List.forall_mem_cons.mp hPlace
            rw [hElsewhere place hNotOthers, hFirst.elsewhere place hNotFirst]
      · cases h

/-- What publishing comes to, if it succeeds: the output directory is found by its path, each file
stands in it, and there is no other change to a file. -/
structure Publishes (documents : List Document) (directory : Path) (t later : FileTree) : Prop where
  keeps : KeepsDirectories t later
  usable : unusable? directory = none
  located : later.locate directory = .ok (t.target directory)
  isDirectory : later.IsDirectory (t.target directory)
  files : ∀ file ∈ outputFiles documents,
    later.standing (t.target directory ++ [keptName file.1]) = some (some (.text file.2))
  elsewhere : ∀ place content,
    (∀ file ∈ outputFiles documents, place ≠ t.target directory ++ [keptName file.1]) →
    (later.standing place = some (some content) ↔ t.standing place = some (some content))

/-- In a tree that paths start from the same place in, every file has a place of its own. -/
theorem target_child_of_mem {documents : List Document} {file : Text × String} {made : FileTree}
    (hKeeps : KeepsDirectories t made) (hMem : file ∈ outputFiles documents) :
    made.target (directory.child file.1) = t.target directory ++ [keptName file.1] := by
  rw [target_child, target_eq_of_working hKeeps.working, stepFrom, if_neg (ne_parent_of_mem hMem)]

/-- No two files are written to one place. -/
theorem nodup_target_child (documents : List Document) (t : FileTree) (directory : Path) :
    ((outputFiles documents).map fun file => t.target (directory.child file.1)).Nodup := by
  have hNames := nodup_outputFiles documents
  rw [List.map_congr_left fun file hMem => target_child_of_mem (.refl t) hMem]
  rw [List.Nodup, List.pairwise_map] at hNames ⊢
  exact hNames.imp fun hNot hSame => hNot (by simpa using hSame)

/-- Publishing succeeds only if the directory was made and all files were written. -/
theorem exists_made_of_publish (documents : List Document) (paths : List Path) :
    (publish t documents directory).2.result = .ok paths →
      ∃ made, t.makeDirectories directory = (made, .ok ()) ∧
        writeAll made directory (outputFiles documents) =
          ((publish t documents directory).1, .ok ()) := by
  rw [publish]
  split
  · exact nofun
  · next made hMake =>
      dsimp only
      split
      · exact nofun
      · next later hWrite => exact fun _ => ⟨made, hMake, hWrite⟩

/-- What a successful publication leaves. -/
theorem publish_publishes {documents : List Document} {paths : List Path}
    (h : (publish t documents directory).2.result = .ok paths) :
    Publishes documents directory t (publish t documents directory).1 := by
  obtain ⟨made, hMake, hWrite⟩ := exists_made_of_publish documents paths h
  obtain ⟨hUsable, hLocate, hDirectory⟩ := locate_of_makeDirectories hMake
  have hMakes := makeDirectories_makes t directory
  rw [hMake] at hMakes
  have hKeeps : KeepsDirectories t made := hMakes.keepsDirectories
  obtain ⟨hLater, hWritten, hElsewhere⟩ :=
    standing_writeAll hWrite (nodup_target_child documents made directory)
  refine ⟨hKeeps.trans hLater, hUsable, hLater.locate hLocate, hLater.directory _ hDirectory, ?_, ?_⟩
  · intro file hMem
    rw [← target_child_of_mem hKeeps hMem]
    exact hWritten file hMem
  · intro place content hPlace
    rw [hElsewhere place fun file hMem => target_child_of_mem hKeeps hMem ▸ hPlace file hMem]
    exact hMakes.standing_file_iff content

/-- Every document has its file among those that are written. -/
theorem mem_documentFiles {documents : List Document} {i : Nat} {d : Document}
    (h : documents[i]? = some d) (index : Nat) :
    (outputName (index + i) d.path, d.toJson.pretty) ∈
      documentFiles index documents := by
  induction documents generalizing i index with
  | nil => cases h
  | cons first documents ih =>
      rw [documentFiles]
      cases i with
      | zero =>
          cases h
          exact List.mem_cons_self
      | succ i =>
          have hMem := ih h (index + 1)
          rw [Nat.add_right_comm, Nat.add_assoc] at hMem
          exact List.mem_cons_of_mem _ hMem

end Publication
end ScriptDoc
