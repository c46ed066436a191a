import ScriptDoc.Proofs.Path.NormalForm
import ScriptDoc.Proofs.Publication.Files
import ScriptDoc.Proofs.Publication.Layout

/-! Published documents stay apart. The names of the files are different and have no slash in them, so
every file lands in the output directory at a place of its own: the index leads from each document to
a file that holds it and is read back as it, and files with other names are as they were. Only the
system can keep documents from being published, or a directory that has the name of a file. -/
namespace ScriptDoc.Publication

open FileTree

/-- The names of the files that documents are published to, the index last. -/
def names (documents : List Document) : List Text :=
  documents.mapIdx (fun i d => outputName (i + 1) d.path) ++ [indexName]

/-- The path leads to a file with this text. -/
def Holds (t : FileTree) (p : Path) (text : String) : Prop :=
  ∃ place, t.at? p = some (place, .file (.text text))

variable {t later : FileTree} {directory : Path} {documents : List Document}

theorem map_fst_documentFiles (index : Nat) (documents : List Document) :
    (documentFiles index documents).map Prod.fst =
      documents.mapIdx fun i d => outputName (i + index) d.path := by
  induction documents generalizing index with
  | nil => rfl
  | cons d documents ih =>
      rw [documentFiles, List.map_cons, ih, List.mapIdx_cons]
      simp only [Nat.zero_add, Nat.add_assoc, Nat.add_comm 1 index]

/-- The files are written under their names, the index last. -/
theorem map_fst_outputFiles (documents : List Document) :
    (outputFiles documents).map Prod.fst = names documents := by
  rw [outputFiles, List.map_append, map_fst_documentFiles]
  rfl

theorem length_names (documents : List Document) : (names documents).length = documents.length + 1 := by
  simp [names]

/-- No two files have one name: directories would keep it as one. -/
theorem nodup_names (documents : List Document) : (names documents).Nodup := by
  have hKept := nodup_outputFiles documents
  rw [← map_fst_outputFiles]
  rw [List.Nodup, List.pairwise_map] at hKept ⊢
  exact hKept.imp fun hNot hSame => hNot (congrArg keptName hSame)

/-- A stem has no slash, nor has a number. -/
theorem not_mem_outputName (index : Nat) (path : Text) : .char '/' ∉ outputName index path := by
  have hNumber : CodePoint.char '/' ∉ Text.ofNat index := by
    intro hMem
    cases isDigit_of_mem_ofNat hMem
  have hStem := (Path.isNormal_ofText path).not_mem_stem
  rw [outputName, labelledName]
  simp only [List.mem_append, not_or]
  exact ⟨⟨⟨hNumber, by decide⟩, hStem⟩, by decide⟩

theorem not_mem_of_mem_names {name : Text} (h : name ∈ names documents) : .char '/' ∉ name := by
  rw [names, List.mem_append, List.mem_mapIdx, List.mem_singleton] at h
  rcases h with ⟨i, hLength, rfl⟩ | rfl
  · exact not_mem_outputName _ _
  · decide

/-- The index has an entry for each document, at its place. -/
theorem indexEntries_getElem? (index i : Nat) (documents : List Document) :
    (indexEntries index documents)[i]? = documents[i]?.map (indexEntry (index + i)) := by
  induction documents generalizing index i with
  | nil => rfl
  | cons d documents ih =>
      cases i with
      | zero => rfl
      | succ i =>
          rw [indexEntries, List.getElem?_cons_succ, List.getElem?_cons_succ, ih, Nat.add_assoc,
            Nat.add_comm 1 i]

/-! When publishing succeeds. -/

/-- Files with different places can all be written if each of them could be written alone. -/
theorem exists_writeAll_iff {place : Place} {files : List (Text × String)}
    (hLocate : t.locate directory = .ok place) (hDirectory : t.IsDirectory place)
    (hApart : (files.map fun file => t.target (directory.child file.1)).Nodup) :
    (∃ later, writeAll t directory files = (later, .ok ())) ↔
      ∀ file ∈ files, t.Admits directory file.1 := by
  induction files generalizing t with
  | nil => exact ⟨fun _ => List.forall_mem_nil _, fun _ => ⟨t, rfl⟩⟩
  | cons file files ih =>
      rw [List.forall_mem_cons, ← exists_write_iff hLocate hDirectory (.text file.2), writeAll]
      cases hWrite : t.write (directory.child file.1) (.text file.2) with
      | error e => simp
      | ok middle =>
          have hWrites := write_writes hWrite
          have hKeeps := hWrites.keepsDirectories
          obtain ⟨hNotMem, hOthers⟩ := List.nodup_cons.mp hApart
          have hRest := ih (hKeeps.locate hLocate) (hKeeps.directory _ hDirectory)
            (by simpa only [target_eq_of_working hKeeps.working] using hOthers)
          have hSame : ∀ other ∈ files,
              (middle.Admits directory other.1 ↔ t.Admits directory other.1) := by
            intro other hMem
            refine hWrites.admits_iff fun hPlace => hNotMem ?_
            exact List.mem_map.mpr ⟨other, hMem, hPlace⟩
          rw [hRest, forall₂_congr hSame]
          simp

/-- Documents are published exactly if their directory can be made and takes every name. -/
theorem exists_publish_iff :
    (∃ written, (publish t documents directory).2.result = .ok written) ↔
      ∃ made, t.makeDirectories directory = (made, .ok ()) ∧
        ∀ name ∈ names documents, made.Admits directory name := by
  have hNames : ∀ made : FileTree, (∀ name ∈ names documents, made.Admits directory name) ↔
      ∀ file ∈ outputFiles documents, made.Admits directory file.1 := by
    intro made
    rw [← map_fst_outputFiles, List.forall_mem_map]
  simp only [hNames]
  constructor
  · rintro ⟨written, hResult⟩
    obtain ⟨made, hMake, hWrite⟩ := exists_made_of_publish documents written hResult
    obtain ⟨_, hLocate, hDirectory⟩ := locate_of_makeDirectories hMake
    exact ⟨made, hMake, (exists_writeAll_iff hLocate hDirectory
      (nodup_target_child documents made directory)).mp ⟨_, hWrite⟩⟩
  · rintro ⟨made, hMake, hAdmits⟩
    obtain ⟨_, hLocate, hDirectory⟩ := locate_of_makeDirectories hMake
    obtain ⟨later, hWrite⟩ := (exists_writeAll_iff hLocate hDirectory
      (nodup_target_child documents made directory)).mpr hAdmits
    refine ⟨(outputFiles documents).map fun file => directory.child file.1, ?_⟩
    rw [publish, hMake]
    simp only [hWrite]

/-- The paths that were written are those of all names. -/
theorem written_eq {written : List Path} (h : (publish t documents directory).2.result = .ok written) :
    written = (names documents).map directory.child := by
  rw [← map_fst_outputFiles, List.map_map]
  rw [publish] at h
  split at h
  · cases h
  · dsimp only at h
    split at h
    · cases h
    · cases h
      rfl

/-- After publishing, the path of every file leads to its text. -/
theorem holds_of_publish {written : List Path} {name : Text} {text : String}
    (h : (publish t documents directory).2.result = .ok written)
    (hMem : (name, text) ∈ outputFiles documents) :
    Holds (publish t documents directory).1 (directory.child name) text := by
  have hPublishes := publish_publishes h
  have hName : name ∈ names documents := by
    rw [← map_fst_outputFiles]
    exact List.mem_map_of_mem hMem
  obtain ⟨made, _, hAdmits⟩ := exists_publish_iff.mp ⟨written, h⟩
  have hFile := hAdmits name hName
  have hLocate := locate_child hPublishes.located hPublishes.isDirectory name
  rw [if_neg (Nat.not_lt.mpr hFile.short), stepFrom, if_neg (ne_parent_of_mem hMem)] at hLocate
  exact ⟨_, at?_of_locate hFile.usable hLocate (node?_of_standing (hPublishes.files _ hMem))⟩

/-- Published documents never overwrite each other, nor any other file. -/
theorem publish_apart (t : FileTree) (documents : List Document) (directory : Path) :
    (names documents).Nodup ∧ (∀ name ∈ names documents, .char '/' ∉ name) ∧
    ((∃ written, (publish t documents directory).2.result = .ok written) ↔
      ∃ made, t.makeDirectories directory = (made, .ok ()) ∧
        ∀ name ∈ names documents, made.Admits directory name) ∧
    ∀ written, (publish t documents directory).2.result = .ok written →
      (written.length = documents.length + 1 ∧ written.Nodup ∧
        ∀ p ∈ written, ∃ name ∈ names documents, p = directory.child name) ∧
      Holds (publish t documents directory).1 (directory.child indexName)
        (Json.obj [("files", .arr (indexEntries 1 documents))]).pretty ∧
      (∀ (k : Nat) (d : Document), documents[k]? = some d → ∃ (entry : Json) (name : Text),
        (indexEntries 1 documents)[k]? = some entry ∧ entry.get? "output" = some (.str name) ∧
        Holds (publish t documents directory).1 (directory.child name) d.toJson.pretty ∧
        (d.IsWhole → Json.parse (Text.ofString d.toJson.pretty) = .ok d.toJson)) ∧
      ∀ place content, (∀ p ∈ written, place ≠ t.target p) →
        ((publish t documents directory).1.standing place = some (some content) ↔
          t.standing place = some (some content)) := by
  refine ⟨nodup_names documents, fun name => not_mem_of_mem_names, exists_publish_iff, ?_⟩
  intro written h
  obtain rfl := written_eq h
  refine ⟨⟨?_, ?_, ?_⟩, ?_, ?_, ?_⟩
  · rw [List.length_map, length_names]
  · rw [List.Nodup, List.pairwise_map]
    exact (nodup_names documents).imp fun hNot hSame => hNot (by simpa [Path.child] using hSame)
  · intro p hMem
    obtain ⟨name, hName, rfl⟩ := List.mem_map.mp hMem
    exact ⟨name, hName, rfl⟩
  · apply holds_of_publish h
    exact List.mem_append_right _ List.mem_cons_self
  · intro k d hDocument
    refine ⟨indexEntry (1 + k) d, outputName (1 + k) d.path, ?_, rfl, ?_, parse_pretty⟩
    · rw [indexEntries_getElem?, hDocument]
      rfl
    · apply holds_of_publish h
      exact List.mem_append_left _ (mem_documentFiles hDocument 1)
  · intro place content hPlace
    refine (publish_publishes h).elsewhere place content fun file hMem => ?_
    rw [← target_child_of_mem (.refl t) hMem]
    apply hPlace
    rw [← map_fst_outputFiles]
    exact List.mem_map_of_mem (List.mem_map_of_mem hMem)

/-- Documents of sources with one name, with names like those of files, and with no name at all. -/
def drafts : List Document :=
  (["a/x.js", "b/x.js", "1_x", "..", "", "/", "index.js"] : List Text).map fun path =>
    { path, overview := default }

/-- An output directory with an earlier document and a note in it. -/
def desk : FileTree where
  root := [("out", .directory [("1_x.json", .file (.text "old")), ("note", .file (.text "new"))])]

theorem publish_apart_drafts :
    names drafts = ["1_x.json", "2_x.json", "3_1_x.json", "4_...json", "5_.json", "6_.json",
      "7_index.json", "index.json"] ∧
    (publish desk drafts (.ofText "out")).2.result =
      .ok ((names drafts).map (Path.ofText "out").child) ∧
    (∀ (k : Nat) (d : Document), drafts[k]? = some d → ∃ (entry : Json) (name : Text),
      (indexEntries 1 drafts)[k]? = some entry ∧ entry.get? "output" = some (.str name) ∧
      Holds (publish desk drafts (.ofText "out")).1 ((Path.ofText "out").child name)
        d.toJson.pretty ∧
      (d.IsWhole → Json.parse (Text.ofString d.toJson.pretty) = .ok d.toJson)) ∧
    (∀ d ∈ drafts, d.IsWhole) ∧
    (publish desk drafts (.ofText "out")).1.standing ["out", "note"] =
      some (some (.text "new")) := by
  have hResult : (publish desk drafts (.ofText "out")).2.result =
      .ok ((names drafts).map (Path.ofText "out").child) := by
    decide +kernel
  obtain ⟨_, _, hDocuments, hElsewhere⟩ :=
    (publish_apart desk drafts (.ofText "out")).2.2.2 _ hResult
  exact ⟨by decide +kernel, hResult, hDocuments, by decide +kernel,
    (hElsewhere _ _ (by decide +kernel)).mpr (by decide +kernel)⟩

end ScriptDoc.Publication
