import ScriptDoc.Proofs.Sources.Search
import ScriptDoc.Proofs.Text.Order

/-! Which sources are found. A given path means itself if there is a file, and the wanted files of a
directory that lie no deeper than they are to be searched. Unless the system refuses a path for its
length or directories are nested too deep, the sources are exactly the texts that some given path
means, each once and in order, and there is a warning for every path that leads nowhere. -/
namespace ScriptDoc.Sources

open FileTree (Node)

/-- The sources that a given path means, by the files of a tree. -/
inductive IsSource (t : FileTree) (recurse : Int) (extensions : List Text) (given : Path) : Text → Prop
  | itself {place : FileTree.Place} {content : FileTree.Content}
      (file : t.at? given = some (place, .file content)) :
      IsSource t recurse extensions given given.toText
  | inside {place : FileTree.Place} {entries : List (Text × Node)} {levels : List Text}
      {name extension : Text} {content : FileTree.Content}
      (directory : t.at? given = some (place, .directory entries))
      (depth : (levels.length : Int) ≤ max recurse 0)
      (file : FileTree.nodeIn? entries (levels ++ [name]) = some (.file content))
      (mem : extension ∈ extensions)
      (wanted : plainExtension (Path.splitSuffix name).2 = plainExtension extension) :
      IsSource t recurse extensions given (given.below (levels ++ [name])).toText

/-- What can end the search of a given path: the system refuses the path for its length, or a path
that is seen in the directory there, or a directory below is to be entered that lies in more
directories than a search goes through. -/
inductive Blocks (t : FileTree) (recurse : Int) (given : Path) : Error → Prop
  | path (long : t.IsOverlong given) : Blocks t recurse given (.files .nameTooLong)
  | entry {place : FileTree.Place} {entries : List (Text × Node)} {levels : List Text} {name : Text}
      {node : Node} (directory : t.at? given = some (place, .directory entries))
      (depth : (levels.length : Int) ≤ max recurse 0) (reached : levels.length ≤ maxNested)
      (entry : FileTree.nodeIn? entries (levels ++ [name]) = some node)
      (long : FileTree.unusable? (given.below (levels ++ [name])) = some .nameTooLong) :
      Blocks t recurse given (.files .nameTooLong)
  | nested {place : FileTree.Place} {entries inner : List (Text × Node)} {levels : List Text}
      (directory : t.at? given = some (place, .directory entries))
      (depth : (levels.length : Int) ≤ max recurse 0) (beyond : levels.length = maxNested + 1)
      (entry : FileTree.nodeIn? entries levels = some (.directory inner)) :
      Blocks t recurse given .tooDeep

/-- Something ends the search of the given path. -/
def IsBlocked (t : FileTree) (recurse : Int) (given : Path) : Prop :=
  ∃ e, Blocks t recurse given e

/-- The warnings about given paths that lead nowhere. -/
def warnings (t : FileTree) (paths : List Text) : List Log.Message :=
  ((paths.map Path.ofText).filter fun given => (t.at? given).isNone).map fun given =>
    Log.warning ("Source path not found: " ++ given.toText)

variable {t : FileTree} {recurse : Int} {extensions : List Text} {given : Path}
variable {place : FileTree.Place} {entries : List (Text × Node)} {s : Text}

theorem not_isSource (hAt : t.at? given = none) : ¬ IsSource t recurse extensions given s := by
  rintro (⟨hFile⟩ | ⟨hDirectory, _⟩)
  · cases hAt.symm.trans hFile
  · cases hAt.symm.trans hDirectory

/-- A given file means itself, whatever its extension. -/
theorem isSource_iff_of_file {content : FileTree.Content}
    (hAt : t.at? given = some (place, .file content)) :
    IsSource t recurse extensions given s ↔ s = given.toText := by
  constructor
  · rintro (⟨hFile⟩ | ⟨hDirectory, _⟩)
    · rfl
    · cases hAt.symm.trans hDirectory
  · rintro rfl
    exact .itself hAt

theorem isSource_iff_of_directory (hAt : t.at? given = some (place, .directory entries)) :
    IsSource t recurse extensions given s ↔
      ∃ levels name content, (List.length levels : Int) ≤ max recurse 0 ∧
        FileTree.nodeIn? entries (levels ++ [name]) = some (.file content) ∧
        (∃ extension ∈ extensions,
          plainExtension (Path.splitSuffix name).2 = plainExtension extension) ∧
        s = (given.below (levels ++ [name])).toText := by
  constructor
  · rintro (⟨hFile⟩ | ⟨hDirectory, hDepth, hFile, hMem, hWanted⟩)
    · cases hAt.symm.trans hFile
    · cases hAt.symm.trans hDirectory
      exact ⟨_, _, _, hDepth, hFile, ⟨_, hMem, hWanted⟩, rfl⟩
  · rintro ⟨levels, name, content, hDepth, hFile, ⟨extension, hMem, hWanted⟩, rfl⟩
    exact .inside hAt hDepth hFile hMem hWanted

/-- Paths in normal form are all that a path means. -/
theorem IsSource.ofText_toText (hTree : t.WellNamed) (hGiven : given.IsNormal)
    (h : IsSource t recurse extensions given s) : (Path.ofText s).toText = s := by
  rcases h with ⟨hFile⟩ | ⟨hDirectory, _, hFile, _⟩
  · rw [hGiven.ofText_toText]
  · rw [← Node.below?_directory] at hFile
    rw [(hGiven.below ((hTree.at? hDirectory).of_below? hFile).2).ofText_toText]

theorem IsSource.congr {others : List Text} (h : IsSource t recurse extensions given s)
    (hSame : ∀ extension ∈ extensions, extension ∈ others) : IsSource t recurse others given s := by
  rcases h with ⟨hFile⟩ | ⟨hDirectory, hDepth, hFile, hMem, hWanted⟩
  · exact .itself hFile
  · exact .inside hDirectory hDepth hFile (hSame _ hMem) hWanted

/-! One path. -/

/-- Negative depths count as zero. -/
theorem covers_levels_iff {m : Nat} :
    (Depth.levels recurse.toNat).Covers m ↔ (m : Int) ≤ max recurse 0 := by
  rw [Depth.Covers]
  omega

/-- Extensions are compared without their dots and in small letters. -/
theorem isWanted_below_iff {levels : List Text} {name : Text} :
    isWanted (extensions.map plainExtension) (given.below (levels ++ [name])) = true ↔
      ∃ extension ∈ extensions,
        plainExtension (Path.splitSuffix name).2 = plainExtension extension := by
  rw [isWanted, Path.suffix_below_concat, List.contains_iff_mem, List.mem_map]
  simp only [eq_comm]

/-- What blocks a directory is what its search meets. -/
theorem blocks_iff_of_directory (hTree : t.WellNamed) (h : ¬ t.IsOverlong given)
    (hAt : t.at? given = some (place, .directory entries)) {e : Error} :
    Blocks t recurse given e ↔ MeetsIn (.levels recurse.toNat) maxNested given entries e := by
  rw [meetsIn_levels_iff (hTree.at? hAt)]
  constructor
  · rintro (hLong | ⟨hDirectory, hDepth, hReached, hEntry, hLong⟩ |
      ⟨hDirectory, hDepth, hBeyond, hEntry⟩)
    · exact absurd hLong h
    · cases hAt.symm.trans hDirectory
      exact .inl ⟨rfl, _, _, _, covers_levels_iff.mpr hDepth, hReached, hEntry, beq_iff_eq.mpr hLong⟩
    · cases hAt.symm.trans hDirectory
      exact .inr ⟨rfl, _, _, covers_levels_iff.mpr hDepth, hBeyond, hEntry⟩
  · rintro (⟨rfl, levels, name, node, hDepth, hReached, hEntry, hLong⟩ |
      ⟨rfl, levels, inner, hDepth, hBeyond, hEntry⟩)
    · exact .entry hAt (covers_levels_iff.mp hDepth) hReached hEntry (beq_iff_eq.mp hLong)
    · exact .nested hAt (covers_levels_iff.mp hDepth) hBeyond hEntry

/-- What a directory means are the wanted files that its search sees. -/
theorem isSource_iff_of_seesIn (hTree : t.WellNamed)
    (hAt : t.at? given = some (place, .directory entries)) :
    IsSource t recurse extensions given s ↔
      ∃ q content, SeesIn (.levels recurse.toNat) given entries q (.file content) ∧
        isWanted (extensions.map plainExtension) q = true ∧ s = q.toText := by
  rw [isSource_iff_of_directory hAt]
  constructor
  · rintro ⟨levels, name, content, hDepth, hNode, hWanted, rfl⟩
    exact ⟨_, content, (seesIn_iff (hTree.at? hAt)).mpr
      ⟨levels, name, covers_levels_iff.mpr hDepth, hNode, rfl⟩, isWanted_below_iff.mpr hWanted, rfl⟩
  · rintro ⟨q, content, hSeen, hWanted, rfl⟩
    obtain ⟨levels, name, hCovers, hNode, rfl⟩ := (seesIn_iff (hTree.at? hAt)).mp hSeen
    exact ⟨levels, name, content, covers_levels_iff.mp hCovers, hNode,
      isWanted_below_iff.mp hWanted, rfl⟩

/-- Where there is no directory only the length of the path can block it. -/
theorem not_blocks {e : Error} (h : ¬ t.IsOverlong given)
    (hAt : ∀ place entries, t.at? given ≠ some (place, .directory entries)) :
    ¬ Blocks t recurse given e := by
  rintro (hLong | ⟨hDirectory, _⟩ | ⟨hDirectory, _⟩)
  · exact h hLong
  · exact hAt _ _ hDirectory
  · exact hAt _ _ hDirectory

/-- One path is blocked and gives what blocks it, or it is not and gives what it means. -/
theorem ofPath_outcome (hTree : t.WellNamed) (recurse : Int) (extensions : List Text) (given : Path) :
    (∃ e, Blocks t recurse given e ∧
      ofPath t (.int recurse) (extensions.map plainExtension) given = ⟨[], .error e⟩) ∨
    (¬ IsBlocked t recurse given ∧
      ∃ found, ofPath t (.int recurse) (extensions.map plainExtension) given =
          ⟨if (t.at? given).isNone then [notFound given] else [], .ok found⟩ ∧
        ∀ s, s ∈ found ↔ IsSource t recurse extensions given s) := by
  by_cases hLong : t.IsOverlong given
  · refine .inl ⟨_, .path hLong, ?_⟩
    rw [ofPath, FileTree.look_eq_error_iff.mpr ⟨rfl, hLong⟩]
  rw [ofPath, FileTree.look_of_not_isOverlong hLong]
  cases hAt : t.at? given with
  | none =>
      refine .inr ⟨fun ⟨e, hBlocks⟩ => not_blocks hLong (by simp [hAt]) hBlocks, [], rfl, fun s => ?_⟩
      exact iff_of_false List.not_mem_nil (not_isSource hAt)
  | some found =>
      obtain ⟨place, node⟩ := found
      cases node with
      | file content =>
          refine .inr ⟨fun ⟨e, hBlocks⟩ => not_blocks hLong (by simp [hAt]) hBlocks,
            [given.toText], rfl, fun s => ?_⟩
          rw [List.mem_singleton, isSource_iff_of_file hAt]
      | directory entries =>
          have hFinds := inDirectory_finds (extensions.map plainExtension) (.levels recurse.toNat)
            given entries
          change (∃ e, _ ∧ Logged.mk [] (inDirectory _ (.levels recurse.toNat) _ _) = _) ∨
            (_ ∧ ∃ found, Logged.mk [] (inDirectory _ (.levels recurse.toNat) _ _) = _ ∧ _)
          revert hFinds
          generalize inDirectory _ (.levels recurse.toNat) given entries = result
          rintro (hMeets | ⟨hFree, hFound⟩)
          · exact .inl ⟨_, (blocks_iff_of_directory hTree hLong hAt).mpr hMeets, rfl⟩
          · refine .inr ⟨?_, _, rfl, fun s => ?_⟩
            · rintro ⟨e, hBlocks⟩
              exact hFree e ((blocks_iff_of_directory hTree hLong hAt).mp hBlocks)
            · rw [hFound, isSource_iff_of_seesIn hTree hAt]

/-- What one path gives unless it is blocked. -/
theorem ofPath_of_not_isBlocked (hTree : t.WellNamed) (extensions : List Text)
    (h : ¬ IsBlocked t recurse given) :
    ∃ found, ofPath t (.int recurse) (extensions.map plainExtension) given =
        ⟨if (t.at? given).isNone then [notFound given] else [], .ok found⟩ ∧
      ∀ s, s ∈ found ↔ IsSource t recurse extensions given s := by
  rcases ofPath_outcome hTree recurse extensions given with ⟨e, hBlocks, _⟩ | ⟨_, hFound⟩
  · exact absurd ⟨e, hBlocks⟩ h
  · exact hFound

/-- What one path gives if it is blocked. -/
theorem ofPath_of_isBlocked (hTree : t.WellNamed) (extensions : List Text)
    (h : IsBlocked t recurse given) :
    ∃ e, Blocks t recurse given e ∧
      ofPath t (.int recurse) (extensions.map plainExtension) given = ⟨[], .error e⟩ := by
  rcases ofPath_outcome hTree recurse extensions given with hError | ⟨hFree, _⟩
  · exact hError
  · exact absurd h hFree

/-! All paths. -/

theorem wanted_map_str (extensions : List Text) :
    wanted (extensions.map .str) = .ok (extensions.map plainExtension) := by
  induction extensions with
  | nil => rfl
  | cons extension extensions ih =>
      rw [List.map_cons, wanted, ih]
      rfl

theorem warnings_cons (t : FileTree) (given : Text) (paths : List Text) :
    warnings t (given :: paths) =
      (if (t.at? (.ofText given)).isNone then [notFound (.ofText given)] else []) ++
        warnings t paths := by
  rw [warnings, List.map_cons, List.filter_cons]
  split
  · rfl
  · rfl

/-- Paths that are not blocked give what all of them mean, and the warnings. -/
theorem ofPaths_of_not_isBlocked (hTree : t.WellNamed) (extensions : List Text) {paths : List Text}
    (h : ∀ given ∈ paths, ¬ IsBlocked t recurse (.ofText given)) :
    ∃ found, ofPaths t (.int recurse) (extensions.map plainExtension) (paths.map .str) =
        ⟨warnings t paths, .ok found⟩ ∧
      ∀ s, s ∈ found ↔ ∃ given ∈ paths, IsSource t recurse extensions (.ofText given) s := by
  induction paths with
  | nil => exact ⟨[], rfl, by simp⟩
  | cons given paths ih =>
      obtain ⟨hGiven, hPaths⟩ := List.forall_mem_cons.mp h
      obtain ⟨found, hFirst, hFound⟩ := ofPath_of_not_isBlocked hTree extensions hGiven
      obtain ⟨others, hLater, hOthers⟩ := ih hPaths
      refine ⟨found ++ others, ?_, fun s => ?_⟩
      · rw [List.map_cons, ofPaths, hFirst, hLater, warnings_cons]
        rfl
      · rw [List.mem_append, hFound, hOthers, List.exists_mem_cons_iff]

/-- The first blocked path ends the search. -/
theorem ofPaths_of_isBlocked (hTree : t.WellNamed) (extensions : List Text)
    {before : List Text} {bad : Text}
    (h : ∀ given ∈ before, ¬ IsBlocked t recurse (.ofText given))
    (hBad : IsBlocked t recurse (.ofText bad)) (after : List Text) :
    ∃ e, Blocks t recurse (.ofText bad) e ∧
      ofPaths t (.int recurse) (extensions.map plainExtension) ((before ++ bad :: after).map .str) =
        ⟨warnings t before, .error e⟩ := by
  obtain ⟨e, hBlocks, hError⟩ := ofPath_of_isBlocked hTree extensions hBad
  refine ⟨e, hBlocks, ?_⟩
  induction before with
  | nil =>
      rw [List.nil_append, List.map_cons, ofPaths, hError]
      rfl
  | cons given before ih =>
      obtain ⟨hGiven, hBefore⟩ := List.forall_mem_cons.mp h
      obtain ⟨found, hFirst, _⟩ := ofPath_of_not_isBlocked hTree extensions hGiven
      rw [List.cons_append, List.map_cons, ofPaths, hFirst, ih hBefore, warnings_cons]
      rfl

theorem result_of_ofPaths {recurse : Json} {paths : List Json} {found : List Text}
    (h : (ofPaths t recurse (extensions.map plainExtension) paths).result = .ok found) :
    (find t paths recurse (extensions.map .str)).result = .ok (Text.ascending found.eraseDups) := by
  rw [find, wanted_map_str]
  simp only [h]

/-- Without blocked paths the search gives what all paths mean, each once and in order. -/
theorem find_of_not_isBlocked (hTree : t.WellNamed) (extensions : List Text) {paths : List Text}
    (h : ∀ given ∈ paths, ¬ IsBlocked t recurse (.ofText given)) :
    ∃ found sources, sources = Text.ascending (List.eraseDups found) ∧
      find t (paths.map .str) (.int recurse) (extensions.map .str) =
        ⟨warnings t paths ++ [Log.debug s!"Found {sources.length} source files"], .ok sources⟩ ∧
      ∀ s, s ∈ found ↔ ∃ given ∈ paths, IsSource t recurse extensions (.ofText given) s := by
  obtain ⟨found, hAll, hFound⟩ := ofPaths_of_not_isBlocked hTree extensions h
  refine ⟨found, _, rfl, ?_, hFound⟩
  rw [find, wanted_map_str]
  simp only [hAll]

/-- The first blocked path ends the whole search. -/
theorem find_of_isBlocked (hTree : t.WellNamed) (extensions : List Text) {before : List Text}
    {bad : Text} (h : ∀ given ∈ before, ¬ IsBlocked t recurse (.ofText given))
    (hBad : IsBlocked t recurse (.ofText bad)) (after : List Text) :
    ∃ e, Blocks t recurse (.ofText bad) e ∧
      find t ((before ++ bad :: after).map .str) (.int recurse) (extensions.map .str) =
        ⟨warnings t before, .error e⟩ := by
  obtain ⟨e, hBlocks, hAll⟩ := ofPaths_of_isBlocked hTree extensions h hBad after
  refine ⟨e, hBlocks, ?_⟩
  rw [find, wanted_map_str]
  simp only [hAll]

/-- Wherever a blocked path is given, nothing is found. -/
theorem toOption_of_isBlocked (hTree : t.WellNamed) (extensions : List Text) {paths : List Text}
    (h : ∃ given ∈ paths, IsBlocked t recurse (.ofText given)) :
    (find t (paths.map .str) (.int recurse) (extensions.map .str)).result.toOption = none := by
  classical
  obtain ⟨given, hMem, hGiven⟩ := h
  obtain ⟨bad, hFirst⟩ := Option.isSome_iff_exists.mp (List.find?_isSome.mpr
    ⟨given, hMem, decide_eq_true hGiven⟩ : (paths.find? fun given =>
      decide (IsBlocked t recurse (.ofText given))).isSome)
  obtain ⟨hBad, before, after, rfl, hBefore⟩ := List.find?_eq_some_iff_append.mp hFirst
  have hFree : ∀ given ∈ before, ¬ IsBlocked t recurse (.ofText given) := by
    intro given hMem
    simpa using hBefore given hMem
  obtain ⟨e, _, hFind⟩ := find_of_isBlocked hTree extensions hFree (of_decide_eq_true hBad) after
  rw [hFind]
  rfl

/-- Neither the order nor the repetition of paths and extensions changes what is found. -/
theorem toOption_congr (hTree : t.WellNamed) (recurse : Int) {paths otherPaths : List Text}
    {extensions otherExtensions : List Text} (hPaths : ∀ given, given ∈ otherPaths ↔ given ∈ paths)
    (hExtensions : ∀ extension, extension ∈ otherExtensions ↔ extension ∈ extensions) :
    (find t (otherPaths.map .str) (.int recurse) (otherExtensions.map .str)).result.toOption =
      (find t (paths.map .str) (.int recurse) (extensions.map .str)).result.toOption := by
  by_cases hBlocked : ∃ given ∈ paths, IsBlocked t recurse (.ofText given)
  · obtain ⟨given, hMem, hBad⟩ := hBlocked
    rw [toOption_of_isBlocked hTree _ ⟨given, hMem, hBad⟩,
      toOption_of_isBlocked hTree _ ⟨given, (hPaths given).mpr hMem, hBad⟩]
  · have hFree : ∀ given ∈ paths, ¬ IsBlocked t recurse (.ofText given) :=
      fun given hMem hBad => hBlocked ⟨given, hMem, hBad⟩
    obtain ⟨found, _, rfl, hFind, hFound⟩ := find_of_not_isBlocked hTree extensions hFree
    obtain ⟨others, _, rfl, hOther, hOthers⟩ := find_of_not_isBlocked hTree otherExtensions
      fun given hMem => hFree given ((hPaths given).mp hMem)
    rw [hFind, hOther]
    refine congrArg some (Text.ascending_eraseDups_congr fun s => ?_)
    rw [hFound, hOthers]
    constructor
    · rintro ⟨given, hMem, hSource⟩
      exact ⟨given, (hPaths given).mp hMem, hSource.congr fun e => (hExtensions e).mp⟩
    · rintro ⟨given, hMem, hSource⟩
      exact ⟨given, (hPaths given).mpr hMem, hSource.congr fun e => (hExtensions e).mpr⟩

/-- The sources are exactly what the given paths mean, in normal form, each once and in order, with
a warning for each path that leads nowhere. The search ends without a result exactly if some given
path is blocked: the first one does it, with something that blocks this path, after the warnings for
the paths before. Order and repetition of paths and extensions make no difference to the sources. -/
theorem find_exact (hTree : t.WellNamed) (paths : List Text) (recurse : Int)
    (extensions : List Text) :
    ((∀ given ∈ paths, ¬ IsBlocked t recurse (.ofText given)) →
      ∃ sources, find t (paths.map .str) (.int recurse) (extensions.map .str) =
          ⟨warnings t paths ++ [Log.debug s!"Found {sources.length} source files"], .ok sources⟩ ∧
        sources.Pairwise Text.Before ∧
        (∀ s, s ∈ sources ↔ ∃ given ∈ paths, IsSource t recurse extensions (.ofText given) s) ∧
        ∀ s ∈ sources, (Path.ofText s).toText = s) ∧
    (∀ before bad after, paths = before ++ bad :: after →
      (∀ given ∈ before, ¬ IsBlocked t recurse (.ofText given)) →
      IsBlocked t recurse (.ofText bad) →
      ∃ e, Blocks t recurse (.ofText bad) e ∧
        find t (paths.map .str) (.int recurse) (extensions.map .str) =
          ⟨warnings t before, .error e⟩) ∧
    ∀ otherPaths otherExtensions : List Text, (∀ given, given ∈ otherPaths ↔ given ∈ paths) →
      (∀ extension, extension ∈ otherExtensions ↔ extension ∈ extensions) →
      (find t (otherPaths.map .str) (.int recurse) (otherExtensions.map .str)).result.toOption =
        (find t (paths.map .str) (.int recurse) (extensions.map .str)).result.toOption := by
  refine ⟨fun hFree => ?_, ?_, fun _ _ => toOption_congr hTree recurse⟩
  · obtain ⟨found, sources, rfl, hFind, hFound⟩ := find_of_not_isBlocked hTree extensions hFree
    have hMem : ∀ s, s ∈ Text.ascending found.eraseDups ↔
        ∃ given ∈ paths, IsSource t recurse extensions (.ofText given) s :=
      fun s => Text.mem_ascending_eraseDups.trans (hFound s)
    refine ⟨_, hFind, Text.ascending_eraseDups_pairwise found, hMem, ?_⟩
    intro s hSource
    obtain ⟨given, _, hGiven⟩ := (hMem s).mp hSource
    exact hGiven.ofText_toText hTree (Path.isNormal_ofText given)
  · rintro before bad after rfl hBefore hBad
    exact find_of_isBlocked hTree extensions hBefore hBad after

/-- A directory whose name has a wanted extension, with files in it and further down. -/
def nested : FileTree where
  root := [("x.txt", .file (.text "")),
    ("src", .directory [("a.js", .file (.text "")),
      ("lib.js", .directory [("deep", .directory [("d.JS", .file (.text ""))])])])]

theorem nested_wellNamed : nested.WellNamed := by
  refine .directory (by decide) (by decide) ?_
  refine List.forall_mem_cons.mpr ⟨.file _, List.forall_mem_singleton.mpr ?_⟩
  refine .directory (by decide) (by decide) ?_
  refine List.forall_mem_cons.mpr ⟨.file _, List.forall_mem_singleton.mpr ?_⟩
  refine .directory (by decide) (by decide) (List.forall_mem_singleton.mpr ?_)
  exact .directory (by decide) (by decide) (List.forall_mem_singleton.mpr (.file _))

/-- Overlapping directories, a file and a path that leads nowhere. -/
def nestedPaths : List Text :=
  ["./src//", "src/lib.js", "zz", "x.txt"]

theorem find_exact_nested :
    nested.WellNamed ∧ (∀ given ∈ nestedPaths, ¬ IsBlocked nested 1 (.ofText given)) ∧
      warnings nested nestedPaths = [Log.warning "Source path not found: zz"] ∧
      ∀ s, s ∈ (["src/a.js", "src/lib.js/deep/d.JS", "x.txt"] : List Text) ↔
        ∃ given ∈ nestedPaths, IsSource nested 1 [".js", "Js"] (.ofText given) s := by
  have hPlain : ([".js", "Js"] : List Text).map plainExtension = ["js", "js"] := by decide +kernel
  have hAll : (ofPaths nested (.int 1) (([".js", "Js"] : List Text).map plainExtension)
      (nestedPaths.map .str)).result = .ok ["src/a.js", "src/lib.js/deep/d.JS", "x.txt"] := by
    rw [hPlain]
    decide +kernel
  have hOrder : Text.ascending (["src/a.js", "src/lib.js/deep/d.JS", "x.txt"] : List Text).eraseDups =
      ["src/a.js", "src/lib.js/deep/d.JS", "x.txt"] := by
    decide +kernel
  have hResult := hOrder ▸ result_of_ofPaths hAll
  -- A blocked path would leave no result.
  have hFree : ∀ given ∈ nestedPaths, ¬ IsBlocked nested 1 (.ofText given) := by
    intro given hMem hBad
    cases (congrArg Except.toOption hResult).symm.trans
      (toOption_of_isBlocked nested_wellNamed [".js", "Js"] ⟨given, hMem, hBad⟩)
  obtain ⟨sources, hFind, _, hSources, _⟩ :=
    (find_exact nested_wellNamed nestedPaths 1 [".js", "Js"]).1 hFree
  cases hResult.symm.trans (congrArg Logged.result hFind)
  exact ⟨nested_wellNamed, hFree, by decide +kernel, hSources⟩

/-- A path that leads nowhere need not be told in a warning: beside one with too long a name, not even
a given file is found. -/
theorem find_long_name :
    (nested.at? (.ofText (List.replicate 256 'n'))).isNone = true ∧
      IsSource nested 0 ["js"] (.ofText "x.txt") "x.txt" ∧
      (find nested [.str "x.txt", .str (List.replicate 256 'n')] (.int 0) [.str "js"]).messages = [] ∧
      (find nested [.str "x.txt", .str (List.replicate 256 'n')] (.int 0) [.str "js"]).result =
        .error (.files .nameTooLong) := by
  refine ⟨by decide +kernel, ?_, by decide +kernel, by decide +kernel⟩
  exact .itself (by rfl)

end ScriptDoc.Sources
