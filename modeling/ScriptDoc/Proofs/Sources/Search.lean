import ScriptDoc.Sources
import ScriptDoc.Proofs.FileTree.Places
import ScriptDoc.Proofs.Path.NormalForm
import ScriptDoc.Proofs.Text.Order

/-! The search of directories. A search sees the entries of a directory, and what it sees in the
directories among them as far as its depth allows. It finds the wanted files among what it sees,
unless it meets something on the way that ends it: too long a path, or more directories in each
other than there is room for. In a tree with proper names, what is seen is what stands at the places
below, and the depth bounds how many directories lie between. -/
namespace ScriptDoc

namespace FileTree

/-- The names of a directory can stand in a path, each stands for one entry, and so on below. -/
inductive Node.WellNamed : Node → Prop
  | file (content : Content) : WellNamed (.file content)
  | directory {entries : List (Text × Node)} (nodup : (entries.map Prod.fst).Nodup)
      (parts : ∀ entry ∈ entries, Path.IsPart entry.1)
      (inner : ∀ entry ∈ entries, WellNamed entry.2) : WellNamed (.directory entries)

/-- All directories of a tree have proper names in them. -/
def WellNamed (t : FileTree) : Prop :=
  (Node.directory t.root).WellNamed

variable {t : FileTree} {entries : List (Text × Node)} {node other : Node} {name : Text}
variable {place : Place}

/-- The names that lead to something can stand in a path, and what is there is well named too. -/
theorem Node.WellNamed.of_below? (h : node.WellNamed) (hBelow : node.below? place = some other) :
    other.WellNamed ∧ ∀ name ∈ place, Path.IsPart name := by
  induction h generalizing place with
  | file content =>
      cases place with
      | nil =>
          cases hBelow
          exact ⟨.file content, List.forall_mem_nil _⟩
      | cons name place => cases hBelow
  | directory nodup parts inner ih =>
      cases place with
      | nil =>
          cases hBelow
          exact ⟨.directory nodup parts inner, List.forall_mem_nil _⟩
      | cons name place =>
          rw [Node.below?_directory] at hBelow
          obtain ⟨entry, hEntry, hLater⟩ := exists_lookup_of_nodeIn? hBelow
          obtain ⟨hOther, hPlace⟩ := ih _ (Text.mem_of_lookup hEntry) hLater
          exact ⟨hOther, List.forall_mem_cons.mpr ⟨parts _ (Text.mem_of_lookup hEntry), hPlace⟩⟩

/-- What stands in a well named tree is well named. -/
theorem WellNamed.node? (h : t.WellNamed) (hNode : t.node? place = some node) : node.WellNamed := by
  rw [FileTree.node?, ← Node.below?_directory] at hNode
  exact (Node.WellNamed.of_below? h hNode).1

theorem WellNamed.at? (h : t.WellNamed) {p : Path} (hAt : t.at? p = some (place, node)) :
    node.WellNamed :=
  h.node? (locate_of_look (look_of_at? hAt)).2

end FileTree

namespace Sources

open FileTree (Node)

/-- What a search sees from an entry on: the entry itself, and more in a directory that it enters. -/
inductive Sees : Depth → Path → Node → Path → Node → Prop
  | here (depth : Depth) (p : Path) (node : Node) : Sees depth p node p node
  | inside {depth left : Depth} {p q : Path} {entries : List (Text × Node)} {name : Text}
      {node target : Node} (enters : depth.below? = .ok (some left)) (mem : (name, node) ∈ entries)
      (sees : Sees left (p.child name) node q target) : Sees depth p (.directory entries) q target

/-- What can end a search from an entry on, with room for so many directories in each other. -/
inductive Meets : Depth → Nat → Path → Node → Error → Prop
  | long {depth : Depth} {room : Nat} {p : Path} {node : Node} (long : isTooLong p = true) :
      Meets depth room p node (.files .nameTooLong)
  | unknown {depth : Depth} {room : Nat} {p : Path} {entries : List (Text × Node)} {e : Error}
      (fails : depth.below? = .error e) : Meets depth room p (.directory entries) e
  | full {depth left : Depth} {p : Path} {entries : List (Text × Node)}
      (enters : depth.below? = .ok (some left)) : Meets depth 0 p (.directory entries) .tooDeep
  | inside {depth left : Depth} {room : Nat} {p : Path} {entries : List (Text × Node)} {name : Text}
      {node : Node} {e : Error} (enters : depth.below? = .ok (some left))
      (mem : (name, node) ∈ entries) (meets : Meets left room (p.child name) node e) :
      Meets depth (room + 1) p (.directory entries) e

/-- What a search sees in a directory. -/
def SeesIn (depth : Depth) (p : Path) (entries : List (Text × Node)) (q : Path) (target : Node) :
    Prop :=
  ∃ entry ∈ entries, Sees depth (p.child entry.1) entry.2 q target

/-- What can end the search of a directory. -/
def MeetsIn (depth : Depth) (room : Nat) (p : Path) (entries : List (Text × Node)) (e : Error) : Prop :=
  ∃ entry ∈ entries, Meets depth room (p.child entry.1) entry.2 e

/-- The outcome of a search: something that it meets ends it, or it meets nothing of this kind and
finds the wanted files that it sees. -/
inductive Finds (extensions : List Text) (seen : Path → Node → Prop) (met : Error → Prop) :
    Except Error (List Text) → Prop
  | ended {e : Error} (meets : met e) : Finds extensions seen met (.error e)
  | found {all : List Text} (free : ∀ e, ¬ met e)
      (mem_iff : ∀ s, s ∈ all ↔
        ∃ q content, seen q (.file content) ∧ isWanted extensions q = true ∧ s = q.toText) :
      Finds extensions seen met (.ok all)

variable {extensions : List Text} {depth left : Depth} {room : Nat} {p q : Path}
variable {node target : Node} {entries : List (Text × Node)} {name : Text}

/-! Results under names, together. -/

/-- Together there is a failure if one of the results is, and else all that is in some result. -/
theorem joined_spec (found : List (Text × Except Error (List Text))) :
    match joined found with
    | .error e => ∃ entry ∈ found, entry.2 = .error e
    | .ok all => (∀ entry ∈ found, ∃ part, entry.2 = .ok part) ∧
        ∀ s, s ∈ all ↔ ∃ entry ∈ found, ∃ part, entry.2 = .ok part ∧ s ∈ part := by
  simp only [← (Text.ascendingBy_perm Prod.fst found).mem_iff, joined]
  induction Text.ascendingBy Prod.fst found with
  | nil => simp
  | cons entry rest ih =>
      rw [List.foldr_cons]
      cases hFirst : entry.2 with
      | error e => exact ⟨entry, List.mem_cons_self, hFirst⟩
      | ok first =>
          revert ih
          cases rest.foldr (fun entry others => do return (← entry.2) ++ (← others)) (.ok []) with
          | error e =>
              rintro ⟨other, hMem, hOther⟩
              exact ⟨other, List.mem_cons_of_mem _ hMem, hOther⟩
          | ok others =>
              rintro ⟨hOk, hMem⟩
              refine ⟨List.forall_mem_cons.mpr ⟨⟨first, hFirst⟩, hOk⟩, fun s => ?_⟩
              simp [hMem, hFirst]

/-- The entries of a directory, each with its outcome, make up the outcome of the directory. -/
theorem Finds.joined {seen : Text × Node → Path → Node → Prop} {met : Text × Node → Error → Prop}
    {result : Text × Node → Except Error (List Text)}
    (h : ∀ entry ∈ entries, Finds extensions (seen entry) (met entry) (result entry)) :
    Finds extensions (fun q target => ∃ entry ∈ entries, seen entry q target)
      (fun e => ∃ entry ∈ entries, met entry e)
      (joined (entries.map fun entry => (entry.1, result entry))) := by
  have hJoined := joined_spec (entries.map fun entry => (entry.1, result entry))
  revert hJoined
  cases Sources.joined (entries.map fun entry => (entry.1, result entry)) with
  | error e =>
      rintro ⟨found, hFound, hError⟩
      obtain ⟨entry, hMem, rfl⟩ := List.mem_map.mp hFound
      have hEntry := h entry hMem
      rw [show result entry = .error e from hError] at hEntry
      cases hEntry with
      | ended hMeets => exact .ended ⟨entry, hMem, hMeets⟩
  | ok all =>
      rintro ⟨hOk, hAll⟩
      have hEntries : ∀ entry ∈ entries, ∃ part, result entry = .ok part ∧ (∀ e, ¬ met entry e) ∧
          ∀ s, s ∈ part ↔ ∃ q content, seen entry q (.file content) ∧
            isWanted extensions q = true ∧ s = q.toText := by
        intro entry hMem
        obtain ⟨part, hPart⟩ := hOk _ (List.mem_map_of_mem hMem)
        have hEntry := h entry hMem
        rw [show result entry = .ok part from hPart] at hEntry
        cases hEntry with
        | found hFree hFound => exact ⟨part, hPart, hFree, hFound⟩
      refine .found ?_ fun s => ?_
      · rintro e ⟨entry, hMem, hMeets⟩
        obtain ⟨_, _, hFree, _⟩ := hEntries entry hMem
        exact hFree e hMeets
      · rw [hAll]
        constructor
        · rintro ⟨found, hFound, part, hPart, hIn⟩
          obtain ⟨entry, hMem, rfl⟩ := List.mem_map.mp hFound
          obtain ⟨_, hOther, _, hIff⟩ := hEntries entry hMem
          cases hPart.symm.trans hOther
          obtain ⟨q, content, hSeen, hWanted, rfl⟩ := (hIff s).mp hIn
          exact ⟨q, content, ⟨entry, hMem, hSeen⟩, hWanted, rfl⟩
        · rintro ⟨q, content, ⟨entry, hMem, hSeen⟩, hWanted, rfl⟩
          obtain ⟨part, hPart, _, hIff⟩ := hEntries entry hMem
          exact ⟨_, List.mem_map_of_mem hMem, part, hPart,
            (hIff _).mpr ⟨q, content, hSeen, hWanted, rfl⟩⟩

/-! The search, entry by entry. -/

/-- What comes of one entry of a directory. -/
def atEntry (extensions : List Text) (depth : Depth) (room : Nat) (p : Path) (entry : Text × Node) :
    Except Error (List Text) :=
  if isTooLong (p.child entry.1) then .error (.files .nameTooLong)
  else atNode extensions depth room (p.child entry.1) entry.2

theorem atEntries_eq_map (extensions : List Text) (depth : Depth) (room : Nat) (p : Path)
    (entries : List (Text × Node)) :
    atEntries extensions depth room p entries =
      entries.map fun entry => (entry.1, atEntry extensions depth room p entry) := by
  induction entries with
  | nil => rw [atEntries, List.map_nil]
  | cons entry entries ih =>
      rw [atEntries, ih, List.map_cons]
      rfl

/-- A file yields itself if it is wanted. -/
theorem finds_file (hLength : isTooLong p = false) (content : FileTree.Content) :
    Finds extensions (Sees depth p (.file content)) (Meets depth room p (.file content))
      (.ok (if isWanted extensions p then [p.toText] else [])) := by
  refine .found ?_ fun s => ?_
  · rintro e ⟨hLong⟩
    cases hLength.symm.trans hLong
  · have hSees : ∀ q other, Sees depth p (.file content) q (.file other) ↔ q = p ∧ other = content := by
      intro q other
      constructor
      · rintro ⟨⟩
        exact ⟨rfl, rfl⟩
      · rintro ⟨rfl, rfl⟩
        exact .here _ _ _
    cases hWanted : isWanted extensions p with
    | false => simp [hSees, hWanted]
    | true => simp [hSees, hWanted]

/-- A directory that is not entered yields nothing. -/
theorem finds_closed (hLength : isTooLong p = false) (hClosed : depth.below? = .ok none) :
    Finds extensions (Sees depth p (.directory entries)) (Meets depth room p (.directory entries))
      (.ok []) := by
  refine .found ?_ fun s => iff_of_false List.not_mem_nil ?_
  · rintro e (hLong | hFails | hEnters | ⟨hEnters, _, _⟩)
    · cases hLength.symm.trans hLong
    · cases hClosed.symm.trans hFails
    · cases hClosed.symm.trans hEnters
    · cases hClosed.symm.trans hEnters
  · rintro ⟨q, content, _ | ⟨hEnters, _, _⟩, _⟩
    cases hClosed.symm.trans hEnters

/-- A directory that is entered yields what is in it. -/
theorem Finds.directory {result : Except Error (List Text)}
    (h : Finds extensions (SeesIn left p entries) (MeetsIn left room p entries) result)
    (hLength : isTooLong p = false) (hEnters : depth.below? = .ok (some left)) :
    Finds extensions (Sees depth p (.directory entries))
      (Meets depth (room + 1) p (.directory entries)) result := by
  cases h with
  | ended hMeets =>
      obtain ⟨entry, hMem, hMeets⟩ := hMeets
      exact .ended (.inside hEnters hMem hMeets)
  | found hFree hFound =>
      refine .found ?_ fun s => (hFound s).trans ?_
      · rintro e (hLong | hFails | _ | ⟨hEnters', hMem, hMeets⟩)
        · cases hLength.symm.trans hLong
        · cases hEnters.symm.trans hFails
        · cases hEnters.symm.trans hEnters'
          exact hFree e ⟨_, hMem, hMeets⟩
      · constructor
        · rintro ⟨q, content, ⟨entry, hMem, hSees⟩, hRest⟩
          exact ⟨q, content, .inside hEnters hMem hSees, hRest⟩
        · rintro ⟨q, content, _ | ⟨hEnters', hMem, hSees⟩, hRest⟩
          cases hEnters.symm.trans hEnters'
          exact ⟨q, content, ⟨_, hMem, hSees⟩, hRest⟩

mutual

/-- The search of a node comes to what it meets or sees from there on. The recursion goes through
the entries of directories. -/
theorem atNode_finds (extensions : List Text) (depth : Depth) (room : Nat) {p : Path}
    (hLength : isTooLong p = false) :
    ∀ node, Finds extensions (Sees depth p node) (Meets depth room p node)
      (atNode extensions depth room p node)
  | .file content => by
      rw [atNode]
      exact finds_file hLength content
  | .directory entries => by
      unfold atNode
      split
      · next e hFails => exact .ended (.unknown hFails)
      · next hClosed => exact finds_closed hLength hClosed
      · next left hEnters => exact .ended (.full hEnters)
      · next left room hEnters =>
          rw [atEntries_eq_map]
          exact (Finds.joined (atEntry_finds extensions left room p entries)).directory hLength hEnters

theorem atEntry_finds (extensions : List Text) (depth : Depth) (room : Nat) (p : Path) :
    ∀ entries : List (Text × Node), ∀ entry ∈ entries,
      Finds extensions (Sees depth (p.child entry.1) entry.2) (Meets depth room (p.child entry.1) entry.2)
        (atEntry extensions depth room p entry)
  | [], _, hMem => nomatch hMem
  | (name, node) :: rest, entry, hMem => by
      rcases List.mem_cons.mp hMem with rfl | hRest
      · unfold atEntry
        split
        · next hLong => exact .ended (.long hLong)
        · next hShort =>
            exact atNode_finds extensions depth room (Bool.eq_false_iff.mpr hShort) node
      · exact atEntry_finds extensions depth room p rest entry hRest

end

/-- The search of a given directory comes to what it meets or sees there. -/
theorem inDirectory_finds (extensions : List Text) (depth : Depth) (p : Path)
    (entries : List (Text × Node)) :
    Finds extensions (SeesIn depth p entries) (MeetsIn depth maxNested p entries)
      (inDirectory extensions depth p entries) := by
  rw [inDirectory, atEntries_eq_map]
  exact .joined (atEntry_finds extensions depth maxNested p entries)

/-! What is seen and met, by its place. -/

/-- The depth reaches what lies in that many directories below the searched one. -/
def Depth.Covers : Depth → Nat → Prop
  | .levels n, m => m ≤ n
  | .unlimited, _ => True
  | .unknown, m => m = 0

theorem Depth.covers_zero (depth : Depth) : depth.Covers 0 := by
  cases depth with
  | levels n => exact Nat.zero_le n
  | unlimited => trivial
  | unknown => rfl

/-- A directory deeper is covered if the directory is entered with one level less. -/
theorem Depth.covers_succ_iff {m : Nat} :
    depth.Covers (m + 1) ↔ ∃ left, depth.below? = .ok (some left) ∧ left.Covers m := by
  cases depth with
  | unlimited => simp [Covers, below?]
  | unknown => simp [Covers, below?]
  | levels n =>
      cases n with
      | zero => simp [Covers, below?]
      | succ n => simp [Covers, below?]

theorem below?_of_lookup (hEntry : entries.lookup name = some node) (place : FileTree.Place) :
    (Node.directory entries).below? (name :: place) = node.below? place := by
  rw [Node.below?_directory, FileTree.nodeIn?_cons, hEntry]
  rfl

/-- What is seen from a node on stands at a place below it that the depth covers. -/
theorem sees_iff (h : node.WellNamed) :
    Sees depth p node q target ↔
      ∃ place, depth.Covers place.length ∧ node.below? place = some target ∧ q = p.below place := by
  constructor
  · intro hSees
    induction hSees with
    | here depth p node => exact ⟨[], depth.covers_zero, rfl, (p.below_nil).symm⟩
    | inside hEnters hMem _ ih =>
        cases h with
        | directory nodup parts inner =>
            obtain ⟨place, hCovers, hBelow, rfl⟩ := ih (inner _ hMem)
            refine ⟨_ :: place, Depth.covers_succ_iff.mpr ⟨_, hEnters, hCovers⟩, ?_,
              (Path.below_cons _ _ place).symm⟩
            rwa [below?_of_lookup (Text.lookup_of_mem nodup hMem)]
  · rintro ⟨place, hCovers, hBelow, rfl⟩
    induction place generalizing depth p node with
    | nil =>
        cases hBelow
        rw [Path.below_nil]
        exact .here _ _ _
    | cons name place ih =>
        cases h with
        | file content => cases hBelow
        | directory nodup parts inner =>
            rw [Node.below?_directory] at hBelow
            obtain ⟨entry, hEntry, hLater⟩ := FileTree.exists_lookup_of_nodeIn? hBelow
            obtain ⟨left, hEnters, hLeft⟩ := Depth.covers_succ_iff.mp hCovers
            have hMem := Text.mem_of_lookup hEntry
            rw [Path.below_cons]
            exact .inside hEnters hMem (ih (inner _ hMem) hLeft hLater)

/-- A place below a directory ends in a name, behind as many names as there are directories between. -/
theorem exists_concat_eq_cons (name : Text) (place : FileTree.Place) :
    ∃ levels last, name :: place = levels ++ [last] ∧ levels.length = place.length :=
  ⟨_, _, (List.dropLast_append_getLast (List.cons_ne_nil name place)).symm, by simp⟩

theorem exists_cons_eq_concat (levels : FileTree.Place) (last : Text) :
    ∃ name place, levels ++ [last] = name :: place ∧ levels.length = place.length := by
  cases levels with
  | nil => exact ⟨last, [], rfl, rfl⟩
  | cons name levels => exact ⟨name, levels ++ [last], rfl, by simp⟩

/-- A search sees what stands at a place below the directory, as far as its depth covers the
directories in between. -/
theorem seesIn_iff (h : (Node.directory entries).WellNamed) :
    SeesIn depth p entries q target ↔
      ∃ levels name, depth.Covers (List.length levels) ∧
        FileTree.nodeIn? entries (levels ++ [name]) = some target ∧
        q = p.below (levels ++ [name]) := by
  cases h with
  | directory nodup parts inner =>
      constructor
      · rintro ⟨⟨name, node⟩, hMem, hSees⟩
        obtain ⟨place, hCovers, hBelow, rfl⟩ := (sees_iff (inner _ hMem)).mp hSees
        obtain ⟨levels, last, hPlace, hLength⟩ := exists_concat_eq_cons name place
        refine ⟨levels, last, hLength ▸ hCovers, ?_, ?_⟩
        · rwa [← hPlace, ← Node.below?_directory, below?_of_lookup (Text.lookup_of_mem nodup hMem)]
        · rw [← hPlace, Path.below_cons]
      · rintro ⟨levels, last, hCovers, hBelow, rfl⟩
        obtain ⟨name, place, hPlace, hLength⟩ := exists_cons_eq_concat levels last
        rw [hPlace] at hBelow
        obtain ⟨node, hEntry, hLater⟩ := FileTree.exists_lookup_of_nodeIn? hBelow
        have hMem := Text.mem_of_lookup hEntry
        refine ⟨(name, node), hMem, (sees_iff (inner _ hMem)).mpr ⟨place, hLength ▸ hCovers, hLater, ?_⟩⟩
        rw [hPlace, Path.below_cons]

/-- What ends a search from an entry on, by its place below the entry: too long a path of something
that is seen, or a directory that is to be entered when there is no room left. -/
inductive MeetsAt (n room : Nat) (p : Path) (node : Node) : Error → Prop
  | long (place : FileTree.Place) {target : Node} (depth : place.length ≤ n)
      (fits : place.length ≤ room) (below : node.below? place = some target)
      (long : isTooLong (p.below place) = true) : MeetsAt n room p node (.files .nameTooLong)
  | full (place : FileTree.Place) {entries : List (Text × Node)} (depth : place.length < n)
      (fits : place.length = room) (below : node.below? place = some (.directory entries)) :
      MeetsAt n room p node .tooDeep

variable {n : Nat} {e : Error} {place : FileTree.Place}

theorem Depth.below?_levels_iff :
    (Depth.levels n).below? = .ok (some left) ↔ ∃ m, n = m + 1 ∧ left = .levels m := by
  cases n with
  | zero => simp [Depth.below?]
  | succ n => simp [Depth.below?, eq_comm]

/-- What is met below an entry is met one level further down from its directory. -/
theorem MeetsAt.inside (h : MeetsAt n room (p.child name) node e)
    (hEntry : entries.lookup name = some node) :
    MeetsAt (n + 1) (room + 1) p (.directory entries) e := by
  cases h with
  | long place hDepth hFits hBelow hLong =>
      rw [← Path.below_cons] at hLong
      rw [← below?_of_lookup hEntry] at hBelow
      exact .long (name :: place) (Nat.succ_le_succ hDepth) (Nat.succ_le_succ hFits) hBelow hLong
  | full place hDepth hFits hBelow =>
      rw [← below?_of_lookup hEntry] at hBelow
      exact .full (name :: place) (Nat.succ_lt_succ hDepth) (congrArg (· + 1) hFits) hBelow

/-- What is met below an entry is met from the entry on. -/
theorem Meets.of_below (hBelow : node.below? place = some target) (hDepth : place.length ≤ n)
    (hFits : place.length ≤ room)
    (h : Meets (.levels (n - place.length)) (room - place.length) (p.below place) target e) :
    Meets (.levels n) room p node e := by
  induction place generalizing n room p node with
  | nil =>
      cases hBelow
      rwa [Path.below_nil] at h
  | cons name place ih =>
      obtain ⟨m, rfl⟩ := Nat.exists_eq_add_one_of_ne_zero (Nat.ne_zero_of_lt hDepth)
      obtain ⟨less, rfl⟩ := Nat.exists_eq_add_one_of_ne_zero (Nat.ne_zero_of_lt hFits)
      rw [List.length_cons, Nat.add_sub_add_right, Nat.add_sub_add_right, Path.below_cons] at h
      cases node with
      | file content => cases hBelow
      | directory entries =>
          rw [Node.below?_directory] at hBelow
          obtain ⟨node, hEntry, hLater⟩ := FileTree.exists_lookup_of_nodeIn? hBelow
          exact .inside rfl (Text.mem_of_lookup hEntry)
            (ih hLater (Nat.le_of_succ_le_succ hDepth) (Nat.le_of_succ_le_succ hFits) h)

/-- What ends a search is found at a place. The first part goes by induction on how it is met. -/
theorem meets_levels_iff (h : node.WellNamed) :
    Meets (.levels n) room p node e ↔ MeetsAt n room p node e := by
  constructor
  · intro hMeets
    generalize hDepth : Depth.levels n = depth at hMeets
    induction hMeets generalizing n with
    | @long depth room p node hLong =>
        rw [← p.below_nil] at hLong
        exact .long [] (Nat.zero_le n) (Nat.zero_le _) rfl hLong
    | unknown hFails =>
        subst hDepth
        cases n <;> cases hFails
    | full hEnters =>
        subst hDepth
        obtain ⟨m, rfl, rfl⟩ := Depth.below?_levels_iff.mp hEnters
        exact .full [] m.succ_pos rfl rfl
    | inside hEnters hMem _ ih =>
        subst hDepth
        obtain ⟨m, rfl, rfl⟩ := Depth.below?_levels_iff.mp hEnters
        cases h with
        | directory nodup parts inner =>
            exact (ih (inner _ hMem) rfl).inside (Text.lookup_of_mem nodup hMem)
  · intro hAt
    cases hAt with
    | long place hDepth hFits hBelow hLong => exact .of_below hBelow hDepth hFits (.long hLong)
    | full place hDepth hFits hBelow =>
        refine .of_below hBelow hDepth.le hFits.le ?_
        rw [hFits, Nat.sub_self]
        exact .full (Depth.below?_levels_iff.mpr ⟨n - room - 1, by omega, rfl⟩)

/-- What ends the search of a directory, by its place below: too long a path, or a directory that is to be
entered behind more directories than there is room for. -/
theorem meetsIn_levels_iff (h : (Node.directory entries).WellNamed) :
    MeetsIn (.levels n) room p entries e ↔
      (e = .files .nameTooLong ∧ ∃ levels name node, List.length levels ≤ n ∧ levels.length ≤ room ∧
        FileTree.nodeIn? entries (levels ++ [name]) = some node ∧
        isTooLong (p.below (levels ++ [name])) = true) ∨
      (e = .tooDeep ∧ ∃ levels inner, List.length levels ≤ n ∧ levels.length = room + 1 ∧
        FileTree.nodeIn? entries levels = some (.directory inner)) := by
  cases h with
  | directory nodup parts inner =>
      constructor
      · rintro ⟨⟨name, node⟩, hMem, hMeets⟩
        have hEntry := Text.lookup_of_mem nodup hMem
        cases (meets_levels_iff (inner _ hMem)).mp hMeets with
        | long place hDepth hFits hBelow hLong =>
            obtain ⟨levels, last, hPlace, hLength⟩ := exists_concat_eq_cons name place
            rw [← below?_of_lookup hEntry, Node.below?_directory, hPlace] at hBelow
            rw [← Path.below_cons, hPlace] at hLong
            rw [← hLength] at hDepth hFits
            exact .inl ⟨rfl, levels, last, _, hDepth, hFits, hBelow, hLong⟩
        | full place hDepth hFits hBelow =>
            rw [← below?_of_lookup hEntry, Node.below?_directory] at hBelow
            exact .inr ⟨rfl, name :: place, _, hDepth, congrArg (· + 1) hFits, hBelow⟩
      · rintro (⟨rfl, levels, last, target, hDepth, hFits, hBelow, hLong⟩ |
          ⟨rfl, levels, found, hDepth, hFits, hBelow⟩)
        · obtain ⟨name, place, hPlace, hLength⟩ := exists_cons_eq_concat levels last
          rw [hPlace] at hBelow
          obtain ⟨node, hEntry, hLater⟩ := FileTree.exists_lookup_of_nodeIn? hBelow
          have hMem := Text.mem_of_lookup hEntry
          rw [hPlace, Path.below_cons] at hLong
          rw [hLength] at hDepth hFits
          exact ⟨(name, node), hMem,
            (meets_levels_iff (inner _ hMem)).mpr (.long place hDepth hFits hLater hLong)⟩
        · cases levels with
          | nil => cases hFits
          | cons name place =>
              obtain ⟨node, hEntry, hLater⟩ := FileTree.exists_lookup_of_nodeIn? hBelow
              have hMem := Text.mem_of_lookup hEntry
              exact ⟨(name, node), hMem, (meets_levels_iff (inner _ hMem)).mpr
                (.full place hDepth (Nat.succ.inj hFits) hLater)⟩

end Sources

end ScriptDoc
