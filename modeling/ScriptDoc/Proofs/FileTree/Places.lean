import ScriptDoc.FileTree
import ScriptDoc.Proofs.Text.Entries

/-! What stands where. A tree is known by what stands at its places: nothing, a directory, or a file
with what it holds. Whatever is put into a directory changes what stands at its own place and below,
and nothing else. -/
namespace ScriptDoc.FileTree

/-- What stands at a place below a node. -/
def Node.below? : Node → Place → Option Node
  | node, [] => some node
  | .file _, _ :: _ => none
  | .directory entries, name :: rest => nodeIn? entries (name :: rest)

/-- What stands at a place below a directory: nothing, a directory, or a file and what it holds. -/
def standingIn (entries : List (Text × Node)) (place : Place) : Option (Option Content) :=
  (nodeIn? entries place).map Node.content?

/-- What stands at a place: nothing, a directory, or a file and what it holds. -/
def standing (t : FileTree) (place : Place) : Option (Option Content) :=
  (t.node? place).map Node.content?

/-- A directory stands at the place. -/
def IsDirectory (t : FileTree) (place : Place) : Prop :=
  t.standing place = some none

variable {t : FileTree} {entries inner : List (Text × Node)} {node : Node} {name : Text}
variable {place rest other : Place}

/-! Looking a place up. -/

theorem Node.below?_directory (entries : List (Text × Node)) (place : Place) :
    (Node.directory entries).below? place = nodeIn? entries place := by
  cases place <;> rfl

theorem nodeIn?_nil_cons (name : Text) (rest : Place) : nodeIn? [] (name :: rest) = none := by
  induction rest generalizing name with
  | nil => rfl
  | cons second rest ih => exact ih second

/-- The first name of a place leads to an entry, the others go on below it. -/
theorem nodeIn?_cons (entries : List (Text × Node)) (name : Text) (rest : Place) :
    nodeIn? entries (name :: rest) = (entries.lookup name).bind (·.below? rest) := by
  cases rest with
  | nil =>
      rw [nodeIn?]
      cases entries.lookup name <;> rfl
  | cons second rest =>
      rw [nodeIn?, entriesOf]
      · cases entries.lookup name with
        | none => exact nodeIn?_nil_cons second rest
        | some node =>
            cases node with
            | file content => exact nodeIn?_nil_cons second rest
            | directory inner => rfl
      · exact nofun

/-- What stands below a directory stands below one of its entries. -/
theorem exists_lookup_of_nodeIn? (h : nodeIn? entries (name :: rest) = some node) :
    ∃ entry, entries.lookup name = some entry ∧ entry.below? rest = some node := by
  rwa [nodeIn?_cons, Option.bind_eq_some_iff] at h

/-- A place is looked up in two parts. -/
theorem nodeIn?_append (entries : List (Text × Node)) (place rest : Place) :
    nodeIn? entries (place ++ rest) = (nodeIn? entries place).bind (·.below? rest) := by
  induction place generalizing entries with
  | nil => exact (Node.below?_directory entries rest).symm
  | cons name place ih =>
      rw [List.cons_append, nodeIn?_cons, nodeIn?_cons]
      cases entries.lookup name with
      | none => rfl
      | some node =>
          cases node with
          | directory inner =>
              simp only [Option.bind_some, Node.below?_directory]
              exact ih inner
          | file content =>
              cases place with
              | nil => rfl
              | cons second place => rfl

theorem standingIn_cons (entries : List (Text × Node)) (name : Text) (rest : Place) :
    standingIn entries (name :: rest) =
      ((entries.lookup name).bind (·.below? rest)).map Node.content? := by
  rw [standingIn, nodeIn?_cons]

theorem exists_entries_of_content? (h : (some node).map Node.content? = some none) :
    ∃ entries, node = .directory entries := by
  cases node with
  | file content => cases h
  | directory entries => exact ⟨entries, rfl⟩

/-- Every place on the way to a directory is one. -/
theorem exists_directory_of_cons (h : standingIn entries (name :: rest) = some none) :
    ∃ inner, entries.lookup name = some (.directory inner) ∧ standingIn inner rest = some none := by
  rw [standingIn_cons] at h
  cases hNode : entries.lookup name with
  | none =>
      rw [hNode] at h
      cases h
  | some node =>
      rw [hNode] at h
      cases node with
      | directory inner =>
          rw [Option.bind_some, Node.below?_directory] at h
          exact ⟨inner, rfl, h⟩
      | file content => cases rest <;> cases h

/-- A place is a directory exactly if its node has entries. -/
theorem isDirectory_iff : t.IsDirectory place ↔ ∃ entries, t.node? place = some (.directory entries) := by
  constructor
  · intro h
    cases hNode : t.node? place with
    | none => simp [IsDirectory, standing, hNode] at h
    | some node =>
        rw [IsDirectory, standing, hNode] at h
        obtain ⟨entries, rfl⟩ := exists_entries_of_content? h
        exact ⟨entries, rfl⟩
  · rintro ⟨entries, hNode⟩
    rw [IsDirectory, standing, hNode]
    rfl

/-- Only directories have anything below them. -/
theorem isDirectory_of_append (h : t.standing (place ++ name :: rest) ≠ none) : t.IsDirectory place := by
  rw [standing, node?, nodeIn?_append] at h
  apply isDirectory_iff.mpr
  change ∃ entries, nodeIn? t.root place = some (.directory entries)
  cases hNode : nodeIn? t.root place with
  | none => simp [hNode] at h
  | some node =>
      cases node with
      | directory entries => exact ⟨entries, rfl⟩
      | file content => simp [hNode, Node.below?] at h

theorem standing_append_of_not_isDirectory (h : ¬ t.IsDirectory place) (name : Text) (rest : Place) :
    t.standing (place ++ name :: rest) = none :=
  Classical.byContradiction fun hSome => h (isDirectory_of_append hSome)

theorem node?_of_standing {content : Content} (h : t.standing place = some (some content)) :
    t.node? place = some (.file content) := by
  rw [standing, Option.map_eq_some_iff] at h
  obtain ⟨node, hNode, hContent⟩ := h
  cases node with
  | directory entries => cases hContent
  | file other =>
      cases hContent
      exact hNode

/-! Changing what stands at a place. -/

theorem entriesOf_of_lookup (h : entries.lookup name = some (.directory inner)) :
    entriesOf name entries = inner := by
  rw [entriesOf, h]
  rfl

section Changes

variable (change : List (Text × Node) → Place → List (Text × Node))
variable (hLast : ∀ entries name key, key ≠ name →
  (change entries [name]).lookup key = entries.lookup key)
variable (hInner : ∀ entries name rest, rest ≠ [] → change entries (name :: rest) =
  Text.putEntry name (.directory (change (entriesOf name entries) rest)) entries)

include hLast hInner

/-- A change at a place, made on the way back from it, changes nothing that does not stand there or
below, if the place lies in a directory. -/
theorem standingIn_change (hParent : standingIn entries place.dropLast = some none)
    (hNot : ¬ place <+: other) : standingIn (change entries place) other = standingIn entries other := by
  induction place generalizing entries other with
  | nil => exact absurd (List.nil_prefix) hNot
  | cons name place ih =>
      cases other with
      | nil => rfl
      | cons key other =>
          rw [standingIn_cons, standingIn_cons]
          cases place with
          | nil =>
              have hKey : key ≠ name := by
                rintro rfl
                exact hNot ⟨other, rfl⟩
              rw [hLast _ _ _ hKey]
          | cons second place =>
              obtain ⟨inner, hEntry, hInside⟩ := exists_directory_of_cons hParent
              rw [hInner _ _ _ (List.cons_ne_nil _ _), entriesOf_of_lookup hEntry, Text.lookup_putEntry]
              by_cases hKey : key = name
              · subst hKey
                have hBelow : ¬ second :: place <+: other := fun h => hNot ((List.prefix_cons_inj key).mpr h)
                rw [if_pos rfl, hEntry, Option.bind_some, Option.bind_some, Node.below?_directory,
                  Node.below?_directory]
                exact ih hInside hBelow
              · rw [if_neg hKey]

end Changes

/-- What is put at a place changes nothing elsewhere. -/
theorem standing_put (hParent : t.IsDirectory place.dropLast) (hNot : ¬ place <+: other) (node : Node) :
    (t.put place node).standing other = t.standing other := by
  apply standingIn_change (putIn node) _ _ hParent hNot
  · intro entries name key hKey
    rw [putIn, Text.lookup_putEntry, if_neg hKey]
  · intro entries name rest hRest
    rw [putIn]
    exact hRest

/-- What is put at a place stands there. -/
theorem nodeIn?_putIn (hPlace : place ≠ []) (node : Node) (entries : List (Text × Node)) :
    nodeIn? (putIn node entries place) place = some node := by
  induction place generalizing entries with
  | nil => exact absurd rfl hPlace
  | cons name place ih =>
      cases place with
      | nil => rw [putIn, nodeIn?_cons, Text.lookup_putEntry, if_pos rfl, Option.bind_some, Node.below?]
      | cons second place =>
          rw [putIn, nodeIn?_cons, Text.lookup_putEntry, if_pos rfl, Option.bind_some, Node.below?_directory]
          · exact ih (List.cons_ne_nil _ _) _
          · exact List.cons_ne_nil _ _

theorem node?_put (hPlace : place ≠ []) (node : Node) : (t.put place node).node? place = some node :=
  nodeIn?_putIn hPlace node t.root

theorem target_child (t : FileTree) (directory : Path) (name : Text) :
    t.target (directory.child name) = stepFrom (t.target directory) name := by
  rw [target, Path.child, List.foldl_append]
  rfl

/-- A path that can be followed leads where its parts lead one by one. -/
theorem eq_foldl_of_follow {parts : List Text} (h : t.follow place parts = .ok other) :
    other = parts.foldl stepFrom place := by
  induction parts generalizing place with
  | nil =>
      cases h
      rfl
  | cons part parts ih =>
      rw [follow] at h
      split at h
      · cases h
      · cases h
      · split at h
        · cases h
        · exact ih h

theorem eq_target_of_locate {p : Path} (h : t.locate p = .ok place) : place = t.target p :=
  eq_foldl_of_follow h

/-- The last part is followed from where the others lead. -/
theorem follow_concat {parts : List Text} (h : t.follow place parts = .ok other) (part : Text) :
    t.follow place (parts ++ [part]) = t.follow other [part] := by
  induction parts generalizing place with
  | nil =>
      cases h
      rfl
  | cons first parts ih =>
      rw [follow] at h
      rw [List.cons_append, follow]
      split at h
      · cases h
      · cases h
      · next hNode =>
          split at h
          · cases h
          · next hShort =>
              simp only [hShort, ↓reduceIte]
              exact ih h

/-- From a directory, the path of an entry leads one step further. -/
theorem locate_child {directory : Path} (hLocate : t.locate directory = .ok place)
    (hDirectory : t.IsDirectory place) (name : Text) :
    t.locate (directory.child name) =
      if maxNameBytes < byteCount name then .error .nameTooLong else .ok (stepFrom place name) := by
  obtain ⟨entries, hNode⟩ := isDirectory_iff.mp hDirectory
  have hFollow : t.locate (directory.child name) = t.follow place [name] := follow_concat hLocate name
  rw [hFollow, follow, hNode]
  rfl

/-- What is found at a path stands at the place where it leads. -/
theorem locate_of_look {p : Path} (h : t.look p = .ok (some (place, node))) :
    t.locate p = .ok place ∧ t.node? place = some node := by
  rw [look] at h
  split at h
  · cases h
  · cases h
  · split at h
    · next found hLocate =>
        cases hNode : t.node? found with
        | none =>
            rw [hNode] at h
            cases h
        | some other =>
            rw [hNode] at h
            cases h
            exact ⟨hLocate, hNode⟩
    · cases h
    · cases h

theorem at?_of_locate {p : Path} (hUsable : unusable? p = none) (hLocate : t.locate p = .ok place)
    (hNode : t.node? place = some node) : t.at? p = some (place, node) := by
  rw [at?, look, hUsable, hLocate]
  simp only [hNode]
  rfl

/-- The way along parts comes to a name that no directory can have, through directories only. -/
inductive MeetsLongName (t : FileTree) : Place → List Text → Prop
  | here {place : Place} {part : Text} {rest : List Text} (directory : t.IsDirectory place)
      (long : maxNameBytes < byteCount part) : MeetsLongName t place (part :: rest)
  | later {place : Place} {part : Text} {rest : List Text} (directory : t.IsDirectory place)
      (meets : MeetsLongName t (stepFrom place part) rest) : MeetsLongName t place (part :: rest)

/-- Following parts fails for the length of a name exactly if it comes to one that is too long. -/
theorem follow_nameTooLong_iff {parts : List Text} :
    t.follow place parts = .error .nameTooLong ↔ t.MeetsLongName place parts := by
  induction parts generalizing place with
  | nil => exact ⟨fun h => (by cases h), fun h => (by cases h)⟩
  | cons part parts ih =>
      have hDirectory : t.MeetsLongName place (part :: parts) → t.IsDirectory place := by
        rintro (⟨hHere, _⟩ | ⟨hHere, _⟩) <;> exact hHere
      rw [follow]
      split
      · next hNode =>
          refine ⟨fun h => (by cases h), fun h => ?_⟩
          obtain ⟨entries, hEntries⟩ := isDirectory_iff.mp (hDirectory h)
          cases hNode.symm.trans hEntries
      · next hNode =>
          refine ⟨fun h => (by cases h), fun h => ?_⟩
          obtain ⟨entries, hEntries⟩ := isDirectory_iff.mp (hDirectory h)
          cases hNode.symm.trans hEntries
      · next entries hNode =>
          have hHere : t.IsDirectory place := isDirectory_iff.mpr ⟨entries, hNode⟩
          split
          · next hLong => exact ⟨fun _ => .here hHere hLong, fun _ => rfl⟩
          · next hShort =>
              rw [ih]
              constructor
              · exact .later hHere
              · rintro (⟨_, hLong⟩ | ⟨_, hLater⟩)
                · exact absurd hLong hShort
                · exact hLater

/-- The path has more bytes than a path may have, or a name on the way has more than a name may. -/
def IsOverlong (t : FileTree) (p : Path) : Prop :=
  unusable? p = some .nameTooLong ∨ unusable? p = none ∧ t.MeetsLongName (t.origin p) p.parts

/-- Nothing but length stops a path from being looked up. -/
theorem look_eq_error_iff {p : Path} {e : Error} :
    t.look p = .error e ↔ e = .nameTooLong ∧ t.IsOverlong p := by
  rw [look, IsOverlong, ← follow_nameTooLong_iff, ← locate]
  split
  · next hUsable => simp [hUsable, eq_comm]
  · next reason hOther hUsable =>
      have hReason : reason ≠ .nameTooLong := hOther
      simp [hUsable, hReason]
  · next hUsable =>
      split
      · next hLocate => simp [hUsable, hLocate]
      · next hLocate => simp [hUsable, hLocate, eq_comm]
      · next reason hOther hLocate =>
          have hReason : reason ≠ .nameTooLong := hOther
          simp [hUsable, hLocate, hReason]

/-- Only its length keeps a path from being looked up. -/
theorem look_of_not_isOverlong {p : Path} (h : ¬ t.IsOverlong p) : t.look p = .ok (t.at? p) := by
  rw [at?]
  cases hLook : t.look p with
  | error e => exact absurd (look_eq_error_iff.mp hLook).2 h
  | ok found => cases found <;> rfl

theorem look_of_at? {p : Path} {found : Place × Node} (h : t.at? p = some found) :
    t.look p = .ok (some found) := by
  rw [at?] at h
  cases hLook : t.look p with
  | error e =>
      rw [hLook] at h
      cases h
  | ok seen =>
      rw [hLook] at h
      cases seen with
      | none => cases h
      | some seen => exact congrArg Except.ok h

/-- A tree in which directories are still directories, and paths start from the same place. -/
structure KeepsDirectories (t other : FileTree) : Prop where
  working : other.working = t.working
  directory : ∀ place, t.IsDirectory place → other.IsDirectory place

theorem KeepsDirectories.refl (t : FileTree) : KeepsDirectories t t :=
  ⟨rfl, fun _ hDirectory => hDirectory⟩

theorem KeepsDirectories.trans {middle later : FileTree} (h : KeepsDirectories t middle)
    (hLater : KeepsDirectories middle later) : KeepsDirectories t later :=
  ⟨hLater.working.trans h.working,
    fun place hDirectory => hLater.directory place (h.directory place hDirectory)⟩

/-- Where a path leads to depends on the tree only by the place that paths start from. -/
theorem target_eq_of_working {other : FileTree} (h : other.working = t.working) (p : Path) :
    other.target p = t.target p := by
  rw [target, target, origin, origin, h]

/-- Whatever a path leads to, it still does in a tree that keeps directories. -/
theorem KeepsDirectories.follow {later : FileTree} (h : KeepsDirectories t later) {parts : List Text}
    (hFollow : t.follow place parts = .ok other) : later.follow place parts = .ok other := by
  induction parts generalizing place with
  | nil => exact hFollow
  | cons part parts ih =>
      rw [FileTree.follow] at hFollow
      split at hFollow
      · cases hFollow
      · cases hFollow
      · next entries hNode =>
          obtain ⟨kept, hKept⟩ := isDirectory_iff.mp
            (h.directory place (isDirectory_iff.mpr ⟨entries, hNode⟩))
          split at hFollow
          · cases hFollow
          · next hLength =>
              rw [FileTree.follow, hKept]
              simp only [hLength, ↓reduceIte]
              exact ih hFollow

/-- As long as no directory goes, a path leads where it did. -/
theorem KeepsDirectories.locate {later : FileTree} (h : KeepsDirectories t later) {p : Path}
    (hLocate : t.locate p = .ok place) : later.locate p = .ok place := by
  have hOrigin : later.origin p = t.origin p := by rw [origin, origin, h.working]
  rw [FileTree.locate, hOrigin]
  exact h.follow hLocate

end ScriptDoc.FileTree
