import ScriptDoc.Proofs.Options.Acceptance
import ScriptDoc.Proofs.Path.NormalForm

/-! Options that are written out and read again. Options depend on the value that each name is given
last and on nothing else, and the object that shows them gives the same options again: paths are in
normal form, there is always an extension, and defaults stand for themselves. -/
namespace ScriptDoc

/-- Even the path without parts has a text. -/
theorem Path.IsNormal.toText_ne_nil {p : Path} (h : p.IsNormal) : p.toText ≠ [] := by
  rw [toText]
  split
  · decide
  · next hSome =>
      obtain ⟨anchor, parts⟩ := p
      cases anchor with
      | root => exact List.cons_ne_nil _ _
      | doubleRoot => exact List.cons_ne_nil _ _
      | relative =>
          cases parts with
          | nil => exact absurd ⟨rfl, rfl⟩ hSome
          | cons part parts =>
              have hPart := h part List.mem_cons_self
              rw [Text.intercalate_cons]
              simp [hPart.filled]

/-- What does not count as false has parts, if it is made of any. -/
theorem Json.ne_nil_of_parts? {value : Json} {parts : List Json} (hTruthy : value.truthy = true)
    (h : value.parts? = some parts) : parts ≠ [] := by
  cases value with
  | str s =>
      cases h
      simpa [truthy] using hTruthy
  | arr items =>
      cases h
      simpa [truthy] using hTruthy
  | obj fields =>
      cases h
      simpa [truthy] using hTruthy
  | null => cases h
  | bool b => cases h
  | num n => cases h

namespace Options

variable {fields : List (Text × Json)} {o : Options}

/-- Options from the value that each name is given, if it is given one. -/
def ofGiven (given : Text → Option Json) : Except Error Options := do
  let directory ← pathOf ((given "directory").getD (.str "js_docs_out"))
  let extensions ← extensionsOf ((given "extensions").getD .null)
  let logDir ← logDirOf ((given "log_dir").getD .null)
  return {
    includePrivate := (given "include_private").getD (.bool false)
    allFunctions := (given "all_functions").getD (.bool false)
    allFunctionsUnderscored := (given "all_functions_underscored").getD (.bool false)
    template := (given "template").getD (.str "json")
    directory
    recurse := (given "recurse").getD (.int 0)
    extensions
    logDir }

/-- Of an object whose names are known, only the last value of each name counts. -/
theorem ofFields_eq_ofGiven (hKnown : ∀ field ∈ fields, Text.replace '-' '_' field.1 ∈ fieldNames) :
    ofFields fields = ofGiven fun name => given? name fields := by
  obtain ⟨found, hCollect⟩ := (collect_ok_iff [] fields).mpr hKnown
  have hField : ∀ name, found.lookup name = given? name fields := by
    intro name
    rw [lookup_collect hCollect, List.lookup_nil, Option.or_none]
  simp only [ofFields, hCollect, ok_bind, hField]
  rfl

/-- A field is not given exactly if no name is spelled like it. -/
theorem given?_eq_none_iff (name : Text) (fields : List (Text × Json)) :
    given? name fields = none ↔ ∀ field ∈ fields, Text.replace '-' '_' field.1 ≠ name := by
  simp [given?]

theorem known_of_ofFields (h : ofFields fields = .ok o) :
    ∀ field ∈ fields, Text.replace '-' '_' field.1 ∈ fieldNames :=
  ((ofFields_ok_iff fields).mp ⟨o, h⟩).known

/-- Objects that give the same last values give the same options. -/
theorem ofFields_congr {other : List (Text × Json)} (h : ofFields fields = .ok o)
    (hSame : ∀ name, given? name other = given? name fields) : ofFields other = .ok o := by
  have hKnown := known_of_ofFields h
  have hOther : ∀ field ∈ other, Text.replace '-' '_' field.1 ∈ fieldNames := by
    intro field hMem
    have hGiven : given? (Text.replace '-' '_' field.1) fields ≠ none := by
      rw [← hSame, Ne, given?_eq_none_iff]
      exact fun hNone => hNone field hMem rfl
    by_contra hUnknown
    refine hGiven ((given?_eq_none_iff _ _).mpr ?_)
    intro known hFields hName
    exact hUnknown (hName ▸ hKnown known hFields)
  rw [ofFields_eq_ofGiven hKnown] at h
  rw [ofFields_eq_ofGiven hOther, ← h]
  exact congrArg ofGiven (funext hSame)

/-! What holds of all options that objects give. -/

/-- Paths are in normal form, and there is an extension. -/
structure IsSettled (o : Options) : Prop where
  directory : o.directory.IsNormal
  extensions : o.extensions ≠ []
  logDir : ∀ p, o.logDir = some p → p.IsNormal

theorem isNormal_of_pathOf {value : Json} {p : Path} (h : pathOf value = .ok p) : p.IsNormal := by
  obtain ⟨text, rfl⟩ := (pathOf_ok_iff value).mp ⟨p, h⟩
  cases h
  exact Path.isNormal_ofText text

theorem ne_nil_of_extensionsOf {value : Json} {extensions : List Json}
    (h : extensionsOf value = .ok extensions) : extensions ≠ [] := by
  unfold extensionsOf at h
  split at h
  · next hTruthy =>
      split at h
      · next parts hParts =>
          cases h
          exact Json.ne_nil_of_parts? hTruthy hParts
      · cases h
  · cases h
    exact List.cons_ne_nil _ _

theorem isNormal_of_logDirOf {value : Json} {p : Path} (h : logDirOf value = .ok (some p)) :
    p.IsNormal := by
  unfold logDirOf at h
  split at h
  · cases hPath : pathOf value with
    | error e =>
        rw [hPath] at h
        cases h
    | ok found =>
        rw [hPath] at h
        cases h
        exact isNormal_of_pathOf hPath
  · cases h

/-- The three values that options are made of with care, as they come from what is given. -/
theorem exists_of_ofGiven {given : Text → Option Json} (h : ofGiven given = .ok o) :
    pathOf ((given "directory").getD (.str "js_docs_out")) = .ok o.directory ∧
      extensionsOf ((given "extensions").getD .null) = .ok o.extensions ∧
      logDirOf ((given "log_dir").getD .null) = .ok o.logDir := by
  obtain ⟨directory, hDirectory, h⟩ := bind_eq_ok h
  obtain ⟨extensions, hExtensions, h⟩ := bind_eq_ok h
  obtain ⟨logDir, hLogDir, h⟩ := bind_eq_ok h
  cases h
  exact ⟨hDirectory, hExtensions, hLogDir⟩

/-- Options that were read have everything in the form in which it is written. -/
theorem isSettled_of_ofGiven {given : Text → Option Json} (h : ofGiven given = .ok o) :
    o.IsSettled := by
  obtain ⟨hDirectory, hExtensions, hLogDir⟩ := exists_of_ofGiven h
  refine ⟨isNormal_of_pathOf hDirectory, ne_nil_of_extensionsOf hExtensions, ?_⟩
  intro p hSome
  exact isNormal_of_logDirOf (hSome ▸ hLogDir)

namespace IsSettled

/-- The output directory is read back from its text. -/
theorem pathOf_directory (h : o.IsSettled) : pathOf (.str o.directory.toText) = .ok o.directory := by
  rw [pathOf, h.directory.ofText_toText]

/-- Extensions are read back, since there are some. -/
theorem extensionsOf_arr (h : o.IsSettled) : extensionsOf (.arr o.extensions) = .ok o.extensions := by
  have hTruthy : (Json.arr o.extensions).truthy = true := by simp [Json.truthy, h.extensions]
  rw [extensionsOf, if_pos hTruthy]
  rfl

/-- The log directory is read back, or that there is none. -/
theorem logDirOf_getD (h : o.IsSettled) :
    logDirOf ((o.logDir.map fun p => Json.str p.toText).getD .null) = .ok o.logDir := by
  cases hLogDir : o.logDir with
  | none => rfl
  | some p =>
      have hNormal := h.logDir p hLogDir
      have hTruthy : (Json.str p.toText).truthy = true := by
        simp [Json.truthy, hNormal.toText_ne_nil]
      rw [Option.map_some, Option.getD_some, logDirOf, if_pos hTruthy, pathOf, hNormal.ofText_toText]
      rfl

/-- Settled options are given by the object that shows them. -/
theorem ofJson_toJson (h : o.IsSettled) : ofJson o.toJson = .ok o := by
  have hPlain : ∀ name ∈ fieldNames, Text.replace '-' '_' name = name := by decide
  rw [toJson, ofJson, ofFields_eq_ofGiven]
  · -- Each name is there once, in its plain spelling.
    change (pathOf (.str o.directory.toText) >>= fun directory =>
      extensionsOf (.arr o.extensions) >>= fun extensions =>
      logDirOf ((o.logDir.map fun p => Json.str p.toText).getD .null) >>= fun logDir =>
      .ok { o with directory, extensions, logDir }) = .ok o
    rw [h.pathOf_directory, ok_bind, h.extensionsOf_arr, ok_bind, h.logDirOf_getD, ok_bind]
  · intro field hMem
    have hName : field.1 ∈ fieldNames := List.mem_map_of_mem (f := Prod.fst) hMem
    rw [hPlain _ hName]
    exact hName

end IsSettled

/-- Options that an object gives are given again by the object that shows them, and by every object
that gives each name the same last value, however the names are spelled and ordered. Paths are taken
in their normal form. -/
theorem options_read_back {fields : List (Text × Json)} {o : Options}
    (h : ofJson (.obj fields) = .ok o) :
    ofJson o.toJson = .ok o ∧
      (∀ other, (∀ name, given? name other = given? name fields) → ofJson (.obj other) = .ok o) ∧
      (o.directory.IsNormal ∧
        ∀ text, given? "directory" fields = some (.str text) → o.directory = .ofText text) ∧
      ((∀ p, o.logDir = some p → p.IsNormal) ∧
        ∀ text, text ≠ [] → given? "log_dir" fields = some (.str text) →
          o.logDir = some (.ofText text)) := by
  have hFields : ofFields fields = .ok o := h
  have hGiven := hFields
  rw [ofFields_eq_ofGiven (known_of_ofFields hFields)] at hGiven
  have hSettled := isSettled_of_ofGiven hGiven
  obtain ⟨hDirectory, _, hLogDir⟩ := exists_of_ofGiven hGiven
  refine ⟨hSettled.ofJson_toJson, fun other => ofFields_congr hFields, ⟨hSettled.directory, ?_⟩,
    hSettled.logDir, ?_⟩
  · intro text hText
    rw [hText] at hDirectory
    exact (Except.ok.inj hDirectory).symm
  · intro text hFilled hText
    have hTruthy : (Json.str text).truthy = true := by simp [Json.truthy, hFilled]
    rw [hText, Option.getD_some, logDirOf, if_pos hTruthy] at hLogDir
    exact (Except.ok.inj hLogDir).symm

/-- The directory of the log is given twice, and extensions by the names of fields. -/
def shelfFields : List (Text × Json) :=
  [("log-dir", .str "old"), ("extensions", .obj [("js", .null), ("mjs", .bool true)]),
    ("directory", .str ""), ("log_dir", .str "//out//./logs/")]

/-- The same values in another order and spelling. -/
def shelfFieldsAgain : List (Text × Json) :=
  [("directory", .str ""), ("log-dir", .str "//out//./logs/"),
    ("extensions", .obj [("js", .null), ("mjs", .bool true)])]

theorem given?_shelfFieldsAgain (name : Text) :
    given? name shelfFieldsAgain = given? name shelfFields := by
  have hHyphen : Text.replace '-' '_' "log-dir" = Text.ofString "log_dir" := rfl
  have hLowLine : Text.replace '-' '_' "log_dir" = Text.ofString "log_dir" := rfl
  have hExtensions : Text.replace '-' '_' "extensions" = Text.ofString "extensions" := rfl
  have hDirectory : Text.replace '-' '_' "directory" = Text.ofString "directory" := rfl
  have hApart : Text.ofString "log_dir" ≠ "extensions" ∧ Text.ofString "log_dir" ≠ "directory" ∧
      Text.ofString "directory" ≠ "extensions" := by decide
  simp only [shelfFields, shelfFieldsAgain, given?_cons, hHyphen, hLowLine, hExtensions, hDirectory]
  grind

theorem options_read_back_shelf :
    ∃ o, ofJson (.obj shelfFields) = .ok o ∧ ofJson o.toJson = .ok o ∧
      ofJson (.obj shelfFieldsAgain) = .ok o ∧
      o.directory = .ofText "" ∧ o.logDir = some (.ofText "//out//./logs/") := by
  have hRead : ofJson (.obj shelfFields) = .ok
      { directory := ⟨.relative, []⟩
        extensions := [.str "js", .str "mjs"]
        logDir := some ⟨.doubleRoot, ["out", "logs"]⟩ } := rfl
  obtain ⟨hAgain, hOther, ⟨_, hDirectory⟩, _, hLogDir⟩ := options_read_back hRead
  exact ⟨_, hRead, hAgain, hOther _ given?_shelfFieldsAgain, hDirectory _ rfl,
    hLogDir _ (by decide) rfl⟩

end Options
end ScriptDoc
