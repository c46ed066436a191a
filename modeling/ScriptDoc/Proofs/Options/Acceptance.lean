import ScriptDoc.Options
import ScriptDoc.Proofs.Json.Fields

/-! Which objects give options. A name may be spelled in several ways, and then the last value
counts. Options are made exactly if every name is known and the values of three of them can be
used. -/
namespace ScriptDoc

/-- Values that are made of parts: texts, arrays and objects. -/
def Json.IsIterable : Json → Prop
  | .str _ | .arr _ | .obj _ => True
  | _ => False

theorem Json.isSome_parts?_iff (value : Json) : value.parts?.isSome = true ↔ value.IsIterable := by
  cases value <;> simp [parts?, IsIterable]

namespace Options

/-- The value that an option is given last, with hyphens or low lines in its name. -/
def given? (name : Text) (fields : List (Text × Json)) : Option Json :=
  (fields.filter fun field => Text.replace '-' '_' field.1 == name).getLast?.map Prod.snd

/-- Of two spellings of one name the later counts. -/
theorem given?_cons (name : Text) (field : Text × Json) (fields : List (Text × Json)) :
    given? name (field :: fields) = (given? name fields).or
      (if Text.replace '-' '_' field.1 = name then some field.2 else none) := by
  unfold given?
  by_cases hName : Text.replace '-' '_' field.1 = name
  · simp only [hName, beq_self_eq_true, List.filter_cons_of_pos, List.getLast?_cons, ↓reduceIte,
      Option.map_some]
    cases (fields.filter fun field => Text.replace '-' '_' field.1 == name).getLast? <;> rfl
  · simp [hName]

/-- Objects that give options. -/
structure Acceptable (fields : List (Text × Json)) : Prop where
  known : ∀ field ∈ fields, Text.replace '-' '_' field.1 ∈ fieldNames
  directory : ∀ value, given? "directory" fields = some value → ∃ path, value = .str path
  extensions : ∀ value, given? "extensions" fields = some value → value.truthy = true →
    value.IsIterable
  logDir : ∀ value, given? "log_dir" fields = some value → value.truthy = true →
    ∃ path, value = .str path

/-- A collected field has the value that it is given last. -/
theorem lookup_collect {fields given found : List (Text × Json)}
    (h : collect given fields = .ok found) (name : Text) :
    found.lookup name = (given? name fields).or (given.lookup name) := by
  induction fields generalizing given with
  | nil =>
      cases h
      rfl
  | cons field rest ih =>
      obtain ⟨key, value⟩ := field
      rw [collect] at h
      split at h
      · rw [ih h, given?_cons, Option.or_assoc, Text.lookup_putEntry]
        simp only [eq_comm (a := name)]
        split <;> rfl
      · cases h

/-- Fields are collected exactly if all their names are known. -/
theorem collect_ok_iff (given fields : List (Text × Json)) :
    (∃ found, collect given fields = .ok found) ↔
      ∀ field ∈ fields, Text.replace '-' '_' field.1 ∈ fieldNames := by
  induction fields generalizing given with
  | nil => simp [collect]
  | cons field rest ih =>
      obtain ⟨key, value⟩ := field
      rw [collect, List.forall_mem_cons]
      by_cases hKnown : Text.replace '-' '_' key ∈ fieldNames
      · simp only [hKnown, ↓reduceIte, ih, true_and]
      · simp [hKnown]

theorem pathOf_ok_iff (value : Json) :
    (∃ path, pathOf value = .ok path) ↔ ∃ text, value = .str text := by
  cases value <;> simp [pathOf]

/-- Extensions are taken from anything that has parts, unless it counts as false. -/
theorem extensionsOf_ok_iff (value : Json) :
    (∃ extensions, extensionsOf value = .ok extensions) ↔
      (value.truthy = true → value.IsIterable) := by
  unfold extensionsOf
  rw [← Json.isSome_parts?_iff]
  cases value.truthy with
  | false => simp
  | true => cases value.parts? <;> simp

/-- A log directory is a text, unless it counts as false. -/
theorem logDirOf_ok_iff (value : Json) :
    (∃ logDir, logDirOf value = .ok logDir) ↔
      (value.truthy = true → ∃ text, value = .str text) := by
  unfold logDirOf
  rw [← pathOf_ok_iff]
  cases value.truthy with
  | false => simp
  | true => cases pathOf value <;> simp [Except.map]

/-- The value of an option that may be left out can be used if the default can, and the one that is
given. -/
theorem usable_iff {α : Type} {use : Json → Except Error α} {P : Json → Prop}
    (hUse : ∀ value, (∃ a, use value = .ok a) ↔ P value) (given : Option Json) (default : Json)
    (hDefault : P default) :
    (∃ a, use (given.getD default) = .ok a) ↔ ∀ value, given = some value → P value := by
  cases given with
  | none => simpa using (hUse default).mpr hDefault
  | some value => simpa using hUse value

/-- Options are made exactly from acceptable objects. -/
theorem ofFields_ok_iff (fields : List (Text × Json)) :
    (∃ o, ofFields fields = .ok o) ↔ Acceptable fields := by
  have hDirectory := usable_iff pathOf_ok_iff (given? "directory" fields)
    (.str "js_docs_out") ⟨_, rfl⟩
  have hExtensions := usable_iff extensionsOf_ok_iff (given? "extensions" fields) .null nofun
  have hLogDir := usable_iff logDirOf_ok_iff (given? "log_dir" fields) .null nofun
  have hField : ∀ {found}, collect [] fields = .ok found → ∀ name,
      found.lookup name = given? name fields := by
    intro found hCollect name
    rw [lookup_collect hCollect, List.lookup_nil, Option.or_none]
  constructor
  · rintro ⟨o, h⟩
    obtain ⟨found, hCollect, h⟩ := bind_eq_ok h
    simp only [hField hCollect] at h
    obtain ⟨directory, hFirst, h⟩ := bind_eq_ok h
    obtain ⟨extensions, hSecond, h⟩ := bind_eq_ok h
    obtain ⟨logDir, hThird, _⟩ := bind_eq_ok h
    exact ⟨(collect_ok_iff [] fields).mp ⟨found, hCollect⟩, hDirectory.mp ⟨directory, hFirst⟩,
      hExtensions.mp ⟨extensions, hSecond⟩, hLogDir.mp ⟨logDir, hThird⟩⟩
  · intro h
    obtain ⟨found, hCollect⟩ := (collect_ok_iff [] fields).mpr h.known
    obtain ⟨directory, hFirst⟩ := hDirectory.mpr h.directory
    obtain ⟨extensions, hSecond⟩ := hExtensions.mpr h.extensions
    obtain ⟨logDir, hThird⟩ := hLogDir.mpr h.logDir
    simp only [ofFields, hCollect, ok_bind, hField hCollect, hFirst, hSecond, hThird]
    exact ⟨_, rfl⟩

end Options
end ScriptDoc
