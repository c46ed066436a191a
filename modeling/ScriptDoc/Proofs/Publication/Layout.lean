import ScriptDoc.Proofs.Json.Layouts
import ScriptDoc.Publication

/-! The texts of published documents. A document is written as a layout of its value, so that its text
is read back as this value unless a surrogate pair is split in one of its texts. -/
namespace ScriptDoc

/-! The texts of documents. -/

/-- The text that a reference carries itself. -/
def Symbol.Ref.texts : Symbol.Ref → List Text
  | .here _ => []
  | .named fullName => [fullName]

/-- The names of tags, each followed by its values. -/
def TagSet.texts (tags : TagSet) : List Text :=
  tags.groups.flatMap fun group => group.1 :: group.2

/-- All texts that a symbol carries. -/
def Symbol.texts (s : Symbol) : List Text :=
  [s.name, s.fullName, s.description, s.memberOf] ++ s.params ++ s.inherits ++ s.tags.texts ++
    (s.methods ++ s.properties ++ s.inheritedMethods ++ s.inheritedProperties).flatMap Symbol.Ref.texts

/-- All texts that a document carries. -/
def Document.texts (d : Document) : List Text :=
  d.path :: (d.overview :: d.symbols).flatMap Symbol.texts

/-- A document in whose texts no surrogate pair is split. -/
def Document.IsWhole (d : Document) : Prop :=
  ∀ t ∈ d.texts, t.IsWhole

instance (d : Document) : Decidable d.IsWhole :=
  inferInstanceAs (Decidable (∀ t ∈ d.texts, t.IsWhole))

/-! The values of documents. -/

namespace Json

theorem textual_texts {items : List Text} (h : ∀ t ∈ items, t.IsWhole) (depth : Nat) :
    Textual (depth + 1) (texts items) :=
  .array (List.forall_mem_map.mpr fun t hMem => .text (h t hMem))

end Json

open Json (Textual AreNames textual_texts)

/-- The names of tags are names of fields, since no tag is kept twice. -/
theorem TagSet.textual_toJson {tags : TagSet} (h : ∀ t ∈ tags.texts, t.IsWhole) (depth : Nat) :
    Textual (depth + 2) tags.toJson := by
  have hGroup : ∀ group ∈ tags.groups, ∀ t ∈ group.1 :: group.2, t.IsWhole := by
    intro group hMem t hText
    exact h t (List.mem_flatMap.mpr ⟨group, hMem, hText⟩)
  refine .object ⟨?_, ?_⟩ ?_
  · rw [List.map_map]
    exact tags.distinct
  · rw [List.map_map]
    exact List.forall_mem_map.mpr fun group hMem => hGroup group hMem _ List.mem_cons_self
  · refine List.forall_mem_map.mpr fun group hMem => textual_texts (fun t hText => ?_) depth
    exact hGroup group hMem t (List.mem_cons_of_mem _ hText)

/-- A reference gives a text of the document, or none. -/
theorem Symbol.Ref.isWhole_fullNameIn {symbols : List Symbol} {ref : Symbol.Ref}
    (hSymbols : ∀ s ∈ symbols, s.fullName.IsWhole) (h : ∀ t ∈ ref.texts, t.IsWhole) :
    (ref.fullNameIn symbols).IsWhole := by
  cases ref with
  | named fullName => exact h fullName (List.mem_singleton_self _)
  | here index =>
      rw [fullNameIn]
      cases hSymbol : symbols[index]? with
      | none => exact Text.isWhole_ofChars []
      | some s => exact hSymbols s (List.mem_of_getElem? hSymbol)

theorem areNames_symbol : AreNames ["name", "alias", "kind", "description", "memberof", "params",
    "tags", "inherits", "methods", "properties", "inherited_methods", "inherited_properties"] :=
  ⟨by decide +kernel, by decide +kernel⟩

theorem areNames_document : AreNames ["path", "overview", "symbols"] :=
  ⟨by decide +kernel, by decide +kernel⟩

/-- A symbol is an object of texts, lists of texts and tags. -/
theorem Symbol.textual_toJson {symbols : List Symbol} {s : Symbol}
    (hSymbols : ∀ s ∈ symbols, s.fullName.IsWhole) (h : ∀ t ∈ s.texts, t.IsWhole) (depth : Nat) :
    Textual (depth + 3) (s.toJson symbols) := by
  simp only [texts, List.forall_mem_append, List.forall_mem_cons, List.flatMap_append,
    List.forall_mem_flatMap] at h
  obtain ⟨⟨⟨⟨⟨hName, hFullName, hDescription, hMemberOf, _⟩, hParams⟩, hInherits⟩, hTags⟩,
    ⟨⟨hMethods, hProperties⟩, hInheritedMethods⟩, hInheritedProperties⟩ := h
  have hRefs {refs : List Symbol.Ref} (hTexts : ∀ ref ∈ refs, ∀ t ∈ ref.texts, t.IsWhole) :
      Textual (depth + 2) (Json.texts (refs.map (Symbol.Ref.fullNameIn symbols))) := by
    refine textual_texts (List.forall_mem_map.mpr fun ref hMem => ?_) (depth + 1)
    exact Symbol.Ref.isWhole_fullNameIn hSymbols (hTexts ref hMem)
  refine .object areNames_symbol ?_
  simp only [List.forall_mem_cons]
  exact ⟨.text hName, .text hFullName, .text (Text.isWhole_ofChars _), .text hDescription,
    .text hMemberOf, textual_texts hParams _, TagSet.textual_toJson hTags depth,
    textual_texts hInherits _, hRefs hMethods, hRefs hProperties, hRefs hInheritedMethods,
    hRefs hInheritedProperties, List.forall_mem_nil _⟩

/-- A document is an object of texts and symbols. -/
theorem Document.textual_toJson {d : Document} (h : d.IsWhole) (depth : Nat) :
    Textual (depth + 5) d.toJson := by
  obtain ⟨hPath, hTexts⟩ := List.forall_mem_cons.mp h
  obtain ⟨hOverview, hSymbols⟩ := List.forall_mem_cons.mp (List.forall_mem_flatMap.mp hTexts)
  have hNames : ∀ s ∈ d.symbols, s.fullName.IsWhole := fun s hMem =>
    hSymbols s hMem s.fullName (by simp [Symbol.texts])
  refine .object areNames_document ?_
  simp only [List.forall_mem_cons]
  refine ⟨.text hPath, Symbol.textual_toJson hNames hOverview (depth + 1), .array ?_,
    List.forall_mem_nil _⟩
  exact List.forall_mem_map.mpr fun s hMem => Symbol.textual_toJson hNames (hSymbols s hMem) depth

namespace Publication

/-- The text of a document is a layout of its value, with at most five arrays and objects inside each
other: the document, its symbols, one of them, its tags and the values of one. -/
theorem written_pretty {d : Document} (h : d.IsWhole) (depth : Nat) :
    Json.Written (depth + 5) (.value d.toJson) d.toJson.pretty.toList := by
  rw [Json.pretty, String.toList_ofList]
  exact (d.textual_toJson h depth).written 0

/-- Five levels are far fewer than the reader admits. -/
theorem parse_pretty {d : Document} (h : d.IsWhole) :
    Json.parse (Text.ofString d.toJson.pretty) = .ok d.toJson :=
  (written_pretty h 980).parse_eq

end Publication
end ScriptDoc
