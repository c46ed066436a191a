import ScriptDoc.Json.Reader
import ScriptDoc.Proofs.Text.Entries

/-! Fields of objects. No object that a text is read as has two fields of one name. -/
namespace ScriptDoc

theorem ok_bind {ε α β : Type} (a : α) (f : α → Except ε β) : Except.ok a >>= f = f a := rfl

theorem bind_eq_ok {ε α β : Type} {x : Except ε α} {f : α → Except ε β} {b : β}
    (h : x >>= f = .ok b) : ∃ a, x = .ok a ∧ f a = .ok b := by
  cases x with
  | error e => cases h
  | ok a => exact ⟨a, rfl, h⟩

namespace Json

/-- No object in a value has two fields of one name. -/
inductive NamesOnce : Json → Prop
  | null : NamesOnce .null
  | bool (value : Bool) : NamesOnce (.bool value)
  | num (value : Number) : NamesOnce (.num value)
  | str (value : Text) : NamesOnce (.str value)
  | arr {items : List Json} (hItems : ∀ item ∈ items, NamesOnce item) : NamesOnce (.arr items)
  | obj {fields : List (Text × Json)} (hNames : (fields.map Prod.fst).Nodup)
      (hFields : ∀ field ∈ fields, NamesOnce field.2) : NamesOnce (.obj fields)

/-- Fields of different names, whose values keep to this too. -/
structure FieldsOnce (fields : List (Text × Json)) : Prop where
  names : (fields.map Prod.fst).Nodup
  values : ∀ field ∈ fields, NamesOnce field.2

theorem FieldsOnce.nil : FieldsOnce [] :=
  ⟨List.nodup_nil, nofun⟩

/-- A field is replaced or new, so no name comes twice. -/
theorem FieldsOnce.putEntry {fields : List (Text × Json)} (h : FieldsOnce fields) (name : Text)
    {value : Json} (hValue : NamesOnce value) : FieldsOnce (Text.putEntry name value fields) where
  names := Text.nodup_putEntry h.names
  values := by
    intro field hMem
    rcases Text.mem_putEntry hMem with rfl | hOld
    · exact hValue
    · exact h.values field hOld

theorem readWord_namesOnce {cs : Text} {known : List (Text × Json)} {found : Json × Text}
    (hKnown : ∀ word ∈ known, NamesOnce word.2) (h : readWord cs known = some found) :
    NamesOnce found.1 := by
  induction known with
  | nil => cases h
  | cons word others ih =>
      obtain ⟨hFirst, hOthers⟩ := List.forall_mem_cons.mp hKnown
      rw [readWord] at h
      split at h
      · cases h
        exact hFirst
      · exact ih hOthers h

/-- Words and numbers have no fields at all. -/
theorem readScalar_namesOnce {cs rest : Text} {value : Json}
    (h : readScalar cs = .ok (value, rest)) : NamesOnce value := by
  have hWords : ∀ word ∈ words, NamesOnce word.2 := by
    simp [words, NamesOnce.null, NamesOnce.bool, NamesOnce.num]
  unfold readScalar at h
  split at h
  · next hWord =>
      cases h
      exact readWord_namesOnce hWords hWord
  · cases hNumber : readNumber cs with
    | error stop =>
        rw [hNumber] at h
        cases h
    | ok found =>
        rw [hNumber] at h
        cases h
        exact .num _

/-- With some fuel, the readers of values name no field twice. -/
structure ReadsOnce (fuel : Nat) : Prop where
  value : ∀ {depth : Nat} {cs rest : Text} {value : Json},
    readValue fuel depth cs = .ok (value, rest) → NamesOnce value
  items : ∀ {depth : Nat} {cs rest : Text} {items : List Json},
    readItems fuel depth cs = .ok (items, rest) → ∀ item ∈ items, NamesOnce item
  fields : ∀ {depth : Nat} {cs rest : Text} {fields found : List (Text × Json)},
    FieldsOnce fields → readFields fuel depth fields cs = .ok (found, rest) → FieldsOnce found

namespace ReadsOnce

variable {fuel depth : Nat} {cs rest : Text}

/-- One level of values, from what is known of those inside. -/
theorem readValue_succ (h : ReadsOnce fuel) {value : Json}
    (hRead : readValue (fuel + 1) depth cs = .ok (value, rest)) : NamesOnce value := by
  unfold readValue at hRead
  split at hRead
  · obtain ⟨⟨s, after⟩, _, hFound⟩ := bind_eq_ok hRead
    cases hFound
    exact .str s
  · split at hRead
    · cases hRead
    · cases hRead
      exact .arr nofun
    · obtain ⟨⟨items, after⟩, hItems, hFound⟩ := bind_eq_ok hRead
      cases hFound
      exact .arr (h.items hItems)
  · split at hRead
    · cases hRead
    · cases hRead
      exact .obj FieldsOnce.nil.names FieldsOnce.nil.values
    · obtain ⟨⟨fields, after⟩, hFields, hFound⟩ := bind_eq_ok hRead
      cases hFound
      have hOnce := h.fields .nil hFields
      exact .obj hOnce.names hOnce.values
  · exact readScalar_namesOnce hRead

theorem readItems_succ (h : ReadsOnce fuel) {items : List Json}
    (hRead : readItems (fuel + 1) depth cs = .ok (items, rest)) :
    ∀ item ∈ items, NamesOnce item := by
  unfold readItems at hRead
  obtain ⟨⟨item, after⟩, hItem, hFound⟩ := bind_eq_ok hRead
  have hFirst := h.value hItem
  dsimp only at hFound
  split at hFound
  · cases hFound
    exact List.forall_mem_singleton.mpr hFirst
  · obtain ⟨⟨others, last⟩, hOthers, hResult⟩ := bind_eq_ok hFound
    cases hResult
    exact List.forall_mem_cons.mpr ⟨hFirst, h.items hOthers⟩
  · cases hFound

theorem readFields_succ (h : ReadsOnce fuel) {fields found : List (Text × Json)}
    (hFields : FieldsOnce fields)
    (hRead : readFields (fuel + 1) depth fields cs = .ok (found, rest)) : FieldsOnce found := by
  unfold readFields at hRead
  split at hRead
  · obtain ⟨⟨name, after⟩, _, hNamed⟩ := bind_eq_ok hRead
    dsimp only at hNamed
    split at hNamed
    · obtain ⟨⟨value, last⟩, hValue, hResult⟩ := bind_eq_ok hNamed
      -- A name that was read before keeps its place, so that the names stay different.
      have hMore := hFields.putEntry name (h.value hValue)
      dsimp only at hResult
      split at hResult
      · cases hResult
        exact hMore
      · exact h.fields hMore hResult
      · cases hResult
    · cases hNamed
  · cases hRead

end ReadsOnce

/-- The induction is on the fuel, over values, items and fields together. -/
theorem readsOnce (fuel : Nat) : ReadsOnce fuel := by
  induction fuel with
  | zero =>
      refine ⟨?_, ?_, ?_⟩
      · intro depth cs rest value hRead
        rw [readValue] at hRead
        cases hRead
      · intro depth cs rest items hRead
        rw [readItems] at hRead
        cases hRead
      · intro depth cs rest fields found _ hRead
        rw [readFields] at hRead
        cases hRead
  | succ fuel ih => exact ⟨ih.readValue_succ, ih.readItems_succ, ih.readFields_succ⟩

/-- A text is read as a value in which no object names a field twice. -/
theorem parse_namesOnce {text : Text} {value : Json} (h : parse text = .ok value) :
    NamesOnce value := by
  unfold parse at h
  cases hRead : readAll text with
  | error stop =>
      rw [hRead] at h
      cases h
  | ok found =>
      rw [hRead] at h
      cases h
      unfold readAll at hRead
      split at hRead
      · cases hRead
      · obtain ⟨⟨result, rest⟩, hValue, hEnd⟩ := bind_eq_ok hRead
        have hOnce := (readsOnce _).value hValue
        dsimp only at hEnd
        split at hEnd
        · cases hEnd
          exact hOnce
        · cases hEnd

end Json
end ScriptDoc
