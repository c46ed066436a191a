import ScriptDoc.Proofs.Json.Fields
import ScriptDoc.Proofs.Json.Strings

/-! JSON texts of values that are made of texts, arrays and objects. `Written` says which characters
are such a text: blanks may stand between any two parts, and an object has each of its fields once,
in order. Whatever the blanks, the text is read as the value it was written for. -/
namespace ScriptDoc.Json

/-- A part of a JSON text: a value, or what an array or an object holds, up to the bracket that
closes it. -/
inductive Part
  | value (v : Json)
  | items (items : List Json)
  | fields (fields : List (Text × Json))

/-- Blanks alone. -/
def AreBlanks (cs : List Char) : Prop :=
  ∀ c ∈ cs, isBlank (.char c) = true

/-- The characters that a part may be written as, with at most `depth` arrays and objects inside each
other. -/
inductive Written : Nat → Part → List Char → Prop
  | text {depth : Nat} {t : Text} (hWhole : t.IsWhole) : Written depth (.value (.str t)) (writeText t)
  | emptyArray {depth : Nat} {blanks : List Char} (hBlanks : AreBlanks blanks) :
      Written (depth + 1) (.value (.arr [])) ('[' :: blanks ++ [']'])
  | array {depth : Nat} {items : List Json} {blanks cs : List Char} (hBlanks : AreBlanks blanks)
      (inside : Written depth (.items items) cs) :
      Written (depth + 1) (.value (.arr items)) ('[' :: blanks ++ cs)
  | emptyObject {depth : Nat} {blanks : List Char} (hBlanks : AreBlanks blanks) :
      Written (depth + 1) (.value (.obj [])) ('{' :: blanks ++ ['}'])
  | object {depth : Nat} {fields : List (Text × Json)} {blanks cs : List Char}
      (hBlanks : AreBlanks blanks) (hNames : (fields.map Prod.fst).Nodup)
      (inside : Written depth (.fields fields) cs) :
      Written (depth + 1) (.value (.obj fields)) ('{' :: blanks ++ cs)
  | lastItem {depth : Nat} {item : Json} {cs blanks : List Char}
      (first : Written depth (.value item) cs) (hBlanks : AreBlanks blanks) :
      Written depth (.items [item]) (cs ++ blanks ++ [']'])
  | item {depth : Nat} {item : Json} {items : List Json} {cs before behind ds : List Char}
      (first : Written depth (.value item) cs) (hBefore : AreBlanks before)
      (hBehind : AreBlanks behind) (others : Written depth (.items items) ds) :
      Written depth (.items (item :: items)) (cs ++ before ++ ',' :: behind ++ ds)
  | lastField {depth : Nat} {name : Text} {value : Json} {before behind cs blanks : List Char}
      (hWhole : name.IsWhole) (hBefore : AreBlanks before) (hBehind : AreBlanks behind)
      (first : Written depth (.value value) cs) (hBlanks : AreBlanks blanks) :
      Written depth (.fields [(name, value)])
        (writeText name ++ before ++ ':' :: behind ++ cs ++ blanks ++ ['}'])
  | field {depth : Nat} {name : Text} {value : Json} {fields : List (Text × Json)}
      {before behind cs blanks more ds : List Char} (hWhole : name.IsWhole)
      (hBefore : AreBlanks before) (hBehind : AreBlanks behind)
      (first : Written depth (.value value) cs) (hBlanks : AreBlanks blanks) (hMore : AreBlanks more)
      (others : Written depth (.fields fields) ds) :
      Written depth (.fields ((name, value) :: fields))
        (writeText name ++ before ++ ':' :: behind ++ cs ++ blanks ++ ',' :: more ++ ds)

variable {depth : Nat} {part : Part} {cs blanks : List Char} {rest : Text}

/-! Blanks. -/

theorem areBlanks_nil : AreBlanks [] :=
  List.forall_mem_nil _

/-- Blanks before anything else are skipped. -/
theorem skipBlanks_append (hBlanks : AreBlanks blanks) (rest : Text) :
    skipBlanks (Text.ofChars blanks ++ rest) = skipBlanks rest := by
  rw [skipBlanks, skipBlanks, List.dropWhile_append_of_pos]
  intro c hMem
  obtain ⟨char, hChar, rfl⟩ := List.mem_map.mp hMem
  exact hBlanks char hChar

theorem skipBlanks_append_cons (hBlanks : AreBlanks blanks) (c : Char) (h : isBlank c = false)
    (rest : Text) : skipBlanks (Text.ofChars blanks ++ .char c :: rest) = .char c :: rest := by
  rw [skipBlanks_append hBlanks, skipBlanks, List.dropWhile_cons_of_neg (Bool.eq_false_iff.mp h)]

/-- The first characters of values. -/
def beginsValue (c : Char) : Prop :=
  c = '"' ∨ c = '[' ∨ c = '{'

/-- Every part begins with a quote or an opening bracket. -/
theorem Written.exists_cons (h : Written depth part cs) : ∃ c tail, cs = c :: tail ∧ beginsValue c := by
  induction h with
  | text hWhole => exact ⟨'"', _, rfl, .inl rfl⟩
  | emptyArray hBlanks => exact ⟨'[', _, rfl, .inr (.inl rfl)⟩
  | array hBlanks inside ih => exact ⟨'[', _, rfl, .inr (.inl rfl)⟩
  | emptyObject hBlanks => exact ⟨'{', _, rfl, .inr (.inr rfl)⟩
  | object hBlanks hNames inside ih => exact ⟨'{', _, rfl, .inr (.inr rfl)⟩
  | lastItem first hBlanks ih =>
      obtain ⟨c, tail, rfl, hBegins⟩ := ih
      exact ⟨c, _, rfl, hBegins⟩
  | item first hBefore hBehind others ih =>
      obtain ⟨c, tail, rfl, hBegins⟩ := ih
      exact ⟨c, _, rfl, hBegins⟩
  | lastField hWhole hBefore hBehind first hBlanks ih => exact ⟨'"', _, rfl, .inl rfl⟩
  | field hWhole hBefore hBehind first hBlanks hMore others ih => exact ⟨'"', _, rfl, .inl rfl⟩

theorem beginsValue.isBlank_eq_false {c : Char} (h : beginsValue c) : isBlank (.char c) = false := by
  rcases h with rfl | rfl | rfl <;> rfl

/-- Blanks in front of a part are skipped, and no more. -/
theorem Written.skipBlanks_eq (h : Written depth part cs) (hBlanks : AreBlanks blanks) (rest : Text) :
    skipBlanks (Text.ofChars (blanks ++ cs) ++ rest) = Text.ofChars cs ++ rest := by
  obtain ⟨c, tail, rfl, hBegins⟩ := h.exists_cons
  rw [Text.ofChars_append, List.append_assoc]
  exact skipBlanks_append_cons hBlanks c hBegins.isBlank_eq_false _

/-! All layouts are ASCII. -/

theorem AreBlanks.isAscii (h : AreBlanks cs) : IsAscii cs := by
  intro c hMem
  have hBlank := h c hMem
  simp only [isBlank, Bool.or_eq_true, beq_iff_eq, CodePoint.char.injEq] at hBlank
  rcases hBlank with ((rfl | rfl) | rfl) | rfl <;> decide

/-- All characters of a layout are ASCII, those of texts by their escapes. -/
theorem Written.isAscii (h : Written depth part cs) : IsAscii cs := by
  induction h with
  | text hWhole => exact isAscii_writeText _
  | emptyArray hBlanks => exact .cons (by decide) (hBlanks.isAscii.append (.of_all rfl))
  | array hBlanks inside ih => exact .cons (by decide) (hBlanks.isAscii.append ih)
  | emptyObject hBlanks => exact .cons (by decide) (hBlanks.isAscii.append (.of_all rfl))
  | object hBlanks hNames inside ih => exact .cons (by decide) (hBlanks.isAscii.append ih)
  | lastItem first hBlanks ih => exact (ih.append hBlanks.isAscii).append (.of_all rfl)
  | item first hBefore hBehind others ih ihOthers =>
      exact ((ih.append hBefore.isAscii).append (.cons (by decide) hBehind.isAscii)).append ihOthers
  | @lastField depth name value before behind cs blanks hWhole hBefore hBehind first hBlanks ih =>
      have hName := (isAscii_writeText name).append hBefore.isAscii
      have hColon : IsAscii (':' :: behind) := .cons (by decide) hBehind.isAscii
      have hField := (hName.append hColon).append ih
      exact (hField.append hBlanks.isAscii).append (.of_all rfl)
  | @field depth name value fields before behind cs blanks more ds hWhole hBefore hBehind first hBlanks
      hMore others ih ihOthers =>
      have hName := (isAscii_writeText name).append hBefore.isAscii
      have hColon : IsAscii (':' :: behind) := .cons (by decide) hBehind.isAscii
      have hField := (hName.append hColon).append ih
      exact ((hField.append hBlanks.isAscii).append (.cons (by decide) hMore.isAscii)).append ihOthers

/-! All layouts are read back. -/

/-- A written value is read up to its end. -/
def ReadsValue (depth : Nat) (v : Json) (cs : List Char) : Prop :=
  ∀ fuel rest, cs.length ≤ fuel → readValue fuel depth (Text.ofChars cs ++ rest) = .ok (v, rest)

/-- Written items are read up to the end of their array. -/
def ReadsItems (depth : Nat) (items : List Json) (cs : List Char) : Prop :=
  ∀ fuel rest, cs.length ≤ fuel → readItems fuel depth (Text.ofChars cs ++ rest) = .ok (items, rest)

/-- Written fields are read up to the end of their object, behind fields of other names. -/
def ReadsFields (depth : Nat) (fields : List (Text × Json)) (cs : List Char) : Prop :=
  ∀ fuel rest earlier, cs.length ≤ fuel → ((earlier ++ fields).map Prod.fst).Nodup →
    readFields fuel depth earlier (Text.ofChars cs ++ rest) = .ok (earlier ++ fields, rest)

/-- Written parts are read up to their end. -/
def ReadsPart (depth : Nat) (cs : List Char) : Part → Prop
  | .value v => ReadsValue depth v cs
  | .items items => ReadsItems depth items cs
  | .fields fields => ReadsFields depth fields cs

/-- A written text is read up to its closing quote. -/
theorem readsValue_text {t : Text} (h : t.IsWhole) : ReadsValue depth (.str t) (writeText t) := by
  intro fuel rest hFuel
  cases fuel with
  | zero => simp [writeText] at hFuel
  | succ fuel =>
      have hText : Text.ofChars (writeText t) ++ rest =
          .char '"' :: (Text.ofChars (t.flatMap escapePoint) ++ .char '"' :: rest) := by
        simp [writeText, Text.ofChars]
      rw [hText, readValue, readString_flatMap h]
      rfl

theorem readsValue_emptyArray (hBlanks : AreBlanks blanks) :
    ReadsValue (depth + 1) (.arr []) ('[' :: blanks ++ [']']) := by
  intro fuel rest hFuel
  cases fuel with
  | zero => simp at hFuel
  | succ fuel =>
      have hText : Text.ofChars ('[' :: blanks ++ [']']) ++ rest =
          .char '[' :: (Text.ofChars blanks ++ .char ']' :: rest) := by
        simp [Text.ofChars]
      rw [hText, readValue.eq_def]
      simp only [skipBlanks_append_cons hBlanks ']' rfl]

theorem readsValue_emptyObject (hBlanks : AreBlanks blanks) :
    ReadsValue (depth + 1) (.obj []) ('{' :: blanks ++ ['}']) := by
  intro fuel rest hFuel
  cases fuel with
  | zero => simp at hFuel
  | succ fuel =>
      have hText : Text.ofChars ('{' :: blanks ++ ['}']) ++ rest =
          .char '{' :: (Text.ofChars blanks ++ .char '}' :: rest) := by
        simp [Text.ofChars]
      rw [hText, readValue.eq_def]
      simp only [skipBlanks_append_cons hBlanks '}' rfl]

/-- An opening bracket that is not closed at once leads to items. -/
theorem readValue_openArray {fuel : Nat} {c : Char} {after : Text}
    (hSkip : skipBlanks rest = .char c :: after) (hEnd : c ≠ ']') :
    readValue (fuel + 1) (depth + 1) (.char '[' :: rest) =
      (readItems fuel depth (.char c :: after)).map fun found => (.arr found.1, found.2) := by
  rw [readValue.eq_def]
  simp only [hSkip]
  split
  · next hZero => cases hZero
  · next closed hClosed _ =>
      cases hClosed
      exact absurd rfl hEnd
  · next inner hDepth _ =>
      cases hDepth
      cases readItems fuel depth (.char c :: after) <;> rfl

/-- Behind an opening brace come fields, unless it is closed at once. -/
theorem readValue_openObject {fuel : Nat} {c : Char} {after : Text}
    (hSkip : skipBlanks rest = .char c :: after) (hEnd : c ≠ '}') :
    readValue (fuel + 1) (depth + 1) (.char '{' :: rest) =
      (readFields fuel depth [] (.char c :: after)).map fun found => (.obj found.1, found.2) := by
  rw [readValue.eq_def]
  simp only [hSkip]
  split
  · next hZero => cases hZero
  · next closed hClosed _ =>
      cases hClosed
      exact absurd rfl hEnd
  · next inner hDepth _ =>
      cases hDepth
      cases readFields fuel depth [] (.char c :: after) <;> rfl

theorem beginsValue.ne_closing {c : Char} (h : beginsValue c) : c ≠ ']' ∧ c ≠ '}' := by
  rcases h with rfl | rfl | rfl <;> decide

theorem beginsValue.ne_byteOrderMark {c : Char} (h : beginsValue c) :
    .char c ≠ CodePoint.ofNat 0xfeff := by
  rcases h with rfl | rfl | rfl <;> decide

/-- An array is read if its items are. -/
theorem readsValue_array {items : List Json} (hBlanks : AreBlanks blanks)
    (inside : Written depth (.items items) cs) (h : ReadsItems depth items cs) :
    ReadsValue (depth + 1) (.arr items) ('[' :: blanks ++ cs) := by
  intro fuel rest hFuel
  cases fuel with
  | zero => simp at hFuel
  | succ fuel =>
      have hItems := h fuel rest (by simp at hFuel; omega)
      have hSkip := inside.skipBlanks_eq hBlanks rest
      obtain ⟨c, tail, rfl, hBegins⟩ := inside.exists_cons
      exact (readValue_openArray hSkip hBegins.ne_closing.1).trans (congrArg _ hItems)

/-- An object is read if its fields are. -/
theorem readsValue_object {fields : List (Text × Json)} (hBlanks : AreBlanks blanks)
    (hNames : (fields.map Prod.fst).Nodup) (inside : Written depth (.fields fields) cs)
    (h : ReadsFields depth fields cs) :
    ReadsValue (depth + 1) (.obj fields) ('{' :: blanks ++ cs) := by
  intro fuel rest hFuel
  cases fuel with
  | zero => simp at hFuel
  | succ fuel =>
      have hFields := h fuel rest [] (by simp at hFuel; omega) hNames
      have hSkip := inside.skipBlanks_eq hBlanks rest
      obtain ⟨c, tail, rfl, hBegins⟩ := inside.exists_cons
      exact (readValue_openObject hSkip hBegins.ne_closing.2).trans (congrArg _ hFields)

/-- A closing bracket behind blanks ends the items. -/
theorem readsItems_last {item : Json} (h : ReadsValue depth item cs) (hBlanks : AreBlanks blanks) :
    ReadsItems depth [item] (cs ++ blanks ++ [']']) := by
  intro fuel rest hFuel
  cases fuel with
  | zero => simp at hFuel
  | succ fuel =>
      have hItem := h fuel (Text.ofChars blanks ++ .char ']' :: rest) (by simp at hFuel; omega)
      have hText : Text.ofChars (cs ++ blanks ++ [']']) ++ rest =
          Text.ofChars cs ++ (Text.ofChars blanks ++ .char ']' :: rest) := by
        simp [Text.ofChars]
      rw [hText, readItems, hItem, ok_bind]
      simp only [skipBlanks_append_cons hBlanks ']' rfl]
      rfl

/-- Items are read one by one up to the bracket. -/
theorem readsItems_cons {item : Json} {items : List Json} {before behind ds : List Char}
    (h : ReadsValue depth item cs) (hBefore : AreBlanks before) (hBehind : AreBlanks behind)
    (others : Written depth (.items items) ds) (hOthers : ReadsItems depth items ds) :
    ReadsItems depth (item :: items) (cs ++ before ++ ',' :: behind ++ ds) := by
  intro fuel rest hFuel
  cases fuel with
  | zero => simp at hFuel
  | succ fuel =>
      have hItem := h fuel (Text.ofChars before ++ .char ',' :: (Text.ofChars (behind ++ ds) ++ rest))
        (by simp at hFuel; omega)
      have hItems := hOthers fuel rest (by simp at hFuel; omega)
      have hText : Text.ofChars (cs ++ before ++ ',' :: behind ++ ds) ++ rest =
          Text.ofChars cs ++
            (Text.ofChars before ++ .char ',' :: (Text.ofChars (behind ++ ds) ++ rest)) := by
        simp [Text.ofChars]
      rw [hText, readItems, hItem, ok_bind]
      simp only [skipBlanks_append_cons hBefore ',' rfl, others.skipBlanks_eq hBehind rest, hItems]
      rfl

/-- How fields are read on, behind those that have been read. -/
def readFieldsOn (fuel depth : Nat) (earlier : List (Text × Json)) :
    Text → Except Stop (List (Text × Json) × Text)
  | .char '}' :: rest => .ok (earlier, rest)
  | .char ',' :: rest => readFields fuel depth earlier (skipBlanks rest)
  | rest => .error (.malformed .expectingComma rest.length)

/-- A field is read up to its end, and what comes behind it decides how reading goes on. -/
theorem readFields_field {fuel : Nat} {name : Text} {value : Json} {before behind : List Char}
    {earlier : List (Text × Json)} (hWhole : name.IsWhole) (hBefore : AreBlanks before)
    (hBehind : AreBlanks behind) (first : Written depth (.value value) cs)
    (h : readValue fuel depth (Text.ofChars cs ++ rest) = .ok (value, rest)) :
    readFields (fuel + 1) depth earlier
        (Text.ofChars (writeText name ++ before ++ ':' :: behind ++ cs) ++ rest) =
      readFieldsOn fuel depth (Text.putEntry name value earlier) (skipBlanks rest) := by
  have hText : Text.ofChars (writeText name ++ before ++ ':' :: behind ++ cs) ++ rest =
      .char '"' :: (Text.ofChars (name.flatMap escapePoint) ++ .char '"' ::
        (Text.ofChars before ++ .char ':' :: (Text.ofChars (behind ++ cs) ++ rest))) := by
    simp [writeText, Text.ofChars]
  rw [hText, readFields, readString_flatMap hWhole, ok_bind]
  simp only [skipBlanks_append_cons hBefore ':' rfl, first.skipBlanks_eq hBehind rest, h, ok_bind]
  rfl

/-- The last field is read up to the brace. -/
theorem readsFields_last {name : Text} {value : Json} {before behind : List Char}
    (hWhole : name.IsWhole) (hBefore : AreBlanks before) (hBehind : AreBlanks behind)
    (first : Written depth (.value value) cs) (h : ReadsValue depth value cs)
    (hBlanks : AreBlanks blanks) :
    ReadsFields depth [(name, value)]
      (writeText name ++ before ++ ':' :: behind ++ cs ++ blanks ++ ['}']) := by
  intro fuel rest earlier hFuel hNames
  cases fuel with
  | zero => simp at hFuel
  | succ fuel =>
      have hValue := h fuel (Text.ofChars blanks ++ .char '}' :: rest) (by simp at hFuel; omega)
      have hText : Text.ofChars
          (writeText name ++ before ++ ':' :: behind ++ cs ++ blanks ++ ['}']) ++ rest =
            Text.ofChars (writeText name ++ before ++ ':' :: behind ++ cs) ++
              (Text.ofChars blanks ++ .char '}' :: rest) := by
        simp [Text.ofChars]
      rw [hText, readFields_field hWhole hBefore hBehind first hValue,
        skipBlanks_append_cons hBlanks '}' rfl, Text.putEntry_of_nodup hNames]
      rfl

/-- A field is read behind others of different names, and so are the next ones. -/
theorem readsFields_cons {name : Text} {value : Json} {fields : List (Text × Json)}
    {before behind more ds : List Char} (hWhole : name.IsWhole) (hBefore : AreBlanks before)
    (hBehind : AreBlanks behind) (first : Written depth (.value value) cs)
    (h : ReadsValue depth value cs) (hBlanks : AreBlanks blanks) (hMore : AreBlanks more)
    (others : Written depth (.fields fields) ds) (hOthers : ReadsFields depth fields ds) :
    ReadsFields depth ((name, value) :: fields)
      (writeText name ++ before ++ ':' :: behind ++ cs ++ blanks ++ ',' :: more ++ ds) := by
  intro fuel rest earlier hFuel hNames
  cases fuel with
  | zero => simp at hFuel
  | succ fuel =>
      have hValue := h fuel (Text.ofChars blanks ++ .char ',' :: (Text.ofChars (more ++ ds) ++ rest))
        (by simp at hFuel; omega)
      -- The field joins the earlier ones, and the others are read behind it.
      have hSame : earlier ++ (name, value) :: fields = earlier ++ [(name, value)] ++ fields := by simp
      have hFields := hOthers fuel rest (earlier ++ [(name, value)]) (by simp at hFuel; omega)
        (hSame ▸ hNames)
      have hText : Text.ofChars
          (writeText name ++ before ++ ':' :: behind ++ cs ++ blanks ++ ',' :: more ++ ds) ++ rest =
            Text.ofChars (writeText name ++ before ++ ':' :: behind ++ cs) ++
              (Text.ofChars blanks ++ .char ',' :: (Text.ofChars (more ++ ds) ++ rest)) := by
        simp [Text.ofChars]
      rw [hText, readFields_field hWhole hBefore hBehind first hValue,
        skipBlanks_append_cons hBlanks ',' rfl, Text.putEntry_of_nodup hNames, readFieldsOn,
        others.skipBlanks_eq hMore rest, hFields, hSame]

/-- Every layout of a part is read as that part. -/
theorem Written.readsPart (h : Written depth part cs) : ReadsPart depth cs part := by
  induction h with
  | text hWhole => exact readsValue_text hWhole
  | emptyArray hBlanks => exact readsValue_emptyArray hBlanks
  | array hBlanks inside ih => exact readsValue_array hBlanks inside ih
  | emptyObject hBlanks => exact readsValue_emptyObject hBlanks
  | object hBlanks hNames inside ih => exact readsValue_object hBlanks hNames inside ih
  | lastItem first hBlanks ih => exact readsItems_last ih hBlanks
  | item first hBefore hBehind others ih ihOthers =>
      exact readsItems_cons ih hBefore hBehind others ihOthers
  | lastField hWhole hBefore hBehind first hBlanks ih =>
      exact readsFields_last hWhole hBefore hBehind first ih hBlanks
  | field hWhole hBefore hBehind first hBlanks hMore others ih ihOthers =>
      exact readsFields_cons hWhole hBefore hBehind first ih hBlanks hMore others ihOthers

/-- A text that is a layout of a value is read as that value. -/
theorem Written.parse_eq {v : Json} (h : Written maxDepth (.value v) cs) :
    parse (Text.ofChars cs) = .ok v := by
  have hSkip := h.skipBlanks_eq areBlanks_nil []
  -- Reading takes no more fuel than the text has characters.
  have hRead := h.readsPart (2 * (Text.ofChars cs).length + 2) [] (by simp [Text.ofChars]; omega)
  simp only [List.nil_append, List.append_nil] at hSkip hRead
  have hMark : (Text.ofChars cs).head? ≠ some (.ofNat 0xfeff) := by
    obtain ⟨c, tail, rfl, hBegins⟩ := h.exists_cons
    exact fun hHead => hBegins.ne_byteOrderMark (Option.some.inj hHead)
  rw [parse, readAll, if_neg hMark, hSkip, hRead]
  rfl

/-! One item or field a line. -/

/-- Names for the fields of one object. -/
structure AreNames (names : List Text) : Prop where
  once : names.Nodup
  whole : ∀ name ∈ names, name.IsWhole

/-- A value that is made of texts, arrays and objects, with at most `depth` arrays and objects inside
each other. -/
inductive Textual : Nat → Json → Prop
  | text {depth : Nat} {t : Text} (hWhole : t.IsWhole) : Textual depth (.str t)
  | array {depth : Nat} {items : List Json} (hItems : ∀ item ∈ items, Textual depth item) :
      Textual (depth + 1) (.arr items)
  | object {depth : Nat} {fields : List (Text × Json)} (hNames : AreNames (fields.map Prod.fst))
      (hValues : ∀ field ∈ fields, Textual depth field.2) : Textual (depth + 1) (.obj fields)

theorem areBlanks_indent (level : Nat) : AreBlanks (indent level) := by
  intro c hMem
  rcases List.mem_cons.mp hMem with rfl | hSpace
  · rfl
  · rw [List.eq_of_mem_replicate hSpace]
    rfl

/-- Values with a layout of their own are the items of an array, one a line. -/
theorem written_prettyItems {level : Nat} {item : Json} {items : List Json}
    (h : ∀ v ∈ item :: items, Written depth (.value v) (prettyAt level v))
    (hBlanks : AreBlanks blanks) :
    Written depth (.items (item :: items))
      (prettyAt level item ++ prettyItems level items ++ blanks ++ [']']) := by
  obtain ⟨hFirst, hOthers⟩ := List.forall_mem_cons.mp h
  induction items generalizing item with
  | nil =>
      rw [prettyItems, List.append_nil]
      exact .lastItem hFirst hBlanks
  | cons second items ih =>
      obtain ⟨hSecond, hMore⟩ := List.forall_mem_cons.mp hOthers
      have hWritten := Written.item hFirst areBlanks_nil (areBlanks_indent level)
        (ih hOthers hSecond hMore)
      rw [prettyItems]
      simpa using hWritten

/-- Values with a layout of their own are the fields of an object, one a line. -/
theorem written_prettyFields {level : Nat} {name : Text} {value : Json} {fields : List (Text × Json)}
    (hWhole : ∀ field ∈ (name, value) :: fields, field.1.IsWhole)
    (h : ∀ field ∈ (name, value) :: fields, Written depth (.value field.2) (prettyAt level field.2))
    (hBlanks : AreBlanks blanks) :
    Written depth (.fields ((name, value) :: fields))
      (writeText name ++ ':' :: ' ' :: prettyAt level value ++ prettyFields level fields ++
        blanks ++ ['}']) := by
  have hSpace : AreBlanks [' '] := List.forall_mem_singleton.mpr rfl
  obtain ⟨hName, hNames⟩ := List.forall_mem_cons.mp hWhole
  obtain ⟨hFirst, hOthers⟩ := List.forall_mem_cons.mp h
  induction fields generalizing name value with
  | nil =>
      have hWritten := Written.lastField hName areBlanks_nil hSpace hFirst hBlanks
      rw [prettyFields]
      simpa using hWritten
  | cons second fields ih =>
      obtain ⟨hSecondName, hMoreNames⟩ := List.forall_mem_cons.mp hNames
      obtain ⟨hSecond, hMore⟩ := List.forall_mem_cons.mp hOthers
      have hWritten := Written.field hName areBlanks_nil hSpace hFirst areBlanks_nil
        (areBlanks_indent level) (ih hNames hOthers hSecondName hMoreNames hSecond hMore)
      rw [prettyFields]
      simpa using hWritten

/-- The indented form of a value is one of its layouts. -/
theorem Textual.written {v : Json} (h : Textual depth v) (level : Nat) :
    Written depth (.value v) (prettyAt level v) := by
  induction h generalizing level with
  | text hWhole =>
      rw [prettyAt]
      exact .text hWhole
  | @array depth items hItems ih =>
      cases items with
      | nil =>
          rw [prettyAt]
          exact .emptyArray areBlanks_nil
      | cons item items =>
          have hInside := written_prettyItems (fun v hMem => ih v hMem (level + 1))
            (areBlanks_indent level)
          rw [prettyAt]
          simpa using Written.array (areBlanks_indent (level + 1)) hInside
  | @object depth fields hNames hValues ih =>
      cases fields with
      | nil =>
          rw [prettyAt]
          exact .emptyObject areBlanks_nil
      | cons field fields =>
          have hInside := written_prettyFields (List.forall_mem_map.mp hNames.whole)
            (fun field hMem => ih field hMem (level + 1)) (areBlanks_indent level)
          rw [prettyAt]
          simpa using Written.object (areBlanks_indent (level + 1)) hNames.once hInside

end ScriptDoc.Json
