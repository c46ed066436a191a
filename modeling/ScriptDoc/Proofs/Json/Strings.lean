import Mathlib.Data.List.Chain
import Mathlib.Tactic.SplitIfs
import ScriptDoc.Json.Reader
import ScriptDoc.Json.Writer

/-! Strings that are written and read again. A code point is written as it stands, as an escape or as
two escapes that are the halves of a pair; reading gives pieces that stand for the same code point,
unless they are the first half of a pair and the second comes next. All that is written belongs to
ASCII. -/
namespace ScriptDoc

/-- What lies beyond the halves of pairs is a character. -/
theorem CodePoint.exists_char {c : CodePoint} (h : c.value < 0xd800 ∨ 0xe000 ≤ c.value) :
    ∃ char, c = .char char := by
  cases c with
  | char c => exact ⟨c, rfl⟩
  | half index =>
      have hValue : (CodePoint.half index).value = 0xd800 + index := rfl
      omega

theorem CodePoint.isHigh_toNat (c : Char) : CodePoint.isHigh c.toNat = false := by
  have hValid : c.toNat < 0xd800 ∨ 0xdfff < c.toNat ∧ c.toNat < 0x110000 := c.valid
  simp only [CodePoint.isHigh, Bool.and_eq_false_iff, decide_eq_false_iff_not]
  omega

/-- A text in which no surrogate pair is split: a half may stand alone, but no first half directly
before a second one. -/
def Text.IsWhole (t : Text) : Prop :=
  t.IsChain fun c next => (CodePoint.isHigh c.value && CodePoint.isLow next.value) = false

instance (t : Text) : Decidable t.IsWhole :=
  inferInstanceAs (Decidable (t.IsChain fun c next =>
    (CodePoint.isHigh c.value && CodePoint.isLow next.value) = false))

theorem Text.isWhole_ofChars (cs : List Char) : (Text.ofChars cs).IsWhole := by
  refine (List.pairwise_map.mpr (List.pairwise_of_forall fun c next => ?_)).isChain
  rw [CodePoint.value, CodePoint.isHigh_toNat, Bool.false_and]

theorem Text.ofChars_append (cs others : List Char) :
    Text.ofChars (cs ++ others) = Text.ofChars cs ++ Text.ofChars others :=
  List.map_append

/-- Characters of ASCII alone. -/
def IsAscii (cs : List Char) : Prop :=
  ∀ c ∈ cs, c.toNat < 0x80

namespace IsAscii

variable {c : Char} {cs others : List Char}

theorem of_all (h : cs.all (·.toNat < 0x80) = true) : IsAscii cs :=
  fun c hMem => of_decide_eq_true (List.all_eq_true.mp h c hMem)

theorem cons (hFirst : c.toNat < 0x80) (h : IsAscii cs) : IsAscii (c :: cs) :=
  List.forall_mem_cons.mpr ⟨hFirst, h⟩

theorem append (h : IsAscii cs) (hOthers : IsAscii others) : IsAscii (cs ++ others) :=
  List.forall_mem_append.mpr ⟨h, hOthers⟩

end IsAscii

namespace Json

/-! Escapes by number. -/

theorem hexValue?_digitChar {digit : Nat} (h : digit < 16) :
    Text.hexValue? (.char (Nat.digitChar digit)) = some digit := by
  have hAll : ∀ digit < 16, Text.hexValue? (.char (Nat.digitChar digit)) = some digit := by decide
  exact hAll digit h

/-- The four digits of a unit. -/
theorem hexDigits_four (n : Nat) : Text.hexDigits 4 n =
    [Nat.digitChar (n / 16 / 16 / 16 % 16), Nat.digitChar (n / 16 / 16 % 16),
      Nat.digitChar (n / 16 % 16), Nat.digitChar (n % 16)] := rfl

/-- Four hexadecimal digits of a unit are read as the unit. -/
theorem unitValue?_digits {n : Nat} (h : n < 0x10000) :
    unitValue? (Nat.digitChar (n / 16 / 16 / 16 % 16)) (Nat.digitChar (n / 16 / 16 % 16))
      (Nat.digitChar (n / 16 % 16)) (Nat.digitChar (n % 16)) = some n := by
  have hDigit (m : Nat) : Text.hexValue? (Nat.digitChar (m % 16)) = some (m % 16) :=
    hexValue?_digitChar (Nat.mod_lt m (by decide))
  simp [unitValue?, hDigit]
  omega

/-- Written characters are read as pieces of a string, and reading goes on behind them. -/
def GivesPieces (written : List Char) (pieces : List Piece) : Prop :=
  ∀ rest : Text, rest ≠ [] → readPieces (Text.ofChars written ++ rest) =
    (readPieces rest).map fun found => (pieces ++ found.1, found.2)

/-- Whether the first of the pieces is an escape for the second half of a pair. -/
def beginsLow : List Piece → Bool
  | .unit n :: _ => CodePoint.isLow n
  | _ => false

/-- Pieces stand for one code point, whatever pieces come behind them, unless they give the first half
of a pair and the second comes next. -/
structure StandsFor (pieces : List Piece) (c : CodePoint) : Prop where
  join : ∀ more, (CodePoint.isHigh c.value && beginsLow more) = false →
    joinPieces (pieces ++ more) = c :: joinPieces more
  low : ∀ more, beginsLow (pieces ++ more) = true → CodePoint.isLow c.value = true

/-- Pieces are read one after the other. -/
theorem GivesPieces.append {first second : List Char} {pieces more : List Piece}
    (h : GivesPieces first pieces) (hMore : GivesPieces second more) :
    GivesPieces (first ++ second) (pieces ++ more) := by
  intro rest hRest
  have hSecond : Text.ofChars second ++ rest ≠ [] := List.append_ne_nil_of_right_ne_nil _ hRest
  rw [Text.ofChars_append, List.append_assoc, h _ hSecond, hMore rest hRest]
  cases readPieces rest with
  | error stop => rfl
  | ok found => simp [Except.map]

/-- The escape of a unit is one piece. -/
theorem givesPieces_unitEscape {n : Nat} (h : n < 0x10000) :
    GivesPieces (unitEscape n) [.unit n] := by
  intro rest hRest
  obtain ⟨e, rest, rfl⟩ := List.exists_cons_of_ne_nil hRest
  rw [unitEscape, hexDigits_four]
  simp only [Text.ofChars, List.map_cons, List.map_nil, List.cons_append, List.nil_append]
  rw [readPieces]
  simp [unitValue?_digits h]
  cases readPieces (e :: rest) <;> rfl

/-- A letter behind a backslash is read as what it stands for. -/
theorem givesPieces_escaped {e : Char} {c : CodePoint} (h : escaped? e = some c) :
    GivesPieces ['\\', e] [.point c] := by
  intro rest _
  change readPieces (.char '\\' :: .char e :: rest) = _
  rw [readPieces]
  · simp only [h]
    cases readPieces rest <;> rfl
  · intro _ _ _ _ _ _ hSame
    cases hSame
    cases h

/-- A character that neither ends the string nor begins an escape is read as it stands. -/
theorem givesPieces_plain {c : Char} (hQuote : c ≠ '"') (hBackslash : c ≠ '\\')
    (hControl : 0x20 ≤ (CodePoint.char c).value) : GivesPieces [c] [.point c] := by
  intro rest _
  have hNoEscape : CodePoint.char c ≠ .char '\\' := fun hSame => hBackslash (CodePoint.char.inj hSame)
  have hNoEnd : CodePoint.char c ≠ .char '"' := fun hSame => hQuote (CodePoint.char.inj hSame)
  change readPieces (.char c :: rest) = _
  rw [readPieces, if_neg hNoEnd, if_neg (Nat.not_lt.mpr hControl)]
  · cases readPieces rest <;> rfl
  · exact fun hSame => absurd hSame hNoEscape
  · exact fun _ _ _ _ _ _ hSame => absurd hSame hNoEscape
  · exact fun _ _ hSame => absurd hSame hNoEscape

/-! What pieces stand for. -/

theorem standsFor_point (c : CodePoint) : StandsFor [.point c] c where
  join := fun _ _ => rfl
  low := fun _ hLow => absurd hLow Bool.false_ne_true

/-- A unit alone stands for its code point, whatever does not complete it to a pair. -/
theorem standsFor_unit (c : CodePoint) : StandsFor [.unit c.value] c where
  join := by
    intro more hMore
    rw [List.singleton_append]
    cases more with
    | nil => exact congrArg (· :: []) (CodePoint.ofNat_value c)
    | cons piece more =>
        cases piece with
        | point other => exact congrArg (· :: other :: joinPieces more) (CodePoint.ofNat_value c)
        | unit v =>
            have hApart : (CodePoint.isHigh c.value && CodePoint.isLow v) = false := hMore
            rw [joinPieces, hApart, if_neg Bool.false_ne_true, CodePoint.ofNat_value]
  low := fun _ hLow => hLow

/-- A character beyond sixteen bits is put together from its halves. -/
theorem standsFor_pair {c : Char} (h : 0x10000 ≤ c.toNat) :
    StandsFor [.unit (0xd800 + (c.toNat - 0x10000) / 0x400),
      .unit (0xdc00 + (c.toNat - 0x10000) % 0x400)] c := by
  have hValid : c.toNat < 0xd800 ∨ 0xdfff < c.toNat ∧ c.toNat < 0x110000 := c.valid
  have hHigh : CodePoint.isHigh (0xd800 + (c.toNat - 0x10000) / 0x400) = true := by
    simp only [CodePoint.isHigh, Bool.and_eq_true, decide_eq_true_eq]
    omega
  have hLow : CodePoint.isLow (0xdc00 + (c.toNat - 0x10000) % 0x400) = true := by
    simp only [CodePoint.isLow, Bool.and_eq_true, decide_eq_true_eq]
    omega
  have hValue : 0x10000 + (0xd800 + (c.toNat - 0x10000) / 0x400 - 0xd800) * 0x400 +
      (0xdc00 + (c.toNat - 0x10000) % 0x400 - 0xdc00) = c.toNat := by omega
  refine ⟨fun more _ => ?_, fun more hFirst => ?_⟩
  · rw [List.cons_append, List.singleton_append, joinPieces, hHigh, hLow, Bool.and_self, if_pos rfl,
      CodePoint.ofPair, hValue, Char.ofNat_toNat]
  · have hNumber : CodePoint.isLow (0xd800 + (c.toNat - 0x10000) / 0x400) = true := hFirst
    simp only [CodePoint.isLow, Bool.and_eq_true, decide_eq_true_eq] at hNumber
    omega

/-- The written form of a character is read as that character. -/
def IsReadAs (written : List Char) (c : CodePoint) : Prop :=
  ∃ pieces, GivesPieces written pieces ∧ StandsFor pieces c

theorem isReadAs_escaped {e : Char} {c : CodePoint} (h : escaped? e = some c) :
    IsReadAs ['\\', e] c :=
  ⟨[.point c], givesPieces_escaped h, standsFor_point c⟩

theorem isReadAs_unitEscape {c : CodePoint} (h : c.value < 0x10000) :
    IsReadAs (unitEscape c.value) c :=
  ⟨[.unit c.value], givesPieces_unitEscape h, standsFor_unit c⟩

/-- Every character of ASCII is read as itself, escaped or not. -/
theorem isReadAs_escapeAscii {c : Char} (h : c.toNat < 0x80) : IsReadAs (escapeAscii c) c := by
  unfold escapeAscii
  split_ifs with hQuote hBackslash hFeed hReturn hTab hBack hPage hPrintable
  · subst hQuote
    exact isReadAs_escaped rfl
  · subst hBackslash
    exact isReadAs_escaped rfl
  · subst hFeed
    exact isReadAs_escaped rfl
  · subst hReturn
    exact isReadAs_escaped rfl
  · subst hTab
    exact isReadAs_escaped rfl
  · obtain rfl : c = '\x08' := Char.toNat_inj.mp hBack
    exact isReadAs_escaped rfl
  · obtain rfl : c = '\x0c' := Char.toNat_inj.mp hPage
    exact isReadAs_escaped rfl
  · exact ⟨[.point c], givesPieces_plain hQuote hBackslash hPrintable.1, standsFor_point c⟩
  · exact isReadAs_unitEscape (c := .char c) (Nat.lt_trans h (by decide))

/-- Every code point is read back from what is written for it. -/
theorem isReadAs_escapePoint (c : CodePoint) : IsReadAs (escapePoint c) c := by
  unfold escapePoint
  dsimp only
  split_ifs with hAscii hUnit
  · obtain ⟨c, rfl⟩ := CodePoint.exists_char (.inl (Nat.lt_trans hAscii (by decide)))
    rw [CodePoint.value, Char.ofNat_toNat]
    exact isReadAs_escapeAscii hAscii
  · exact isReadAs_unitEscape hUnit
  · have hWide := Nat.not_lt.mp hUnit
    obtain ⟨c, rfl⟩ := CodePoint.exists_char (.inr (Nat.le_trans (by decide) hWide))
    have hValid : c.toNat < 0xd800 ∨ 0xdfff < c.toNat ∧ c.toNat < 0x110000 := c.valid
    have hFirst : 0xd800 + (c.toNat - 0x10000) / 0x400 < 0x10000 := by omega
    have hSecond : 0xdc00 + (c.toNat - 0x10000) % 0x400 < 0x10000 := by omega
    exact ⟨_, (givesPieces_unitEscape hFirst).append (givesPieces_unitEscape hSecond),
      standsFor_pair hWide⟩

/-! Whole strings. -/

/-- A string is read as pieces that stand for its text, and that begin with a second half only if the
text does. -/
theorem readPieces_flatMap {t : Text} (h : t.IsWhole) (rest : Text) :
    ∃ pieces, readPieces (Text.ofChars (t.flatMap escapePoint) ++ .char '"' :: rest) =
      .ok (pieces, rest) ∧ joinPieces pieces = t ∧
      (beginsLow pieces = true → ∃ c ∈ t.head?, CodePoint.isLow c.value = true) := by
  induction t with
  | nil => exact ⟨[], rfl, rfl, fun hLow => absurd hLow Bool.false_ne_true⟩
  | cons c t ih =>
      obtain ⟨hNext, hOthers⟩ := List.isChain_cons.mp h
      obtain ⟨found, hRead, hJoin, hLow⟩ := ih hOthers
      obtain ⟨pieces, hGives, hStands⟩ := isReadAs_escapePoint c
      -- Only a second half right behind a first one is read otherwise, and the text has none there.
      have hApart : (CodePoint.isHigh c.value && beginsLow found) = false := by
        cases hFound : beginsLow found with
        | false => exact Bool.and_false _
        | true =>
            obtain ⟨next, hHead, hNextLow⟩ := hLow hFound
            rw [← hNextLow]
            exact hNext next hHead
      refine ⟨pieces ++ found, ?_, ?_, fun hFirst => ⟨c, rfl, hStands.low found hFirst⟩⟩
      · rw [List.flatMap_cons, Text.ofChars_append, List.append_assoc,
          hGives _ (List.append_ne_nil_of_right_ne_nil _ (List.cons_ne_nil _ _)), hRead]
        rfl
      · rw [hStands.join found hApart, hJoin]

/-- A string is read back as the text that was written. -/
theorem readString_flatMap {t : Text} (h : t.IsWhole) (rest : Text) :
    readString (Text.ofChars (t.flatMap escapePoint) ++ .char '"' :: rest) = .ok (t, rest) := by
  obtain ⟨pieces, hRead, hJoin, _⟩ := readPieces_flatMap h rest
  rw [readString, hRead, ← hJoin]
  rfl

/-! Written strings belong to ASCII. -/

theorem isAscii_unitEscape (n : Nat) : IsAscii (unitEscape n) := by
  have hDigit (m : Nat) : (Nat.digitChar (m % 16)).toNat < 0x80 := by
    have hAll : ∀ digit < 16, (Nat.digitChar digit).toNat < 0x80 := by decide
    exact hAll _ (Nat.mod_lt m (by decide))
  rw [unitEscape, hexDigits_four]
  exact .cons (by decide) (.cons (by decide) (.cons (hDigit _) (.cons (hDigit _)
    (.cons (hDigit _) (.cons (hDigit _) (.of_all rfl))))))

theorem isAscii_escapeAscii {c : Char} (h : c.toNat < 0x80) : IsAscii (escapeAscii c) := by
  unfold escapeAscii
  split_ifs
  iterate 7 exact .of_all rfl
  · exact .cons h (.of_all rfl)
  · exact isAscii_unitEscape _

theorem isAscii_escapePoint (c : CodePoint) : IsAscii (escapePoint c) := by
  unfold escapePoint
  dsimp only
  split_ifs with hAscii
  · obtain ⟨c, rfl⟩ := CodePoint.exists_char (.inl (Nat.lt_trans hAscii (by decide)))
    rw [CodePoint.value, Char.ofNat_toNat]
    exact isAscii_escapeAscii hAscii
  · exact isAscii_unitEscape _
  · exact (isAscii_unitEscape _).append (isAscii_unitEscape _)

/-- What is beyond ASCII is escaped. -/
theorem isAscii_writeText (t : Text) : IsAscii (writeText t) := by
  have hInside : IsAscii (t.flatMap escapePoint) := by
    intro c hMem
    obtain ⟨point, _, hChar⟩ := List.mem_flatMap.mp hMem
    exact isAscii_escapePoint point c hChar
  exact .cons (by decide) (hInside.append (.of_all rfl))

end Json
end ScriptDoc
