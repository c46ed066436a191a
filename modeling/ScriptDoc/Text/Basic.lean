/-! Texts as lists of code points. A code point is a character or, since JSON texts can name one, a
half of a surrogate pair that stands alone. Texts are compared by the code points of their first
difference, and they name the entries of lists. A line ends at a line feed and nowhere else; other
line ends exist only until `unifyNewlines` has replaced them. -/
namespace ScriptDoc

/-- A code point: a character, or one of the 2048 halves of surrogate pairs by its number. -/
inductive CodePoint
  | char (c : Char)
  | half (index : Fin 0x800)
  deriving DecidableEq, Repr

instance : Coe Char CodePoint :=
  ⟨.char⟩

namespace CodePoint

def value : CodePoint → Nat
  | .char c => c.toNat
  | .half index => 0xd800 + index

def ofNat (n : Nat) : CodePoint :=
  if h : 0xd800 ≤ n ∧ n < 0xe000 then .half ⟨n - 0xd800, by omega⟩ else .char (Char.ofNat n)

theorem ofNat_value (c : CodePoint) : ofNat c.value = c := by
  cases c with
  | char c =>
    have hNot : ¬ (0xd800 ≤ c.toNat ∧ c.toNat < 0xe000) := by
      have hValid : c.toNat < 0xd800 ∨ 0xdfff < c.toNat ∧ c.toNat < 0x110000 := c.valid
      omega
    simp [ofNat, value, hNot]
  | half index =>
    have hIn : 0xd800 ≤ 0xd800 + index.val ∧ 0xd800 + index.val < 0xe000 := by omega
    simp [ofNat, value, hIn]

def isAscii (c : CodePoint) : Bool :=
  decide (c.value < 0x80)

def isHigh (n : Nat) : Bool :=
  decide (0xd800 ≤ n) && decide (n ≤ 0xdbff)

def isLow (n : Nat) : Bool :=
  decide (0xdc00 ≤ n) && decide (n ≤ 0xdfff)

def ofPair (high low : Nat) : CodePoint :=
  .char (Char.ofNat (0x10000 + (high - 0xd800) * 0x400 + (low - 0xdc00)))

end CodePoint

/-- A text: its code points in order. -/
abbrev Text := List CodePoint

namespace Text

def ofChars (cs : List Char) : Text :=
  cs.map .char

def ofString (s : String) : Text :=
  ofChars s.toList

instance : Coe String Text :=
  ⟨ofString⟩

def ofNat (n : Nat) : Text :=
  ofChars (Nat.toDigits 10 n)

/-- The characters of a text that is made of them alone. -/
def chars? : Text → Option (List Char)
  | [] => some []
  | .char c :: rest => (chars? rest).map (c :: ·)
  | .half _ :: _ => none

def toString? (t : Text) : Option String :=
  (chars? t).map String.ofList

/-- Whether a code point lies in one of the ranges; both ends of a range belong to it. Ranges ascend
and are disjoint, so the walk stops at the first one that begins above the code point. -/
def inRanges (n : Nat) : List (Nat × Nat) → Bool
  | [] => false
  | (lo, hi) :: rest => decide (lo ≤ n) && (decide (n ≤ hi) || inRanges n rest)

/-! Order, and entries under names. -/

/-- Whether a text comes before another one: at their first difference it has the smaller code
point, or it ends there. -/
def precedes : Text → Text → Bool
  | _, [] => false
  | [], _ :: _ => true
  | a :: as, b :: bs => decide (a.value < b.value) || (a == b && precedes as bs)

/-- Puts an entry before the first one whose key is not smaller. -/
def insertByKey {α : Type} (key : α → Text) (entry : α) : List α → List α
  | [] => [entry]
  | other :: rest =>
    if precedes (key other) (key entry) then other :: insertByKey key entry rest
    else entry :: other :: rest

/-- The entries in ascending order of their keys; entries of one key stay in order. -/
def ascendingBy {α : Type} (key : α → Text) : List α → List α
  | [] => []
  | entry :: rest => insertByKey key entry (ascendingBy key rest)

/-- The texts in ascending order, repetitions kept. -/
def ascending (texts : List Text) : List Text :=
  ascendingBy id texts

/-- Puts a value under a name: in the place of what it named before, at the end if that is
nothing. -/
def putEntry {α : Type} (name : Text) (value : α) : List (Text × α) → List (Text × α)
  | [] => [(name, value)]
  | (key, old) :: rest =>
    if key = name then (key, value) :: rest else (key, old) :: putEntry name value rest

/-! Pieces and lines. -/

/-- The lines of a text, at least one. -/
def linesOf (t : Text) : List Text :=
  t.splitOn (.char '\n')

/-- What follows a given beginning, if the text begins so. -/
def dropStart? : Text → Text → Option Text
  | [], cs => some cs
  | _ :: _, [] => none
  | p :: start, c :: cs => if p = c then dropStart? start cs else none

def newlines (t : Text) : Nat :=
  t.count (.char '\n')

theorem newlines_append (s t : Text) : newlines (s ++ t) = newlines s + newlines t :=
  List.count_append

/-- A carriage return, alone or before a line feed, becomes a line feed. -/
def unifyNewlines : Text → Text
  | [] => []
  | .char '\r' :: .char '\n' :: rest => .char '\n' :: unifyNewlines rest
  | c :: rest => (if c = '\r' then .char '\n' else c) :: unifyNewlines rest

def replace (old new : CodePoint) (t : Text) : Text :=
  t.map fun c => if c = old then new else c

end Text
end ScriptDoc
