import ScriptDoc.Text.Basic

/-! Texts as bytes. `decodeUtf8` reads UTF-8 strictly and says where and why bytes are no text;
`mendUtf8` puts something in the place of such bytes; `decodeDetected?` first tells UTF-8, UTF-16
and UTF-32 apart by the mark or the zero bytes at the beginning, and takes halves of surrogate pairs
as they come. -/
namespace ScriptDoc.Text

inductive ByteFault
  | badStart
  | badContinuation
  | endOfData
  deriving DecidableEq, Repr

/-- The bytes that are no character: where they begin, how many were looked at, and the first of
them. -/
structure DecodeFault where
  start : Nat
  width : Nat
  first : UInt8
  fault : ByteFault
  deriving DecidableEq, Repr

def ByteFault.message : ByteFault → String
  | .badStart => "invalid start byte"
  | .badContinuation => "invalid continuation byte"
  | .endOfData => "unexpected end of data"

def hexByte (b : UInt8) : String :=
  String.ofList [Nat.digitChar (b.toNat / 16), Nat.digitChar (b.toNat % 16)]

/-- The fault in words: one byte is named by its value, several by their positions. -/
def DecodeFault.message (f : DecodeFault) : String :=
  if f.width = 1 then
    s!"'utf-8' codec can't decode byte 0x{hexByte f.first} in position {f.start}: {f.fault.message}"
  else
    let last := f.start + f.width - 1
    s!"'utf-8' codec can't decode bytes in position {f.start}-{last}: {f.fault.message}"

/-- A character whose first bytes have been read: these bytes, their value, how many more are owed,
and the least and greatest byte that may come next. -/
structure OpenChar where
  first : UInt8
  others : List UInt8
  value : Nat
  owed : Nat
  low : Nat
  high : Nat

def OpenChar.bytes (o : OpenChar) : List UInt8 :=
  o.first :: o.others

/-- The fault of a character that is broken off at a position. -/
def OpenChar.faultAt (o : OpenChar) (pos : Nat) (fault : ByteFault) : DecodeFault :=
  ⟨pos - o.bytes.length, o.bytes.length, o.first, fault⟩

/-- What a byte amounts to: a whole code point, more of one, or nothing that may come there. -/
inductive ByteRole
  | whole (c : CodePoint)
  | part (o : OpenChar)
  | misplaced

/-- What a byte at the beginning of a character amounts to. The bounds on the second byte keep out
longer forms than needed, values above U+10FFFF and, unless `halves` are taken, surrogates. -/
def ByteRole.ofFirst (halves : Bool) (b : UInt8) : ByteRole :=
  let n := b.toNat
  if n < 0x80 then .whole (.ofNat n)
  else if n < 0xc2 then .misplaced
  else if n < 0xe0 then .part ⟨b, [], n - 0xc0, 1, 0x80, 0xbf⟩
  else if n = 0xe0 then .part ⟨b, [], 0, 2, 0xa0, 0xbf⟩
  else if n = 0xed then .part ⟨b, [], 0xd, 2, 0x80, if halves then 0xbf else 0x9f⟩
  else if n < 0xf0 then .part ⟨b, [], n - 0xe0, 2, 0x80, 0xbf⟩
  else if n = 0xf0 then .part ⟨b, [], 0, 3, 0x90, 0xbf⟩
  else if n < 0xf4 then .part ⟨b, [], n - 0xf0, 3, 0x80, 0xbf⟩
  else if n = 0xf4 then .part ⟨b, [], 4, 3, 0x80, 0x8f⟩
  else .misplaced

/-- What a byte inside a character amounts to. -/
def OpenChar.role (o : OpenChar) (b : UInt8) : ByteRole :=
  if o.low ≤ b.toNat ∧ b.toNat ≤ o.high then
    let value := o.value * 64 + (b.toNat - 0x80)
    if o.owed = 1 then .whole (.ofNat value)
    else .part ⟨o.first, o.others ++ [b], value, o.owed - 1, 0x80, 0xbf⟩
  else .misplaced

/-- Reads bytes from position `pos` on, behind the code points in `done` (last one first). -/
def decodeUtf8From (halves : Bool) (pos : Nat) (pending : Option OpenChar) (done : Text) :
    List UInt8 → Except DecodeFault Text
  | [] =>
    match pending with
    | none => .ok done.reverse
    | some o => .error (o.faultAt pos .endOfData)
  | b :: rest =>
    match pending with
    | none =>
      match ByteRole.ofFirst halves b with
      | .whole c => decodeUtf8From halves (pos + 1) none (c :: done) rest
      | .part o => decodeUtf8From halves (pos + 1) (some o) done rest
      | .misplaced => .error ⟨pos, 1, b, .badStart⟩
    | some o =>
      match o.role b with
      | .whole c => decodeUtf8From halves (pos + 1) none (c :: done) rest
      | .part o => decodeUtf8From halves (pos + 1) (some o) done rest
      | .misplaced => .error (o.faultAt pos .badContinuation)

def decodeUtf8 (bytes : List UInt8) : Except DecodeFault Text :=
  decodeUtf8From false 0 none [] bytes

/-- The text that the bytes stand for in UTF-8, where halves of surrogate pairs may stand alone. -/
def decodeLoose? (bytes : List UInt8) : Option Text :=
  (decodeUtf8From true 0 none [] bytes).toOption

/-- What has been read of bytes that may be faulty: the code points, last one first, and the
character that is being read. -/
structure Mended where
  done : Text := []
  pending : Option OpenChar := none

namespace Mended

def add (m : Mended) (t : Text) : Mended :=
  ⟨t.reverse ++ m.done, none⟩

/-- Reads a byte at the beginning of a character, with `mark` in the place of a byte that cannot
be there. -/
def begin (mark : List UInt8 → Text) (m : Mended) (b : UInt8) : Mended :=
  match ByteRole.ofFirst false b with
  | .whole c => m.add [c]
  | .part o => { m with pending := some o }
  | .misplaced => m.add (mark [b])

/-- Reads a byte. One that breaks off a character may begin another. -/
def step (mark : List UInt8 → Text) (m : Mended) (b : UInt8) : Mended :=
  match m.pending with
  | none => m.begin mark b
  | some o =>
    match o.role b with
    | .whole c => m.add [c]
    | .part o => { m with pending := some o }
    | .misplaced => (m.add (mark o.bytes)).begin mark b

def text (mark : List UInt8 → Text) (m : Mended) : Text :=
  match m.pending with
  | none => m.done.reverse
  | some o => (m.add (mark o.bytes)).done.reverse

end Mended

/-- The text that the bytes stand for in UTF-8, with `mark` in the place of each longest run of
bytes that begin a character without ending it. -/
def mendWith (mark : List UInt8 → Text) (bytes : List UInt8) : Text :=
  (bytes.foldl (Mended.step mark) {}).text mark

/-- The text that the bytes stand for in UTF-8, with the replacement character for what is none.
-/
def mendUtf8 (bytes : List UInt8) : Text :=
  mendWith (fun _ => [.ofNat 0xfffd]) bytes

/-- The text of the bytes of a file name: bytes that are no character become second halves of
surrogate pairs. -/
def decodeName (bytes : List UInt8) : Text :=
  mendWith (fun bad => bad.map fun b => .ofNat (0xdc00 + b.toNat)) bytes

/-- The bytes of a file name, if it can be one. -/
def encodeName? : Text → Option (List UInt8)
  | [] => some []
  | c :: rest => do
    let bytes ←
      match c with
      | .char c => some (String.utf8EncodeChar c)
      | .half index =>
        if 0x480 ≤ index.val ∧ index.val < 0x500 then some [UInt8.ofNat (index - 0x400)] else none
    return bytes ++ (← encodeName? rest)

inductive ByteOrder
  | big
  | little
  deriving DecidableEq, Repr

def units16? (order : ByteOrder) : List UInt8 → Option (List Nat)
  | [] => some []
  | [_] => none
  | a :: b :: rest =>
    let unit := if order = .big then a.toNat * 256 + b.toNat else b.toNat * 256 + a.toNat
    (units16? order rest).map (unit :: ·)

def units32? (order : ByteOrder) : List UInt8 → Option (List Nat)
  | [] => some []
  | a :: b :: c :: d :: rest =>
    let unit :=
      if order = .big then ((a.toNat * 256 + b.toNat) * 256 + c.toNat) * 256 + d.toNat
      else ((d.toNat * 256 + c.toNat) * 256 + b.toNat) * 256 + a.toNat
    (units32? order rest).map (unit :: ·)
  | _ => none

def ofUnits16 : List Nat → Text
  | [] => []
  | [u] => [.ofNat u]
  | u :: v :: rest =>
    if CodePoint.isHigh u && CodePoint.isLow v then .ofPair u v :: ofUnits16 rest
    else .ofNat u :: ofUnits16 (v :: rest)

def decodeUtf16? (order : ByteOrder) (bytes : List UInt8) : Option Text :=
  (units16? order bytes).map ofUnits16

def decodeUtf32? (order : ByteOrder) (bytes : List UInt8) : Option Text :=
  (units32? order bytes).bind fun units =>
    if units.all (· ≤ 0x10ffff) then some (units.map .ofNat) else none

/-- The text of bytes in an encoding that is told by a byte order mark, which is dropped, or else
by which of the first four bytes are zero, as the first two characters of a JSON text are ASCII.
-/
def decodeDetected? (bytes : List UInt8) : Option Text :=
  match bytes with
  | 0 :: 0 :: 0xfe :: 0xff :: rest => decodeUtf32? .big rest
  | 0xff :: 0xfe :: 0 :: 0 :: rest => decodeUtf32? .little rest
  | 0xfe :: 0xff :: rest => decodeUtf16? .big rest
  | 0xff :: 0xfe :: rest => decodeUtf16? .little rest
  | 0xef :: 0xbb :: 0xbf :: rest => decodeLoose? rest
  | a :: b :: c :: d :: _ =>
    if a = 0 then
      if b = 0 then decodeUtf32? .big bytes else decodeUtf16? .big bytes
    else if b = 0 then
      if c = 0 ∧ d = 0 then decodeUtf32? .little bytes else decodeUtf16? .little bytes
    else decodeLoose? bytes
  | [a, b] =>
    if a = 0 then decodeUtf16? .big bytes
    else if b = 0 then decodeUtf16? .little bytes
    else decodeLoose? bytes
  | _ => decodeLoose? bytes

end ScriptDoc.Text
