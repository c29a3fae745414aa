/-!
# Bytes read as UTF-8

A byte string is a sequence of encoded characters and of bytes that belong to no
valid encoding. `units` splits it that way, `lossy` replaces each stray byte by the
replacement character, and `isValid` says that there is none.
-/

namespace FrameLowering.Text.Utf8

/-- One unit of a byte string read as UTF-8. -/
inductive Piece where
  /-- A validly encoded character. -/
  | char (c : Char)
  /-- A byte outside every valid encoding. -/
  | stray (b : UInt8)
deriving DecidableEq, Repr

/-- Bytes that may follow the first byte of a longer encoding. -/
def isContinuation (b : UInt8) : Bool :=
  0x80 ≤ b && b < 0xc0

/-- Payload of a continuation byte. -/
def low6 (b : UInt8) : Nat :=
  b.toNat % 64

/-- The character encoded at the start of a byte string, and the number of bytes it
takes. Overlong encodings, surrogates and values past U+10FFFF are refused. -/
def first? : List UInt8 → Option (Char × Nat)
  | [] => none
  | b :: bs =>
    if b < 0x80 then
      some (Char.ofNat b.toNat, 1)
    else if 0xc2 ≤ b && b < 0xe0 then
      match bs with
      | b1 :: _ =>
        if isContinuation b1 then
          some (Char.ofNat ((b.toNat - 0xc0) * 64 + low6 b1), 2)
        else none
      | _ => none
    else if 0xe0 ≤ b && b < 0xf0 then
      match bs with
      | b1 :: b2 :: _ =>
        let n := (b.toNat - 0xe0) * 4096 + low6 b1 * 64 + low6 b2
        if isContinuation b1 && isContinuation b2 && 0x800 ≤ n &&
            !(0xd800 ≤ n && n < 0xe000) then
          some (Char.ofNat n, 3)
        else none
      | _ => none
    else if 0xf0 ≤ b && b < 0xf5 then
      match bs with
      | b1 :: b2 :: b3 :: _ =>
        let n := (b.toNat - 0xf0) * 262144 + low6 b1 * 4096 + low6 b2 * 64 + low6 b3
        if isContinuation b1 && isContinuation b2 && isContinuation b3 &&
            0x10000 ≤ n && n < 0x110000 then
          some (Char.ofNat n, 4)
        else none
      | _ => none
    else none

/-- Units of a byte string, where the next `skip` bytes already belong to the last
unit. -/
def unitsFrom : (skip : Nat) → List UInt8 → List Piece
  | _, [] => []
  | n + 1, _ :: bs => unitsFrom n bs
  | 0, b :: bs =>
    match first? (b :: bs) with
    | some (c, len) => .char c :: unitsFrom (len - 1) bs
    | none => .stray b :: unitsFrom 0 bs

/-- Units of a byte string. -/
def units (bs : List UInt8) : List Piece :=
  unitsFrom 0 bs

/-- Whether a byte string is valid UTF-8. -/
def isValid (bs : List UInt8) : Bool :=
  (units bs).all fun
    | .char _ => true
    | .stray _ => false

/-- Characters of a byte string, with the replacement character for each stray byte. -/
def lossy (bs : List UInt8) : String :=
  String.ofList ((units bs).map fun
    | .char c => c
    | .stray _ => '�')

/-- Bytes of a text. -/
def encode (s : String) : List UInt8 :=
  s.toUTF8.toList

end FrameLowering.Text.Utf8
