/-!
# Rotated immediates

Data-processing instructions hold an 8-bit value rotated right by an even number of
bits. `rotation` finds the rotation that brings the lowest useful eight bits of a
word into that field, `encode?` gives the twelve bits of the field when they cover the
whole word, and `chunk` is the part of the word that the field covers otherwise.
`chunks` splits a word into such parts.
-/

namespace FrameLowering

/-- A 32-bit machine word. -/
abbrev Word := BitVec 32

namespace RotatedImmediate

/-- Number of zero bits below the lowest one bit; the width for zero. -/
def trailingZeros (w : Word) : Nat :=
  ((List.range 32).find? w.getLsbD).getD 32

/-- An even number at most one below. -/
def evenBelow (n : Nat) : Nat :=
  n - n % 2

/-- Whether a word has no bits past the lowest eight. -/
def isByte (w : Word) : Bool :=
  w &&& ~~~0xff#32 = 0#32

/-- Right rotation that undoes a right rotation by `r`. -/
def undo (r : Nat) : Nat :=
  (32 - r) % 32

/-- Right rotation of the field that covers the lowest useful eight bits of `w`.

A byte needs none. Otherwise the lowest run of bits is tried, and for a word that
wraps around, such as `0xf000000f`, the run after it. -/
def rotation (w : Word) : Nat :=
  if isByte w then
    0
  else
    let first := evenBelow (trailingZeros w)
    if isByte (w.rotateRight first) then
      undo first
    else
      let ones := trailingZeros (~~~w)
      let second := evenBelow (trailingZeros (w &&& ~~~(1#32 <<< ones - 1#32)))
      if w.getLsbD 0 && ones != 32 && second != 32 && isByte (w.rotateRight second) then
        undo second
      else
        undo first

/-- The twelve-bit field that denotes `w`: the rotation over two, then eight bits. -/
def encode? (w : Word) : Option Nat :=
  if isByte w then
    some w.toNat
  else
    let r := rotation w
    if (~~~0xff#32).rotateRight r &&& w ≠ 0#32 then
      none
    else
      some (w.rotateLeft r ||| BitVec.ofNat 32 (r / 2 * 256)).toNat

/-- Whether a word is a rotated immediate. -/
def isEncodable (w : Word) : Bool :=
  (encode? w).isSome

/-- The part of `w` that the field with its rotation covers. It is a rotated immediate,
and it is nonzero for a nonzero word. -/
def chunk (w : Word) : Word :=
  w &&& (0xff#32).rotateRight (rotation w)

/-- At most `fuel` chunks of a word, each taken from what the ones before left. -/
def chunksUpTo : (fuel : Nat) → Word → List Word
  | 0, _ => []
  | fuel + 1, w =>
    if w = 0#32 then []
    else chunk w :: chunksUpTo fuel (w &&& ~~~chunk w)

/-- Chunks that make up a word. Every chunk takes a bit of the rest, so that there are
no more than bits. -/
def chunks (w : Word) : List Word :=
  chunksUpTo 32 w

end RotatedImmediate

end FrameLowering
