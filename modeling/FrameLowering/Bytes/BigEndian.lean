/-!
# Big-endian integers

Integers of a fixed number of bytes, the most significant byte first.
-/

namespace FrameLowering.BigEndian

/-- The lowest `width` bytes of an integer. -/
def encode : (width : Nat) → Nat → List UInt8
  | 0, _ => []
  | w + 1, n => encode w (n / 256) ++ [UInt8.ofNat n]

/-- The integer with given bytes. -/
def decode (bs : List UInt8) : Nat :=
  bs.foldl (fun n b => n * 256 + b.toNat) 0

/-- Takes a number of bytes off the front, if there are as many. -/
def take? (width : Nat) (bs : List UInt8) : Option (List UInt8 × List UInt8) :=
  if (bs.take width).length = width then some (bs.take width, bs.drop width) else none

/-- Takes an integer of `width` bytes off the front. -/
def read? (width : Nat) (bs : List UInt8) : Option (Nat × List UInt8) :=
  match take? width bs with
  | some (front, rest) => some (decode front, rest)
  | none => none

/-- Takes bytes off the front whose number stands before them in `width` bytes. -/
def readSized? (width : Nat) (bs : List UInt8) : Option (List UInt8 × List UInt8) :=
  match read? width bs with
  | some (n, rest) => take? n rest
  | none => none

/-- Bytes with their number in front, in `width` bytes. -/
def encodeSized (width : Nat) (bs : List UInt8) : List UInt8 :=
  encode width bs.length ++ bs

end FrameLowering.BigEndian
