import FrameLowering.Machine.RotatedImmediate

/-!
# Packed offsets

Load and store instructions keep the direction of their offset beside its magnitude in
one operand. Addressing mode 2 packs twelve bits, a direction and a shift; modes 3 and 5
pack eight bits and a direction.
-/

namespace FrameLowering

/-- Whether an offset is added to or subtracted from the base register. -/
inductive Direction where
  | add
  | sub
deriving DecidableEq, Repr

/-- Sign of a direction. -/
def Direction.name : Direction → String
  | .add => "+"
  | .sub => "-"

/-- The direction that a bit stands for. -/
def Direction.ofBit (b : Bool) : Direction :=
  if b then .sub else .add

namespace PackedOffset

/-- Largest shift code of addressing mode 2. -/
def maxShift : UInt8 := 5

/-- An integer as an operand of 64 bits. -/
def operand (n : Nat) : Int64 :=
  Int64.ofNat n

/-- Bits `lo`, `lo + 1`, … of an operand. -/
def bitsFrom (lo : Nat) (v : Int64) : BitVec 64 :=
  v.toBitVec.sshiftRight lo

/-- Addressing mode 2: twelve bits, direction and shift. -/
def pack12 (d : Direction) (imm : Word) (shift : UInt8) : Int64 :=
  operand (imm.toNat % 4096 + (if d = .sub then 4096 else 0) + shift.toNat * 8192)

/-- Magnitude of a mode 2 operand. -/
def magnitude12 (v : Int64) : Nat :=
  v.toBitVec.toNat % 4096

/-- Direction of a mode 2 operand. -/
def direction12 (v : Int64) : Direction :=
  .ofBit (v.toBitVec.getLsbD 12)

/-- Shift of a mode 2 operand: eight bits above the direction. -/
def shift12 (v : Int64) : UInt8 :=
  UInt8.ofNat (bitsFrom 13 v).toNat

/-- Addressing modes 3 and 5: eight bits and direction. -/
def pack8 (d : Direction) (imm : Word) : Int64 :=
  operand (imm.toNat % 256 + if d = .sub then 256 else 0)

/-- Magnitude of a mode 3 or mode 5 operand. -/
def magnitude8 (v : Int64) : Nat :=
  v.toBitVec.toNat % 256

/-- Direction of a mode 3 or mode 5 operand. -/
def direction8 (v : Int64) : Direction :=
  .ofBit (v.toBitVec.getLsbD 8)

end PackedOffset

end FrameLowering
