import FrameLowering.Machine.PackedOffset

/-!
# Addressing-mode families

The family of an instruction says how a memory offset is encoded in its operands: where
the immediate stands, how wide it is, how it is scaled and how a negative offset is
written. `ImmediateField.decode` reads the byte offset of an operand and
`ImmediateField.fits` says which offsets the field can hold.
-/

namespace FrameLowering

/-- An addressing-mode family. -/
inductive Family where
  /-- No memory operand. -/
  | plain
  /-- Data processing with a rotated immediate. -/
  | mode1
  /-- Word and unsigned byte loads and stores. -/
  | mode2
  /-- Halfword and signed byte loads and stores. -/
  | mode3
  /-- Floating-point loads and stores. -/
  | mode5
  /-- Thumb-2 twelve-bit offsets, added. -/
  | t2i12
  /-- Thumb-2 eight-bit offsets in either direction. -/
  | t2i8
  /-- Thumb-2 shifted register offsets. -/
  | t2so
  /-- Thumb-1 offsets from the stack pointer. -/
  | t1s
deriving DecidableEq, Repr, Inhabited

/-- How an immediate offset is represented. -/
inductive FieldKind where
  /-- There is no immediate offset. -/
  | absent
  /-- A magnitude, added. -/
  | unsigned
  /-- A magnitude and a direction bit. -/
  | signMagnitude
  /-- A rotated immediate. -/
  | rotated
deriving DecidableEq, Repr

/-- The immediate offset of an addressing-mode family. -/
structure ImmediateField where
  family : Family
  kind : FieldKind
  /-- Width of the magnitude. -/
  bits : Nat
  /-- Offsets are stored divided by the scale. -/
  scale : Int64
  /-- Position of the immediate after the frame index or base register; none if the
  family has no immediate operand. -/
  position : Option Nat
deriving DecidableEq, Repr

namespace ImmediateField

/-- Largest magnitude, before scaling. -/
def mask (f : ImmediateField) : Int64 :=
  1 <<< Int64.ofNat f.bits - 1

/-- Largest magnitude of an offset that the field holds. -/
def maxOffset (f : ImmediateField) : Int64 :=
  if f.kind = .rotated then 0xff000000 else f.mask * f.scale

/-- The bit that makes the field subtract; zero if it only adds. -/
def directionBit (f : ImmediateField) : Int64 :=
  if f.kind = .signMagnitude then 1 <<< Int64.ofNat f.bits else 0

/-- Byte offset that the operand `v` denotes. -/
def decode (f : ImmediateField) (v : Int64) : Int64 :=
  match f.kind with
  | .absent => 0
  | .unsigned => v * f.scale
  | .rotated => v * f.scale
  | .signMagnitude =>
    let offset := (v &&& f.mask) * f.scale
    if v &&& f.directionBit ≠ 0 then -offset else offset

/-- Magnitude of an offset. The least integer is its own magnitude. -/
def magnitude (offset : Int64) : Int64 :=
  if offset < 0 then -offset else offset

/-- The low 32 bits of an integer. -/
def word (v : Int64) : Word :=
  v.toBitVec.setWidth 32

/-- Whether a magnitude is a multiple of the scale within the range of the field. -/
def holds (f : ImmediateField) (mag : Int64) : Bool :=
  mag % f.scale = 0 && mag ≤ f.maxOffset

/-- Whether the field holds a byte offset without help. -/
def fits (f : ImmediateField) (offset : Int64) : Bool :=
  match f.kind with
  | .absent => offset = 0
  | .rotated =>
    let mag := magnitude offset
    mag ≤ 0xffffffff && RotatedImmediate.isEncodable (word mag)
  | .unsigned => 0 ≤ offset && f.holds offset
  | .signMagnitude => f.holds (magnitude offset)

end ImmediateField

namespace Family

/-- The families, in the order of their numbers. -/
def all : List Family := [.plain, .mode1, .mode2, .mode3, .mode5, .t2i12, .t2i8, .t2so, .t1s]

/-- Name of a family. -/
def name : Family → String
  | .plain => "none"
  | .mode1 => "mode1"
  | .mode2 => "mode2"
  | .mode3 => "mode3"
  | .mode5 => "mode5"
  | .t2i12 => "t2i12"
  | .t2i8 => "t2i8"
  | .t2so => "t2so"
  | .t1s => "t1s"

/-- The family with a given number. -/
def ofNumber? (n : Nat) : Option Family :=
  all[n]?

/-- Name of the family with a given number. -/
def nameOfNumber (n : UInt8) : String :=
  match ofNumber? n.toNat with
  | some f => f.name
  | none => "Family(" ++ toString n.toNat ++ ")"

/-- The immediate field of a family. -/
def field : Family → ImmediateField
  | .plain => ⟨.plain, .absent, 0, 1, none⟩
  | .mode1 => ⟨.mode1, .rotated, 12, 1, some 1⟩
  | .mode2 => ⟨.mode2, .signMagnitude, 12, 1, some 2⟩
  | .mode3 => ⟨.mode3, .signMagnitude, 8, 1, some 2⟩
  | .mode5 => ⟨.mode5, .signMagnitude, 8, 4, some 1⟩
  | .t2i12 => ⟨.t2i12, .unsigned, 12, 1, some 1⟩
  | .t2i8 => ⟨.t2i8, .signMagnitude, 8, 1, some 1⟩
  | .t2so => ⟨.t2so, .absent, 0, 1, some 2⟩
  | .t1s => ⟨.t1s, .unsigned, 8, 4, some 1⟩

end Family

end FrameLowering
