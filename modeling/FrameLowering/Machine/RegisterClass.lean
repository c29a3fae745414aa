import FrameLowering.Fault

/-!
# Register classes

Registers of one class are interchangeable for allocation. A class has a spill size and
alignment, its members, and an order of allocation that prefers registers which a call
destroys, so that fewer have to be preserved.
-/

namespace FrameLowering

/-- A register class. -/
inductive RegClass where
  /-- The class of nothing. -/
  | empty
  /-- All core registers. -/
  | gpr
  /-- The low core registers. -/
  | tgpr
  /-- Single-precision registers. -/
  | spr
  /-- Double-precision registers. -/
  | dpr
deriving DecidableEq, Repr, Inhabited

/-- Properties of a register class. -/
structure ClassInfo where
  /-- Bytes needed to spill a member. -/
  size : Nat
  /-- Alignment of a spill slot. -/
  align : Nat
  members : List Reg
  /-- Default order of allocation. -/
  order : List Reg
deriving DecidableEq, Repr

namespace RegClass

/-- The classes with members, in the order of their numbers. -/
def all : List RegClass := [.gpr, .tgpr, .spr, .dpr]

/-- Number of a class. -/
def number : RegClass → Nat
  | .empty => 0
  | .gpr => 1
  | .tgpr => 2
  | .spr => 3
  | .dpr => 4

/-- The class with a given number. -/
def ofNumber? : Nat → Option RegClass
  | 0 => some .empty
  | 1 => some .gpr
  | 2 => some .tgpr
  | 3 => some .spr
  | 4 => some .dpr
  | _ => none

/-- Name of a class. -/
def name : RegClass → String
  | .empty => "Class(0)"
  | .gpr => "GPR"
  | .tgpr => "tGPR"
  | .spr => "SPR"
  | .dpr => "DPR"

/-- Name of the class with a given number. -/
def nameOfNumber (n : UInt8) : String :=
  match ofNumber? n.toNat with
  | some c => c.name
  | none => "Class(" ++ toString n.toNat ++ ")"

/-- The class with a given name, in any case. -/
def ofName? (cs : List Char) : Option RegClass :=
  all.find? fun c => Text.sameFold c.name.toList cs

/-- The low core registers in register order. -/
def lowCores : List Reg :=
  [.core 0, .core 1, .core 2, .core 3, .core 4, .core 5, .core 6, .core 7]

/-- Core registers in order of allocation. -/
def coreOrder : List Reg := [
  .core 0, .core 1, .core 2, .core 3, .core 12, .core 14, .core 4, .core 5, .core 6, .core 7,
  .core 8, .core 9, .core 10, .core 11]

/-- Double-precision registers in order of allocation. -/
def doubleOrder : List Reg :=
  Reg.doubles.take 8 ++ Reg.doubles.drop 16 ++ (Reg.doubles.drop 8).take 8

/-- Properties of a class; the empty class has none. -/
def info? : RegClass → Option ClassInfo
  | .empty => none
  | .gpr => some ⟨4, 4, Reg.cores, coreOrder⟩
  | .tgpr => some ⟨4, 4, lowCores, lowCores⟩
  | .spr => some ⟨4, 4, Reg.singles, Reg.singles⟩
  | .dpr => some ⟨8, 8, Reg.doubles, doubleOrder⟩

/-- Properties of a class that has some. -/
def info (c : RegClass) : Except Fault ClassInfo :=
  match c.info? with
  | some i => .ok i
  | none => .error (.invalidClass c.number)

/-- Properties of the class with a given number. -/
def infoOfNumber (n : UInt8) : Except Fault ClassInfo :=
  match ofNumber? n.toNat with
  | some c => c.info
  | none => .error (.invalidClass n.toNat)

/-- Bytes of a spill slot for a member. -/
def size : RegClass → Int64
  | .dpr => 8
  | _ => 4

/-- Membership in a class. -/
def contains : RegClass → Reg → Bool
  | .gpr, .core _ => true
  | .tgpr, r => r.isLow
  | .spr, .single _ => true
  | .dpr, .double _ => true
  | _, _ => false

/-- The smallest class that contains a register. -/
def of : Reg → RegClass
  | .core n => if n.val < 8 then .tgpr else .gpr
  | .single _ => .spr
  | .double _ => .dpr
  | _ => .empty

end RegClass

end FrameLowering
