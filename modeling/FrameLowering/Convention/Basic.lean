import FrameLowering.Convention.Area
import FrameLowering.Machine.Register

/-!
# Calling conventions

A calling convention is a variant of the procedure call standard that a function is
compiled for. It fixes the instruction set, the frame pointer, the alignment of the
stack at calls and the registers that a function preserves, with the area that holds
each. `Abi.validate` accepts the conventions that are consistent, and names the first
thing wrong with the others.
-/

namespace FrameLowering

/-- A register that a function must preserve, and the area that holds it. -/
structure CalleeSaved where
  reg : Reg
  area : Area
deriving DecidableEq, Repr

/-- A variant of the procedure call standard. -/
structure Abi where
  name : String
  /-- The variant in which the frame pointer is always `r7` and points at the saved
  frame pointer. -/
  darwin : Bool := false
  /-- Object format that adjusts debug offsets when there is a frame pointer. -/
  elf : Bool := false
  /-- Thumb instructions. -/
  thumb : Bool := false
  /-- Only the 16-bit Thumb instructions. -/
  thumb1Only : Bool := false
  /-- Whether `r9` belongs to the platform. -/
  r9Reserved : Bool := false
  /-- Alignment of the stack at calls, in bytes. -/
  stackAlignment : Int64
  /-- Callee-saved registers in spill order; none for the list of the variant. -/
  customSaved : Option (List CalleeSaved) := none
deriving DecidableEq, Repr

namespace Abi

/-- The frame pointer. -/
def framePointer (abi : Abi) : Reg :=
  if abi.darwin || abi.thumb then .core 7 else .core 11

/-- The area that holds a register when it is saved. -/
def area (abi : Abi) : Reg → Area
  | .core n =>
    if n.val ∈ [4, 5, 6, 7, 14] then .gpr1
    else if n.val ∈ [8, 9, 10, 11] then
      if abi.darwin then .gpr2 else .gpr1
    else .outside
  | .double n => if 8 ≤ n.val ∧ n.val ≤ 15 then .dpr else .outside
  | _ => .outside

/-- Saved double-precision registers in spill order. -/
def savedDoubles : List CalleeSaved := [
  ⟨.double 15, .dpr⟩, ⟨.double 14, .dpr⟩, ⟨.double 13, .dpr⟩, ⟨.double 12, .dpr⟩,
  ⟨.double 11, .dpr⟩, ⟨.double 10, .dpr⟩, ⟨.double 9, .dpr⟩, ⟨.double 8, .dpr⟩]

/-- Saved registers of the base standard. -/
def baseSaved : List CalleeSaved := [
  ⟨.core 14, .gpr1⟩, ⟨.core 11, .gpr1⟩, ⟨.core 10, .gpr1⟩, ⟨.core 9, .gpr1⟩, ⟨.core 8, .gpr1⟩,
  ⟨.core 7, .gpr1⟩, ⟨.core 6, .gpr1⟩, ⟨.core 5, .gpr1⟩, ⟨.core 4, .gpr1⟩] ++ savedDoubles

/-- Saved registers of the variant with frame pointer `r7`, which does not save `r9`. -/
def darwinSaved : List CalleeSaved := [
  ⟨.core 14, .gpr1⟩, ⟨.core 7, .gpr1⟩, ⟨.core 6, .gpr1⟩, ⟨.core 5, .gpr1⟩, ⟨.core 4, .gpr1⟩,
  ⟨.core 11, .gpr2⟩, ⟨.core 10, .gpr2⟩, ⟨.core 8, .gpr2⟩] ++ savedDoubles

/-- Callee-saved registers in the order in which they are spilled. -/
def calleeSaved (abi : Abi) : List CalleeSaved :=
  match abi.customSaved with
  | some list => list
  | none => if abi.darwin then darwinSaved else baseSaved

/-- The base standard. -/
def aapcs : Abi :=
  { name := "aapcs", elf := true, stackAlignment := 8 }

/-- The base standard with Thumb-2 instructions. -/
def aapcsThumb2 : Abi :=
  { name := "aapcs-thumb2", elf := true, thumb := true, stackAlignment := 8 }

/-- The base standard with Thumb-1 instructions. -/
def aapcsThumb1 : Abi :=
  { name := "aapcs-thumb1", elf := true, thumb := true, thumb1Only := true, stackAlignment := 8 }

/-- The variant with frame pointer `r7`. -/
def darwinArm : Abi :=
  { name := "darwin", darwin := true, r9Reserved := true, stackAlignment := 4 }

/-- The variant with frame pointer `r7` and Thumb-2 instructions. -/
def darwinThumb2 : Abi :=
  { name := "darwin-thumb2", darwin := true, thumb := true, r9Reserved := true,
    stackAlignment := 4 }

/-- The variant with frame pointer `r7` and Thumb-1 instructions. -/
def darwinThumb1 : Abi :=
  { name := "darwin-thumb1", darwin := true, thumb := true, thumb1Only := true,
    r9Reserved := true, stackAlignment := 4 }

/-- The predefined conventions, by name. -/
def predefined : List Abi :=
  [aapcs, aapcsThumb1, aapcsThumb2, darwinArm, darwinThumb1, darwinThumb2]

/-- The predefined convention with a given name. -/
def ofName? (s : String) : Option Abi :=
  predefined.find? fun abi => abi.name = s

/-- Names of the predefined conventions, in order. -/
def names : List String :=
  predefined.map Abi.name

end Abi

end FrameLowering
