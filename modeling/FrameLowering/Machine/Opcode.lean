import FrameLowering.Machine.Addressing
import FrameLowering.Machine.Register

/-!
# Opcodes

The machine instructions that frame lowering has to understand, in the ARM, Thumb-2 and
Thumb-1 instruction sets, and three pseudo-instructions. Each opcode has a descriptor,
which gives its encoded size, its addressing-mode family and the shape of its operands.
-/

namespace FrameLowering

/-- A machine instruction. -/
inductive Opcode where
  | addri
  | subri
  | addrr
  | movr
  | movi
  | ldr
  | str
  | ldrb
  | strb
  | ldrh
  | strh
  | ldrsh
  | ldrcp
  | fldd
  | fstd
  | flds
  | fsts
  | bl
  | bxRet
  | t2addri
  | t2subri
  | t2movr
  | t2ldri12
  | t2stri12
  | t2ldri8
  | t2stri8
  | t2ldrs
  | t2strs
  | t2bl
  | tmovr
  | tldrspi
  | tstrspi
  | tbl
  | tbxRet
  | callFrameDown
  | callFrameUp
  | inlineAsm
deriving DecidableEq, Repr, Inhabited

/-- Properties of an instruction beyond its operands. -/
structure OpcodeFlags where
  /-- Returns from the function. -/
  isReturn : Bool := false
  /-- Calls another function. -/
  isCall : Bool := false
  /-- Marks the start of a call sequence. -/
  isSetup : Bool := false
  /-- Marks the end of a call sequence. -/
  isDestroy : Bool := false
  /-- Stands for assembly text. -/
  isAsm : Bool := false
  isLoad : Bool := false
  isStore : Bool := false
  /-- Takes any number of operands. -/
  isVariadic : Bool := false
deriving DecidableEq, Repr

/-- The flags as a bit set, the first flag lowest. -/
def OpcodeFlags.bits (f : OpcodeFlags) : Nat :=
  [f.isReturn, f.isCall, f.isSetup, f.isDestroy, f.isAsm, f.isLoad, f.isStore,
    f.isVariadic].foldr (fun b n => 2 * n + b.toNat) 0

/-- Descriptor of an opcode. -/
structure OpcodeInfo where
  name : List Char
  family : Family := .plain
  /-- Encoded size in bytes; zero for a pseudo-instruction. -/
  size : Nat := 4
  flags : OpcodeFlags := {}
  /-- Number of leading operands that are register definitions. -/
  defs : Nat := 0
  /-- Number of fixed operands. -/
  operands : Nat
  /-- Position of the condition, which the predicate register follows. None if the
  instruction cannot be predicated. -/
  predicate : Option Nat
deriving DecidableEq, Repr

namespace Opcode

/-- The opcodes, in the order of their numbers. -/
def all : List Opcode := [
  .addri, .subri, .addrr, .movr, .movi, .ldr, .str, .ldrb, .strb, .ldrh, .strh, .ldrsh, .ldrcp,
  .fldd, .fstd, .flds, .fsts, .bl, .bxRet, .t2addri, .t2subri, .t2movr, .t2ldri12, .t2stri12,
  .t2ldri8, .t2stri8, .t2ldrs, .t2strs, .t2bl, .tmovr, .tldrspi, .tstrspi, .tbl, .tbxRet,
  .callFrameDown, .callFrameUp, .inlineAsm]

/-- Name of an opcode. -/
def chars : Opcode → List Char
  | .addri => "ADDri".toList
  | .subri => "SUBri".toList
  | .addrr => "ADDrr".toList
  | .movr => "MOVr".toList
  | .movi => "MOVi".toList
  | .ldr => "LDR".toList
  | .str => "STR".toList
  | .ldrb => "LDRB".toList
  | .strb => "STRB".toList
  | .ldrh => "LDRH".toList
  | .strh => "STRH".toList
  | .ldrsh => "LDRSH".toList
  | .ldrcp => "LDRcp".toList
  | .fldd => "FLDD".toList
  | .fstd => "FSTD".toList
  | .flds => "FLDS".toList
  | .fsts => "FSTS".toList
  | .bl => "BL".toList
  | .bxRet => "BX_RET".toList
  | .t2addri => "t2ADDri".toList
  | .t2subri => "t2SUBri".toList
  | .t2movr => "t2MOVr".toList
  | .t2ldri12 => "t2LDRi12".toList
  | .t2stri12 => "t2STRi12".toList
  | .t2ldri8 => "t2LDRi8".toList
  | .t2stri8 => "t2STRi8".toList
  | .t2ldrs => "t2LDRs".toList
  | .t2strs => "t2STRs".toList
  | .t2bl => "t2BL".toList
  | .tmovr => "tMOVr".toList
  | .tldrspi => "tLDRspi".toList
  | .tstrspi => "tSTRspi".toList
  | .tbl => "tBL".toList
  | .tbxRet => "tBX_RET".toList
  | .callFrameDown => "ADJCALLSTACKDOWN".toList
  | .callFrameUp => "ADJCALLSTACKUP".toList
  | .inlineAsm => "INLINEASM".toList

/-- Name of an opcode. -/
def name (op : Opcode) : String :=
  String.ofList op.chars

/-- Number of an opcode, counted from one. -/
def number (op : Opcode) : Nat :=
  all.idxOf op + 1

/-- The opcode with a given number. -/
def ofNumber? (n : Nat) : Option Opcode :=
  if n = 0 then none else all[n - 1]?

/-- Name of the opcode with a given number. -/
def nameOfNumber (n : UInt16) : String :=
  match ofNumber? n.toNat with
  | some op => op.name
  | none => "Opcode(" ++ toString n.toNat ++ ")"

/-- The opcode with a given name, in any case. -/
def ofName? (cs : List Char) : Option Opcode :=
  let key := Text.lower cs
  all.find? fun op => Text.lower op.chars = key

/-- A register computed from a register and an immediate or another register. -/
def dataInfo (op : Opcode) (family : Family) : OpcodeInfo :=
  { name := op.chars, family, defs := 1, operands := 5, predicate := some 3 }

/-- A register set from one operand. -/
def moveInfo (op : Opcode) (size : Nat) : OpcodeInfo :=
  { name := op.chars, size, defs := 1, operands := 4, predicate := some 2 }

/-- A load with so many operands, the last two of which predicate it. -/
def loadInfo (op : Opcode) (family : Family) (size operands : Nat) : OpcodeInfo :=
  { name := op.chars, family, size, flags := { isLoad := true }, defs := 1, operands,
    predicate := some (operands - 2) }

/-- A store with so many operands, the last two of which predicate it. -/
def storeInfo (op : Opcode) (family : Family) (size operands : Nat) : OpcodeInfo :=
  { name := op.chars, family, size, flags := { isStore := true }, operands,
    predicate := some (operands - 2) }

/-- A call, with the callee and any number of uses. -/
def callInfo (op : Opcode) : OpcodeInfo :=
  { name := op.chars, flags := { isCall := true, isVariadic := true }, operands := 1,
    predicate := none }

/-- A return. -/
def returnInfo (op : Opcode) (size : Nat) : OpcodeInfo :=
  { name := op.chars, size, flags := { isReturn := true }, operands := 2, predicate := some 0 }

/-- Descriptor of an opcode. -/
def info : Opcode → OpcodeInfo
  | .addri => dataInfo .addri .mode1
  | .subri => dataInfo .subri .mode1
  | .addrr => dataInfo .addrr .plain
  | .movr => moveInfo .movr 4
  | .movi => moveInfo .movi 4
  | .ldr => loadInfo .ldr .mode2 4 6
  | .str => storeInfo .str .mode2 4 6
  | .ldrb => loadInfo .ldrb .mode2 4 6
  | .strb => storeInfo .strb .mode2 4 6
  | .ldrh => loadInfo .ldrh .mode3 4 6
  | .strh => storeInfo .strh .mode3 4 6
  | .ldrsh => loadInfo .ldrsh .mode3 4 6
  | .ldrcp => loadInfo .ldrcp .plain 4 6
  | .fldd => loadInfo .fldd .mode5 4 5
  | .fstd => storeInfo .fstd .mode5 4 5
  | .flds => loadInfo .flds .mode5 4 5
  | .fsts => storeInfo .fsts .mode5 4 5
  | .bl => callInfo .bl
  | .bxRet => returnInfo .bxRet 4
  | .t2addri => dataInfo .t2addri .mode1
  | .t2subri => dataInfo .t2subri .mode1
  | .t2movr => moveInfo .t2movr 4
  | .t2ldri12 => loadInfo .t2ldri12 .t2i12 4 5
  | .t2stri12 => storeInfo .t2stri12 .t2i12 4 5
  | .t2ldri8 => loadInfo .t2ldri8 .t2i8 4 5
  | .t2stri8 => storeInfo .t2stri8 .t2i8 4 5
  | .t2ldrs => loadInfo .t2ldrs .t2so 4 6
  | .t2strs => storeInfo .t2strs .t2so 4 6
  | .t2bl => callInfo .t2bl
  | .tmovr => moveInfo .tmovr 2
  | .tldrspi => loadInfo .tldrspi .t1s 2 5
  | .tstrspi => storeInfo .tstrspi .t1s 2 5
  | .tbl => callInfo .tbl
  | .tbxRet => returnInfo .tbxRet 2
  | .callFrameDown =>
    { name := Opcode.callFrameDown.chars, size := 0, flags := { isSetup := true }, operands := 3,
      predicate := some 1 }
  | .callFrameUp =>
    { name := Opcode.callFrameUp.chars, size := 0, flags := { isDestroy := true }, operands := 4,
      predicate := some 2 }
  | .inlineAsm =>
    { name := Opcode.inlineAsm.chars, family := .mode2, size := 0,
      flags := { isAsm := true, isVariadic := true }, operands := 0, predicate := none }

/-- Markers around a call sequence. -/
def isMarker (op : Opcode) : Bool :=
  op.info.flags.isSetup || op.info.flags.isDestroy

/-- Registers that a call writes beyond its own definitions. -/
def clobbers : List Reg :=
  [.core 0, .core 1, .core 2, .core 3, .core 12, .core 14]

/-- Registers that a return reads beyond its own uses: the results and the link
register. -/
def returnUses : List Reg :=
  [.core 0, .core 1, .core 14]

end Opcode

end FrameLowering
