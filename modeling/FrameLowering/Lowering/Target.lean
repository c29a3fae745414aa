import FrameLowering.Convention.Architecture
import FrameLowering.Lowering.Error
import FrameLowering.Machine.RegisterClass

/-!
# Targets

A target is a well-formed calling convention together with the options of lowering. It
decides which registers a function may use, which register its frame is addressed from,
and which instructions do the work.
-/

namespace FrameLowering

/-- Options of lowering. -/
structure Config where
  /-- Always establish a frame pointer. -/
  alwaysPointer : Bool := false
  /-- Whether scratch registers are found by scavenging; without it `r12` is taken to be
  free. -/
  scavenging : Bool := true
deriving DecidableEq, Repr, Inhabited

/-- Instruction sets. -/
inductive InstrSet where
  | arm
  | thumb2
  | thumb1
deriving DecidableEq, Repr

/-- Instruction sets that can add an immediate to a register. -/
inductive WideSet where
  | arm
  | thumb2
deriving DecidableEq, Repr

namespace InstrSet

/-- Word load. -/
def load : InstrSet → Opcode
  | .arm => .ldr
  | .thumb2 => .t2ldri12
  | .thumb1 => .tldrspi

/-- Word store. -/
def store : InstrSet → Opcode
  | .arm => .str
  | .thumb2 => .t2stri12
  | .thumb1 => .tstrspi

end InstrSet

namespace WideSet

/-- The instruction set. -/
def set : WideSet → InstrSet
  | .arm => .arm
  | .thumb2 => .thumb2

/-- Addition of an immediate. -/
def add : WideSet → Opcode
  | .arm => .addri
  | .thumb2 => .t2addri

/-- Subtraction of an immediate. -/
def sub : WideSet → Opcode
  | .arm => .subri
  | .thumb2 => .t2subri

/-- Register move. -/
def move : WideSet → Opcode
  | .arm => .movr
  | .thumb2 => .t2movr

end WideSet

/-- A convention to lower for, with options. -/
structure Target where
  abi : Abi
  config : Config
  valid : abi.validate = .ok ()

namespace Target

/-- The target for a convention, if that is well formed. -/
def ofAbi (abi : Abi) (config : Config) : Except AbiError Target :=
  match h : abi.validate with
  | .ok () => .ok ⟨abi, config, h⟩
  | .error e => .error e

/-- The convention used when none is named. -/
def defaultAbi : Abi := .aapcs

/-- The instruction set. -/
def instrSet (t : Target) : InstrSet :=
  if t.abi.thumb1Only then .thumb1 else if t.abi.thumb then .thumb2 else .arm

/-- The instruction set, if it can add an immediate to a register. -/
def wide? (t : Target) : Option WideSet :=
  if t.abi.thumb1Only then none else if t.abi.thumb then some .thumb2 else some .arm

/-- The register used as the frame pointer when one is needed. -/
def framePointer (t : Target) : Reg :=
  t.abi.framePointer

/-- Whether a function must establish a frame pointer. -/
def needsPointer (t : Target) (p : Procedure) : Bool :=
  t.config.alwaysPointer || p.frame.hasVarSized || p.frame.addressTaken

/-- Whether a function has a frame pointer. Once the layout records the decision it is
not made again. -/
def hasPointer (t : Target) (p : Procedure) : Bool :=
  if p.layout.framePointer ≠ .noreg then p.layout.hasFramePointer else t.needsPointer p

/-- The register from which frame objects outside the callee-saved areas are
addressed. -/
def frameRegister (t : Target) (p : Procedure) : Reg :=
  if t.hasPointer p then t.framePointer else Reg.sp

/-- Whether a register is unavailable to the register allocator. -/
def isReserved (t : Target) (p : Procedure) (r : Reg) : Bool :=
  r.isSpecial || (r = t.framePointer && (t.abi.darwin || t.hasPointer p)) ||
    (r = .core 9 && t.abi.r9Reserved)

/-- Reserved registers in register order. -/
def reserved (t : Target) (p : Procedure) : List Reg :=
  Reg.physical.filter (t.isReserved p)

/-- Callee-saved registers in the order in which they are spilled. -/
def calleeSaved (t : Target) : List CalleeSaved :=
  t.abi.calleeSaved

/-- The class that a callee-saved register is spilled as. Thumb-1 spills low registers
apart from the other core registers. -/
def savedClass (t : Target) : Reg → RegClass
  | .double _ => .dpr
  | r => if t.abi.thumb1Only && r.isLow then .tgpr else .gpr

/-- Whether a register is callee-saved. -/
def isCalleeSaved (t : Target) (r : Reg) : Bool :=
  t.calleeSaved.any fun cs => cs.reg = r

end Target

/-- The least multiple of `align` that is not below `n`, for `n` from zero up. -/
def alignTo (n align : Int64) : Int64 :=
  (n + align - 1) / align * align

end FrameLowering
