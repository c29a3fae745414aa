import FrameLowering.Lowering.Target
import FrameLowering.Text.Utf8

/-!
# Frame records

A frame record summarises the frame of a lowered function: enough to find each saved
register, given the stack pointer or the frame pointer in the body of the function.
Registers are numbered as in debug information, and saved registers are located from the
value that the stack pointer had when the function was entered.
-/

namespace FrameLowering

/-- Extent of an area, measured from the stack pointer in the body of the function. -/
structure Extent where
  size : UInt32
  offset : UInt32
deriving DecidableEq, Repr, Inhabited

/-- Where a callee-saved register is stored, relative to the stack pointer on entry. -/
structure SavedReg where
  dwarf : UInt16
  offset : Int32
deriving DecidableEq, Repr, Inhabited

/-- Properties of a frame, a bit for each. -/
structure FrameFlags where
  bits : UInt8
deriving DecidableEq, Repr, Inhabited

/-- The frame of one function. -/
structure Record where
  /-- The function's name, as bytes. -/
  name : List UInt8
  stackSize : UInt32
  varArgsSaveSize : UInt32
  flags : FrameFlags
  /-- Number of the register from which frame objects are addressed. -/
  frameReg : UInt16
  gpr1 : Extent
  gpr2 : Extent
  dpr : Extent
  /-- Saved registers, in spill order. -/
  saved : List SavedReg
deriving DecidableEq, Repr, Inhabited

namespace FrameFlags

/-- The properties and their bits. -/
def names : List (UInt8 × String) := [
  (1, "frame"),
  (2, "fp"),
  (4, "farjump"),
  (8, "varsized")]

/-- The bits of all properties. -/
def mask : UInt8 := 15

/-- Bits that stand for no property. -/
def unknown (f : FrameFlags) : UInt8 :=
  f.bits &&& ~~~mask

/-- Text of a set of properties. -/
def text (f : FrameFlags) : String :=
  if f.bits = 0 then "none"
  else
    let known := (names.filter fun e => f.bits &&& e.1 ≠ 0).map Prod.snd
    let rest := if f.unknown = 0 then [] else [Text.hexInt f.unknown.toNat]
    String.intercalate "|" (known ++ rest)

/-- The properties of a function's frame. -/
def ofProcedure (p : Procedure) : FrameFlags :=
  ⟨(if p.layout.hasStackFrame then 1 else 0) ||| (if p.layout.hasFramePointer then 2 else 0) |||
    (if p.layout.farJump then 4 else 0) ||| (if p.frame.hasVarSized then 8 else 0)⟩

end FrameFlags

/-- The register with a number in debug information; `noreg` if there is none. -/
def Reg.ofDwarf (n : UInt16) : Reg :=
  (Reg.ofDwarf? n.toNat).getD .noreg

/-- Why a function has no record. -/
inductive RecordError where
  | functionName (name : String)
  | noSlot (function : String) (r : Reg)
  | noArea (function : String) (r : Reg)
  | tooManySaved (function : String) (count : Nat)
  /-- A saved register without a number. -/
  | fault (f : Fault)
deriving DecidableEq, Repr

/-- Wording of the cause. -/
def RecordError.message : RecordError → String
  | .functionName name =>
    "invalid function name " ++ Text.quote name ++ ": must be 1-255 bytes"
  | .noSlot function r => function ++ ": " ++ r.name ++ " has no spill slot"
  | .noArea function r => function ++ ": " ++ r.name ++ " is not in a callee-saved area"
  | .tooManySaved function count =>
    function ++ ": too many saved registers: " ++ toString count
  | .fault f => f.message

namespace Record

/-- Longest name, in bytes. -/
def maxName : Nat := 255

/-- Most saved registers. -/
def maxSaved : Nat := 0xffff

/-- The low 32 bits of a size or offset. -/
def word (v : Int64) : UInt32 :=
  v.toUInt64.toUInt32

/-- Where the saved register of a slot is. Object offsets are measured from below the save
area of variadic arguments. -/
def savedReg (p : Procedure) (s : SavedSlot) : Except RecordError SavedReg :=
  match p.frame.object? s.index with
  | none => .error (.noSlot p.name s.reg)
  | some o =>
    if s.area = .outside then .error (.noArea p.name s.reg)
    else
      match s.reg.dwarf with
      | .error f => .error (.fault f)
      | .ok n => .ok ⟨UInt16.ofNat n, (o.offset - p.frame.varArgsSaveSize).toInt32⟩

/-- The record of a function lowered for a target. -/
def ofProcedure (t : Target) (p : Procedure) : Except RecordError Record :=
  let name := Text.Utf8.encode p.name
  let l := p.layout
  if name = [] ∨ maxName < name.length then .error (.functionName p.name)
  else do
    let base ← (t.frameRegister p).dwarf.mapError .fault
    let saved ← p.frame.saved.mapM (savedReg p)
    if maxSaved < saved.length then
      throw (.tooManySaved p.name saved.length)
    return {
      name
      stackSize := word p.frame.stackSize
      varArgsSaveSize := word p.frame.varArgsSaveSize
      flags := FrameFlags.ofProcedure p
      frameReg := UInt16.ofNat base
      gpr1 := ⟨word l.gpr1Size, word l.gpr1Offset⟩
      gpr2 := ⟨word l.gpr2Size, word l.gpr2Offset⟩
      dpr := ⟨word l.dprSize, word l.dprOffset⟩
      saved }

/-- Summary of a record in one line. -/
def text (r : Record) : String :=
  Text.Utf8.lossy r.name ++ ": stack " ++ toString r.stackSize.toNat ++ ", varargs " ++
    toString r.varArgsSaveSize.toNat ++ ", flags " ++ r.flags.text ++ ", base " ++
    (Reg.ofDwarf r.frameReg).name ++
    String.join (r.saved.map fun s =>
      ", " ++ (Reg.ofDwarf s.dwarf).name ++ "@cfa" ++ Text.signedInt s.offset.toInt)

end Record

end FrameLowering
