import FrameLowering.Lowering.Target

/-!
# The spill set

Which callee-saved registers a function must spill. To those that it uses are added the
link register, so that the return can be folded into the restores, the frame pointer,
and possibly others: one that makes the number of integer spills even when the stack is
aligned to eight bytes, or enough to have a scratch register later on when the frame may
be too large for some instruction to address. Failing that a slot is made for scavenging.
-/

namespace FrameLowering

/-- Bytes of code from which a Thumb-1 function spills the link register for the sake of
far branches. -/
def farJumpThreshold : Nat := 2048

/-- The largest offset of a word load or store. -/
def defaultOffsetLimit : Int64 := 4095

namespace Procedure

/-- Records a register as used and spilled. -/
def spill (p : Procedure) (r : Reg) : Procedure :=
  { p with regs := p.regs.use r, layout := p.layout.spill r }

/-- Bytes that the fixed objects below the stack pointer on entry reach down. -/
def fixedDepth (p : Procedure) : Int64 :=
  p.frame.fixed.foldl (fun depth o => if depth < -o.offset then -o.offset else depth) 0

/-- An upper bound of the frame's size without the callee-saved areas. -/
def estimateSize (p : Procedure) : Int64 :=
  p.frame.objects.foldl
    (fun offset o => if o.dead then offset else alignTo (offset + o.size) o.align) p.fixedDepth

end Procedure

/-- The largest frame offset that an instruction can encode without help, from a limit
that the others set. -/
def Inst.narrowLimit (limit : Int64) (i : Inst) : Int64 :=
  if i.frameIndexAt.isNone then limit
  else
    match i.info.family with
    | .mode3 => min limit 255
    | .mode5 => min limit 1020
    | .t2i8 => min limit 255
    | _ => limit

/-- The largest frame offset that every instruction with a frame index can encode without
help. -/
def Procedure.narrowestLimit (p : Procedure) : Int64 :=
  p.insts.foldl Inst.narrowLimit defaultOffsetLimit

/-- Progress in choosing the spill set. -/
structure SpillPlan where
  proc : Procedure
  /-- Core registers of the first area that are not spilled. -/
  free1 : List Reg
  /-- Core registers of the other areas that are not spilled. -/
  free2 : List Reg
  /-- Number of spilled core registers. -/
  coreSpills : Nat
  /-- Whether a register was spilled beyond those in use. -/
  extra : Bool
  /-- Whether the link register is still to be spilled for far branches. -/
  farJump : Bool
deriving Repr

namespace SpillPlan

/-- The plan with a register spilled and no longer free. -/
def spill (s : SpillPlan) (r : Reg) : SpillPlan :=
  { s with
    proc := s.proc.spill r
    free1 := s.free1.erase r
    free2 := s.free2.erase r }

end SpillPlan

namespace Target

/-- Callee-saved registers in use, directly or through shared storage. -/
def savedInUse (t : Target) (p : Procedure) : List CalleeSaved :=
  t.calleeSaved.filter fun cs => p.isUsed cs.reg

/-- Callee-saved registers that are spilled as core registers. -/
def savedCores (t : Target) : List CalleeSaved :=
  t.calleeSaved.filter fun cs => t.savedClass cs.reg = .gpr

/-- Whether a core register of the first area is in use. -/
def firstAreaInUse (t : Target) (p : Procedure) : Bool :=
  t.savedCores.any fun cs => p.isUsed cs.reg && cs.area = .gpr1

/-- Whether the link register is in use. -/
def linkInUse (t : Target) (p : Procedure) : Bool :=
  t.savedCores.any fun cs => p.isUsed cs.reg && cs.reg = Reg.lr

/-- The plan with the registers in use spilled. -/
def startPlan (t : Target) (p : Procedure) : SpillPlan :=
  let free := t.savedCores.filter fun cs => !p.isUsed cs.reg
  { proc := { p with
      layout := (t.savedInUse p).foldl (fun l cs => l.spill cs.reg) p.layout }
    free1 := (free.filter fun cs => cs.area = .gpr1).map CalleeSaved.reg
    free2 := (free.filter fun cs => cs.area ≠ .gpr1).map CalleeSaved.reg
    coreSpills := (t.savedCores.filter fun cs => p.isUsed cs.reg).length
    extra := false
    farJump := !t.linkInUse p && t.abi.thumb1Only && farJumpThreshold ≤ p.size }

/-- Spills the link register together with other registers of its area. -/
def planLink (t : Target) (p : Procedure) (s : SpillPlan) : SpillPlan :=
  if !t.linkInUse p && t.firstAreaInUse p then
    { s with
      proc := s.proc.spill Reg.lr
      free1 := s.free1.erase Reg.lr
      coreSpills := s.coreSpills + 1
      extra := true
      farJump := false }
  else s

/-- Spills the frame pointer, which has to point at its own saved value. -/
def planPointer (t : Target) (p : Procedure) (s : SpillPlan) : SpillPlan :=
  if t.abi.darwin || t.hasPointer p then
    let fp := t.framePointer
    let s :=
      if s.proc.layout.isSpilled fp then s
      else { s with proc := s.proc.spill fp, coreSpills := s.coreSpills + 1 }
    { s with free1 := s.free1.erase fp, free2 := s.free2.erase fp }
  else s

/-- Registers that Thumb-1 can spill for alignment; all of them otherwise. -/
def canAlign (t : Target) (r : Reg) : Bool :=
  !t.abi.thumb1Only || r.isLow || r = Reg.lr

/-- The register to spill to make the number of integer spills even. -/
def alignmentSpill? (t : Target) (p : Procedure) (s : SpillPlan) : Option Reg :=
  if t.firstAreaInUse p && s.free1 ≠ [] then
    s.free1.find? fun r => !t.isReserved p r && t.canAlign r
  else if t.abi.thumb1Only then none
  else s.free2.find? fun r => !t.isReserved p r

/-- Spills a register to make the number of integer spills even, on a stack aligned to
eight bytes. -/
def planAlignment (t : Target) (p : Procedure) (s : SpillPlan) : SpillPlan :=
  if t.abi.stackAlignment = 8 && s.coreSpills % 2 = 1 then
    match t.alignmentSpill? p s with
    | some r => { s.spill r with extra := true }
    | none => s
  else s

/-- Spills enough registers to have a scratch register if the frame may be too large for
the narrowest addressing mode in use, the least preferred first. If there are not enough,
makes a slot for scavenging. -/
def reserveHeadroom (t : Target) (p : Procedure) (s : SpillPlan) : Procedure :=
  if s.proc.estimateSize < s.proc.narrowestLimit then s.proc
  else
    let need := (t.abi.stackAlignment / 4).toInt.toNat
    let extras :=
      ((s.free1.reverse ++ s.free2.reverse).filter fun r => !t.isReserved p r).take need
    if extras.length = need then
      extras.foldl Procedure.spill s.proc
    else
      let (index, frame) := s.proc.frame.push { size := RegClass.gpr.size, align := 4 }
      { s.proc with frame := { frame with scavengingIndex := index } }

/-- Makes sure of a scratch register, unless a register was spilled anyway. -/
def planHeadroom (t : Target) (p : Procedure) (scavenger : Bool) (s : SpillPlan) : SpillPlan :=
  if scavenger && !s.extra && !t.abi.thumb1Only then
    { s with proc := t.reserveHeadroom p s }
  else s

/-- Spills the link register for far branches. This is a guess from the size of the
function before lowering. -/
def spillForFarJump (s : SpillPlan) : Procedure :=
  if s.farJump then
    let p := s.proc.spill Reg.lr
    { p with layout := { p.layout with farJump := true } }
  else s.proc

/-- Decides which callee-saved registers a function spills, and whether it has a stack
frame. -/
def finalizeSpillSet (t : Target) (scavenger : Bool) (p : Procedure) : Procedure :=
  let s := t.startPlan p
  if t.savedInUse p ≠ [] || s.farJump || t.hasPointer p then
    let framed := { s.proc with layout := { s.proc.layout with hasStackFrame := true } }
    let s := t.planLink p { s with proc := framed }
    let s := t.planPointer p s
    let s := t.planAlignment p s
    spillForFarJump (t.planHeadroom p scavenger s)
  else
    spillForFarJump s

end Target

end FrameLowering
