import FrameLowering.Lowering.Scavenging

/-!
# Frame index elimination

A frame index is replaced by a base register and an offset. The offset of an object is
first expressed from the stack pointer in the function's body, moved by `spAdj` bytes
while a call is being set up. The slots of saved registers are accessed while the
prologue or epilogue moves the stack pointer, so their offsets count from the bottom of
their area; other objects are addressed from the frame pointer if there is one.

If the instruction can encode the offset it is changed in place. Otherwise as much of the
offset as possible is folded into the instruction, and the rest is added to the base in a
scratch register. `Target.expand` gives the instructions that then stand for the one
instruction.
-/

namespace FrameLowering

/-- What stands for an instruction once its frame index is eliminated. If that failed,
`inst` is the instruction as it was then. -/
structure Expansion where
  before : List Inst := []
  inst : Inst
  after : List Inst := []
  failure : Option Failure := none
deriving Repr

/-- An instruction with part of an offset folded into it. -/
structure Folded where
  inst : Inst
  /-- What is left of the offset, or why it cannot be folded. -/
  rest : Except (Reason × Detail) Int64
deriving Repr

namespace Inst

/-- The instruction with an operand replaced. -/
def setOperand (i : Inst) (place : Nat) (o : Operand) : Inst :=
  { i with operands := i.operands.set place o }

end Inst

/-- Largest magnitude that fits in a machine word. -/
def maxWord : Int64 := 0xffffffff

/-- Folds an offset into an instruction that adds an immediate to the frame index at a
place. -/
def WideSet.foldAdd (s : WideSet) (i : Inst) (place : Nat) (base : Reg) (offset : Int64) : Folded :=
  match i.operands[place + 1]? with
  | some (.imm v) =>
    let offset := offset + v
    let mag := ImmediateField.magnitude offset
    let signed := if offset < 0 then { i with op := s.sub } else i
    let based := signed.setOperand place (.use base)
    let w := ImmediateField.word mag
    if offset = 0 then
      ⟨⟨s.move, (based.operands).eraseIdx (place + 1)⟩, .ok 0⟩
    else if maxWord < mag then
      ⟨signed, .error (.unencodable, .offset mag)⟩
    else if RotatedImmediate.isEncodable w then
      ⟨based.setOperand (place + 1) (.imm mag), .ok 0⟩
    else
      let chunk := Int64.ofNat (RotatedImmediate.chunk w).toNat
      let rest := mag &&& ~~~chunk
      ⟨based.setOperand (place + 1) (.imm chunk), .ok (if offset < 0 then -rest else rest)⟩
  | _ => ⟨i, .error (.unencodable, .missingImmediate)⟩

/-- Families whose memory offsets can be folded. -/
def Family.isFoldable : Family → Bool
  | .mode2 | .mode3 | .mode5 | .t2i12 | .t2i8 | .t2so => true
  | _ => false

/-- The opcode that takes an eight-bit offset in either direction instead of a
twelve-bit offset that is added. -/
def Opcode.negativeForm : Opcode → Opcode
  | .t2ldri12 => .t2ldri8
  | .t2stri12 => .t2stri8
  | op => op

/-- The instruction with the opcode that suits the sign of an offset. -/
def Inst.orient (i : Inst) (offset : Int64) : Inst :=
  if offset < 0 && i.info.family.field.kind = .unsigned then
    { i with op := i.op.negativeForm }
  else i

/-- Writes as much as fits of an offset to the immediate of a field, and gives what is
left. -/
def ImmediateField.split (f : ImmediateField) (offset : Int64) : Int64 × Int64 :=
  let mag := magnitude offset
  let direction := if offset < 0 then f.directionBit else 0
  if mag ≤ f.maxOffset then (mag / f.scale ||| direction, 0)
  else
    let rest := mag &&& ~~~(f.mask * f.scale)
    (mag / f.scale &&& f.mask ||| direction, if offset < 0 then -rest else rest)

/-- Folds an offset, which is a multiple of the scale, into a load or store based on the
frame index at a place, with its immediate at another. -/
def Inst.foldOffset (i : Inst) (place immediate : Nat) (base : Reg) (offset : Int64) : Folded :=
  let i := (i.orient offset).setOperand place (.use base)
  let f := i.info.family.field
  match f.kind with
  -- The immediate is a shift, and the base takes the whole offset.
  | .absent => ⟨i, .ok offset⟩
  | .unsigned =>
    if offset < 0 then ⟨i.setOperand immediate (.imm 0), .ok offset⟩
    else
      let (v, rest) := f.split offset
      ⟨i.setOperand immediate (.imm v), .ok rest⟩
  | _ =>
    let (v, rest) := f.split offset
    ⟨i.setOperand immediate (.imm v), .ok rest⟩

/-- Folds an offset into a load or store through the frame index at a place. -/
def Inst.foldMemory (i : Inst) (place : Nat) (base : Reg) (offset : Int64) : Folded :=
  let family := i.info.family
  let f := family.field
  match family.isFoldable, f.position with
  | true, some position =>
    match i.operands[place + position]? with
    | some (.imm v) =>
      let offset := offset + f.decode v
      if offset % f.scale ≠ 0 then
        ⟨i, .error (.unencodable, .notMultiple offset f.scale)⟩
      else
        i.foldOffset place (place + position) base offset
    | _ => ⟨i, .error (.unencodable, .missingImmediate)⟩
  | _, _ => ⟨i, .error (.unsupportedMode, .addressing family offset)⟩

/-- A base register and an offset from it. -/
structure Address where
  base : Reg
  offset : Int64
deriving DecidableEq, Repr

/-- An instruction whose frame index has a base register in its place, and what is still
to be added to the base. -/
structure Rebased where
  inst : Inst
  /-- Position of the base register. -/
  place : Nat
  base : Reg
  rest : Int64
deriving Repr

/-- An instruction that could not be lowered. -/
structure Stuck where
  inst : Inst
  failure : Failure
deriving Repr

namespace Target

/-- The address of a frame object. -/
def address (t : Target) (p : Procedure) (index : Int64) (o : FrameObject) (spAdj : Int64) :
    Except Fault Address :=
  let area := p.layout.area index
  if area ≠ .outside then
    match p.layout.areaOffset area with
    | .ok bottom => .ok ⟨Reg.sp, o.offset + p.frame.stackSize + spAdj - bottom⟩
    | .error f => .error f
  else if t.hasPointer p then
    -- The frame pointer does not move with calls.
    .ok ⟨t.framePointer, o.offset + p.frame.stackSize - p.layout.fpSpillOffset⟩
  else
    .ok ⟨Reg.sp, o.offset + p.frame.stackSize + spAdj⟩

/-- Folds an offset into an instruction. -/
def fold (_ : Target) (s : WideSet) (i : Inst) (place : Nat) (a : Address) : Folded :=
  if i.op = s.add then s.foldAdd i place a.base a.offset
  else i.foldMemory place a.base a.offset

/-- Replaces the frame index of an instruction by a base register, with as much of the
offset folded in as possible. -/
def rebase (t : Target) (s : WideSet) (p : Procedure) (block : Nat) (i : Inst) (spAdj : Int64) :
    Except Stuck Rebased :=
  let fail (j : Inst) (reason : Reason) (detail : Detail) : Except Stuck Rebased :=
    .error ⟨j, .error (.inst p.name block j reason detail)⟩
  match i.frameIndexAt with
  | none => fail i .noFrameIndex .operandMissing
  | some place =>
    let index := (i.operands[place]?.map Operand.value).getD 0
    match p.frame.object? index with
    | none => fail i .noFrameIndex (.noObject index)
    | some o =>
      match t.address p index o spAdj with
      | .error f => .error ⟨i, .fault f⟩
      | .ok a =>
        let folded := t.fold s i place a
        match folded.rest with
        | .error (reason, detail) => fail folded.inst reason detail
        | .ok rest =>
          if maxWord < rest || rest < -maxWord then
            fail folded.inst .unencodable (.remainder rest)
          else
            .ok ⟨folded.inst, place, a.base, rest⟩

end Target

namespace Rebased

/-- Instructions that form the base in a scratch register. -/
def chain (r : Rebased) (s : WideSet) (scratch : Reg) : List Inst :=
  let (c, pred) := r.inst.predicate
  s.addConstant scratch r.base r.rest c pred

/-- The instruction based on a scratch register, which it reads for the last time. -/
def through (r : Rebased) (scratch : Reg) : Inst :=
  r.inst.setOperand r.place (.reg scratch false true)

end Rebased

namespace Target

/-- Expansion of an instruction with `r12` as the scratch register. -/
def expandDirect (t : Target) (s : WideSet) (p : Procedure) (block : Nat) (i : Inst)
    (spAdj : Int64) : Expansion :=
  match t.rebase s p block i spAdj with
  | .error e => { inst := e.inst, failure := some e.failure }
  | .ok r =>
    if r.rest = 0 then { inst := r.inst }
    else if r.inst.refers Reg.r12 then
      { inst := r.inst
        failure := some (.error (.inst p.name block r.inst .noScratch (.scratchInUse r.rest))) }
    else
      { before := r.chain s Reg.r12, inst := r.through Reg.r12 }

/-- A scratch register that is free at an instruction. Registers that the function does
not save come first. -/
def freeScratch? (t : Target) (p : Procedure) (s : Site) : Option Reg :=
  (t.findUnused p s RegClass.coreOrder false).or (t.findUnused p s RegClass.coreOrder true)

/-- Expansion through a borrowed register. Its store and load go to the scavenging slot,
which should be in reach. -/
def expandBorrowed (t : Target) (s : WideSet) (p : Procedure) (block : Nat) (r : Rebased)
    (b : Borrow) (spAdj : Int64) : Expansion :=
  let spill := t.expandDirect s p block b.spill spAdj
  let chain := r.chain s b.reg
  let inst := r.through b.reg
  match spill.failure with
  | some f => ⟨spill.before ++ spill.inst :: chain, inst, [b.reload], some f⟩
  | none =>
    let reload := t.expandDirect s p block b.reload spAdj
    ⟨spill.before ++ spill.inst :: chain, inst, reload.before ++ [reload.inst], reload.failure⟩

/-- Expansion of an instruction with a scratch register found by scavenging. `rest` are
the instructions after it. -/
def expandScavenging (t : Target) (s : WideSet) (p : Procedure) (block : Nat) (i : Inst)
    (rest : List Inst) (spAdj : Int64) : Expansion :=
  match t.rebase s p block i spAdj with
  | .error e => { inst := e.inst, failure := some e.failure }
  | .ok r =>
    if r.rest = 0 then { inst := r.inst }
    else
      let site : Site := ⟨block, r.inst, rest⟩
      match t.freeScratch? p site with
      | some scratch => { before := r.chain s scratch, inst := r.through scratch }
      | none =>
        match t.borrow p site .gpr with
        | .error f => { inst := r.inst, failure := some f }
        | .ok b => t.expandBorrowed s p block r b spAdj

/-- Expansion of an instruction with a frame index. -/
def expand (t : Target) (p : Procedure) (block : Nat) (i : Inst) (rest : List Inst)
    (spAdj : Int64) (scavenging : Bool) : Expansion :=
  match t.wide? with
  | none =>
    { inst := i
      failure := some (.error (.inst p.name block i .unsupportedMode .thumb1FrameIndices)) }
  | some s =>
    if scavenging then t.expandScavenging s p block i rest spAdj
    else t.expandDirect s p block i spAdj

end Target

end FrameLowering
