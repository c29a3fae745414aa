import FrameLowering.Lowering.Areas

/-!
# Prologue and epilogue

The prologue allocates the frame at the start of a function, and an epilogue releases it
before a return. Each callee-saved area is allocated just before the stores into it, so
that the stores can be merged into a push; the stores and loads are already there.
Instructions are inserted at a cursor that moves through the lines of a block.
-/

namespace FrameLowering

/-- A position in the lines of a block. -/
structure Cursor where
  /-- Lines before the position. -/
  passed : List Line
  /-- Lines from the position on. -/
  rest : List Line
  /-- The next unused label. -/
  fresh : Nat
deriving Repr

namespace Cursor

/-- Inserts instructions and moves past them. -/
def emit (c : Cursor) (insts : List Inst) : Cursor :=
  { c with
    passed := c.passed ++ Line.number c.fresh insts
    fresh := c.fresh + insts.length }

/-- Moves past a run of lines. -/
def skip (c : Cursor) (test : Inst → Bool) : Cursor :=
  { c with
    passed := c.passed ++ c.rest.takeWhile fun l => test l.inst
    rest := c.rest.dropWhile fun l => test l.inst }

end Cursor

/-- The function with the lines around a cursor as those of a block. -/
def Procedure.setCursor (p : Procedure) (block : Nat) (c : Cursor) : Procedure :=
  { p.setLines block (c.passed ++ c.rest) with fresh := c.fresh }

/-- Whether an instruction accesses the slot of the saved register in its first operand.
Other code may access the same register through other objects, which does not count. -/
def Procedure.inSpillSlot (p : Procedure) (i : Inst) : Bool :=
  match i.operands with
  | o :: .frameIndex index :: _ =>
    p.frame.saved.any fun s => s.reg = o.register && s.index = index
  | _ => false

namespace Target

/-- Whether an instruction with a given opcode saves or restores a register of an
area. -/
def isSavedAccess (t : Target) (p : Procedure) (op : Opcode) (area : Area) (i : Inst) : Bool :=
  i.op = op && p.inSpillSlot i &&
    match i.operands with
    | o :: _ => t.abi.area o.register = area
    | [] => false

/-- Whether an instruction restores a saved register from its slot. -/
def isRestore (t : Target) (p : Procedure) (i : Inst) : Bool :=
  (i.op = t.instrSet.load || i.op = .fldd) && p.inSpillSlot i

/-- Whether the frame pointer is set up when there is a stack frame. -/
def setsPointer (t : Target) (p : Procedure) : Bool :=
  t.abi.darwin || t.hasPointer p

/-- Makes the frame pointer point at its own saved value. -/
def pointAtSaved (t : Target) (s : WideSet) (p : Procedure) : Inst :=
  Inst.make s.add ([.use t.framePointer, .frameIndex p.layout.fpSpillIndex, .imm 0] ++
    Operand.predicate Cond.al .noreg)

/-- The prologue up to the stores of the first area. -/
def prologueHead (t : Target) (s : WideSet) (p : Procedure) (c : Cursor) : Cursor :=
  (c.emit (s.moveStackAlways (-p.layout.gpr1Size))).skip
    (t.isSavedAccess p t.instrSet.store .gpr1)

/-- The prologue from the frame pointer on. -/
def prologueTail (t : Target) (s : WideSet) (p : Procedure) (c : Cursor) : Cursor :=
  let c := if t.setsPointer p then c.emit [t.pointAtSaved s p] else c
  let c := c.emit (s.moveStackAlways (-p.layout.gpr2Size))
  let c := c.skip (t.isSavedAccess p t.instrSet.store .gpr2)
  let c := c.emit (s.moveStackAlways (-p.layout.dprSize))
  if p.layout.dprOffset ≠ 0 then
    (c.skip (t.isSavedAccess p .fstd .dpr)).emit (s.moveStackAlways (-p.layout.dprOffset))
  else c

/-- The function with debug offsets measured from the frame pointer, where the object
format asks for it. -/
def adjustOffsets (t : Target) (p : Procedure) : Procedure :=
  if t.abi.elf && t.hasPointer p then
    { p with frame := { p.frame with
        offsetAdjustment := p.frame.offsetAdjustment - p.layout.fpSpillOffset } }
  else p

/-- Inserts the code that allocates the frame at the start of a function. -/
def emitPrologue (t : Target) : Lowering Unit := fun p =>
  match t.wide?, p.blocks with
  | none, _ => .error (.error (.thumb1 p.name .prologue)) p
  | some _, [] => .error (.error (.noBlocks p.name)) p
  | some s, entry :: _ =>
    let start : Cursor := ⟨[], entry.lines, p.fresh⟩
    let c := start.emit (s.moveStackAlways (-p.frame.varArgsSaveSize))
    if !p.layout.hasStackFrame then
      .ok () (p.setCursor 0 (c.emit (s.moveStackAlways (-p.frame.stackSize))))
    else
      let c := t.prologueHead s p c
      if t.setsPointer p && p.layout.fpSpillIndex = noIndex then
        .error (.error (.pointerNotSpilled p.name t.framePointer)) (p.setCursor 0 c)
      else
        .ok () (t.adjustOffsets (p.setCursor 0 (t.prologueTail s p c)))

/-- The cursor before the loads that come right before the last line. -/
def atRestores (t : Target) (p : Procedure) (lines : List Line) (fresh : Nat) : Cursor :=
  let body := lines.dropLast
  let run := (body.reverse.takeWhile fun l => t.isRestore p l.inst).length
  ⟨body.take (body.length - run), lines.drop (body.length - run), fresh⟩

/-- Code that moves the stack pointer to the bottom of the callee-saved areas. Where
there is a frame pointer it is measured from that, as the stack pointer may have
moved. -/
def unwindLocals (t : Target) (s : WideSet) (p : Procedure) : List Inst :=
  let n := p.layout.dprOffset
  if (t.abi.darwin && n ≠ 0) || t.hasPointer p then
    let n := p.layout.fpSpillOffset - n
    if n ≠ 0 then s.addConstant Reg.sp t.framePointer (-n) Cond.al .noreg
    else
      [Inst.make s.move
        ([.use Reg.sp, .use t.framePointer] ++ Operand.predicate Cond.al .noreg)]
  else s.moveStackAlways n

/-- The epilogue of a function with a stack frame, from its first load on. -/
def epilogueBody (t : Target) (s : WideSet) (p : Procedure) (c : Cursor) : Cursor :=
  let c := c.emit (t.unwindLocals s p)
  let c := c.skip (t.isSavedAccess p .fldd .dpr)
  let c := c.emit (s.moveStackAlways p.layout.dprSize)
  let c := c.skip (t.isSavedAccess p t.instrSet.load .gpr2)
  let c := c.emit (s.moveStackAlways p.layout.gpr2Size)
  let c := c.skip (t.isSavedAccess p t.instrSet.load .gpr1)
  c.emit (s.moveStackAlways p.layout.gpr1Size)

/-- The epilogue before the return at the end of `lines`. -/
def epilogue (t : Target) (s : WideSet) (p : Procedure) (lines : List Line) : Cursor :=
  let c :=
    if p.layout.hasStackFrame then
      t.epilogueBody s p (t.atRestores p lines p.fresh)
    else
      let c : Cursor := ⟨lines.dropLast, lines.drop (lines.length - 1), p.fresh⟩
      c.emit (s.moveStackAlways p.frame.stackSize)
  c.emit (s.moveStackAlways p.frame.varArgsSaveSize)

/-- Inserts the code that releases the frame before the return at the end of a
block. -/
def emitEpilogue (t : Target) (block : Nat) : Lowering Unit := fun p =>
  match t.wide?, p.blocks[block]? with
  | none, _ => .error (.error (.thumb1 p.name .epilogue)) p
  | some _, none => .error (.fault .nothingThere) p
  | some s, some b =>
    if b.isReturn then .ok () (p.setCursor block (t.epilogue s p b.lines))
    else .error (.error (.notReturning p.name block)) p

/-- Inserts an epilogue into each of some blocks, those that do not return apart. -/
def emitEpilogues (t : Target) : List Nat → Lowering Unit
  | [] => pure ()
  | block :: rest => do
    let p ← get
    if (p.blocks[block]?.map Block.isReturn).getD false then
      t.emitEpilogue block
    emitEpilogues t rest

end Target

end FrameLowering
