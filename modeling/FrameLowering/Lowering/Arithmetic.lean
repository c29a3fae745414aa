import FrameLowering.Lowering.Target

/-!
# Emitted instructions

The instructions that frame lowering writes: additions of a constant to a register,
split into rotated immediates, and stores and loads of a frame object.
-/

namespace FrameLowering

namespace WideSet

/-- Additions, or with `op` a subtraction subtractions, of the chunks of a constant. The
first reads `base`, the others accumulate into `dst`. -/
def chain (op : Opcode) (dst : Reg) (c : Cond) (pred : Reg) :
    (base : Reg) → List Word → List Inst
  | _, [] => []
  | base, w :: ws =>
    Inst.make op ([.use dst, .use base, .imm (Int64.ofNat w.toNat)] ++ Operand.predicate c pred) ::
      chain op dst c pred dst ws

/-- Instructions that set `dst` to `base` plus `n`. There are none for zero. The
magnitude of `n` has to fit in 32 bits. -/
def addConstant (s : WideSet) (dst base : Reg) (n : Int64) (c : Cond) (pred : Reg) : List Inst :=
  chain (if n < 0 then s.sub else s.add) dst c pred base
    (RotatedImmediate.chunks (ImmediateField.word (ImmediateField.magnitude n)))

/-- Instructions that add `n` to the stack pointer. -/
def moveStack (s : WideSet) (n : Int64) (c : Cond) (pred : Reg) : List Inst :=
  s.addConstant Reg.sp Reg.sp n c pred

/-- Instructions that always add `n` to the stack pointer. -/
def moveStackAlways (s : WideSet) (n : Int64) : List Inst :=
  s.moveStack n Cond.al .noreg

end WideSet

namespace InstrSet

/-- The operands after the register of a load or store of a frame object. -/
def slotOperands (op : Opcode) (index : Int64) : List Operand :=
  if op.info.operands = 6 then
    [.frameIndex index, .use .noreg, .imm 0, .cond Cond.al, .use .noreg]
  else
    [.frameIndex index, .imm 0, .cond Cond.al, .use .noreg]

/-- The opcode that stores a register. -/
def storeOf (s : InstrSet) : Reg → Opcode
  | .double _ => .fstd
  | _ => s.store

/-- The opcode that loads a register. -/
def loadOf (s : InstrSet) : Reg → Opcode
  | .double _ => .fldd
  | _ => s.load

/-- Stores a register, whose value is not needed any more, to a frame object. -/
def storeToSlot (s : InstrSet) (r : Reg) (index : Int64) : Inst :=
  Inst.make (s.storeOf r) (.reg r false true :: slotOperands (s.storeOf r) index)

/-- Loads a register from a frame object. -/
def loadFromSlot (s : InstrSet) (r : Reg) (index : Int64) : Inst :=
  Inst.make (s.loadOf r) (.use r :: slotOperands (s.loadOf r) index)

end InstrSet

/-- Inserts a load of a constant before a place of a block. The constant goes to the
pool even if the place turns out to be wrong. -/
def loadConstant (block : Nat) (place : Int64) (dst : Reg) (v : Int32) (c : Cond) (pred : Reg) :
    Lowering Inst := fun p =>
  let (index, p) := p.constant v
  let inst := Inst.make .ldrcp
    [.use dst, .constPool (Int64.ofNat index), .use .noreg, .imm 0, .cond c, .use pred]
  match p.insertChecked block place [inst] with
  | .ok p => .ok inst p
  | .error f => .error (.fault f) p

end FrameLowering
