import FrameLowering.Lowering.Target

/-!
# Verification

A lowered function has no frame indices and no call frame markers, and every immediate
offset fits its field. `Procedure.verify` finds the first instruction that says
otherwise.
-/

namespace FrameLowering

namespace ImmediateField

/-- Checks an immediate against the field. -/
def check (f : ImmediateField) (v : Int64) : Except ImmediateError Unit :=
  match f.kind with
  | .absent => .ok ()
  | .rotated =>
    if v < 0 || 0xffffffff < v || !RotatedImmediate.isEncodable (word v) then
      .error (.notRotated v)
    else .ok ()
  | .unsigned => if v < 0 || f.mask < v then .error (.tooWide v f.bits) else .ok ()
  | .signMagnitude =>
    if f.family = .mode2 then
      if v < 0 || PackedOffset.maxShift < PackedOffset.shift12 v then .error (.notMode2 v)
      else .ok ()
    else if v < 0 || (f.mask ||| f.directionBit) < v then .error (.tooWide v f.bits)
    else .ok ()

end ImmediateField

namespace Inst

/-- The immediate of the instruction's field, after the base register in the second
operand. -/
def fieldImmediate? (i : Inst) : Option Int64 := do
  let position ← i.info.family.field.position
  match i.operands[1 + position]? with
  | some (.imm v) => some v
  | _ => none

/-- Checks the immediate offset of an instruction that has one. -/
def checkImmediate (i : Inst) : Except ImmediateError Unit :=
  if i.info.flags.isAsm then .ok ()
  else
    match i.fieldImmediate? with
    | none => .ok ()
    | some v => i.info.family.field.check v

/-- What keeps an instruction from being a lowered one. -/
def leftover? (i : Inst) : Option (Reason × Detail) :=
  if i.op.isMarker then some (.unsupportedMode, .markerRemains)
  else
    match i.operands.find? Operand.isFrameIndex with
    | some o => some (.noFrameIndex, .frameIndexRemains o.value)
    | none =>
      match i.checkImmediate with
      | .error e => some (.unencodable, .immediate e)
      | .ok _ => none

end Inst

namespace Procedure

/-- Instructions with the positions of their blocks. -/
def located (p : Procedure) : List (Nat × Inst) :=
  p.blocks.zipIdx.flatMap fun e => e.1.insts.map fun i => (e.2, i)

/-- The error about the first of some instructions that is not a lowered one. -/
def verifyInsts (name : String) : List (Nat × Inst) → Except LowerError Unit
  | [] => .ok ()
  | (block, i) :: rest =>
    match i.leftover? with
    | some (reason, detail) => .error (.inst name block i reason detail)
    | none => verifyInsts name rest

/-- Checks that a function is completely lowered. -/
def verify (p : Procedure) : Except LowerError Unit :=
  verifyInsts p.name p.located

end Procedure

end FrameLowering
