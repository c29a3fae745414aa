import FrameLowering.Lowering.Slots

/-!
# Call frames

Markers stand around a call sequence with the size of its outgoing arguments. They are
removed; unless the space is part of the frame, the stack pointer is moved instead, by
the size rounded up to the stack's alignment.
-/

namespace FrameLowering

/-- What stands for a marker: stack pointer updates, and by how many bytes they move the
stack pointer down. -/
structure StackMove where
  insts : List Inst
  delta : Int64
deriving Repr

namespace Target

/-- What stands for a marker with a size. -/
def stackMove (t : Target) (s : WideSet) (p : Procedure) (i : Inst) (size : Int64) : StackMove :=
  let amount := alignTo size t.abi.stackAlignment
  let (c, pred) := i.predicate
  if t.reservesCallFrame p || amount = 0 then ⟨[], 0⟩
  else if i.info.flags.isSetup then ⟨s.moveStack (-amount) c pred, amount⟩
  else ⟨s.moveStack amount c pred, -amount⟩

/-- Size of the outgoing arguments that a marker gives. -/
def markerSize? (i : Inst) : Option Int64 :=
  match i.operands with
  | .imm v :: _ => if v < 0 then none else some v
  | _ => none

/-- What stands for the marker `i` of a block. -/
def callFrame (t : Target) (p : Procedure) (block : Nat) (i : Inst) : Except Failure StackMove :=
  let fail (reason : Reason) (detail : Detail) : Except Failure StackMove :=
    .error (.error (.inst p.name block i reason detail))
  match t.wide? with
  | none => fail .unsupportedMode .thumb1CallFrames
  | some s =>
    if !i.op.isMarker then fail .unsupportedMode .notMarker
    else
      match markerSize? i with
      | none => fail .unencodable .callFrameSize
      | some size => .ok (t.stackMove s p i size)

end Target

end FrameLowering
