import FrameLowering.Lowering.Prologue
import FrameLowering.Lowering.Verify
import FrameLowering.Lowering.Walk

/-!
# Frame lowering

Frame lowering runs on a function whose registers have been allocated. It decides whether
there is a frame pointer and which callee-saved registers are spilled, places the frame
objects, inserts the prologue and epilogues, and replaces every frame index by a base
register and an offset. `Target.lower` goes through these stages and records each one in
a line of text.
-/

namespace FrameLowering

/-- The end of a function's lowering. -/
structure Outcome where
  /-- The function, as far as it was lowered. -/
  proc : Procedure
  /-- A line of text for each stage. -/
  trace : List String
  failure : Option Failure := none
deriving Repr

namespace Target

/-- Decides whether there is a frame pointer. All that follows sees the same decision. -/
def decidePointer (t : Target) (p : Procedure) : Procedure :=
  { p with layout := { p.layout with
      hasFramePointer := t.needsPointer p
      framePointer := t.framePointer } }

/-- The line about the frame pointer. -/
def pointerLine (p : Procedure) : String :=
  p.name ++ ": frame pointer: " ++ Layout.truthText p.layout.hasFramePointer ++ "\n"

/-- The line about the spilled registers. -/
def spillLine (p : Procedure) : String :=
  p.name ++ ": spilled: [" ++ String.intercalate " " (p.layout.spilled.toList.map Reg.name) ++
    "], stack frame: " ++ Layout.truthText p.layout.hasStackFrame ++ "\n"

/-- The line about the size of the frame. -/
def sizeLine (p : Procedure) : String :=
  p.name ++ ": stack size: " ++ toString p.frame.stackSize.toInt ++ "\n"

/-- The line about the areas. -/
def areasLine (p : Procedure) : String :=
  p.name ++ ": areas: " ++ String.intercalate ", " (p.layout.extents.map fun e =>
    e.1.name ++ " " ++ toString e.2.2.toInt ++ "@" ++ toString e.2.1.toInt) ++ "\n"

/-- The line about the code. -/
def codeLine (p : Procedure) : String :=
  p.name ++ ": lowered: " ++ toString p.size ++ " bytes of code\n"

/-- Inserts the prologue and the epilogues. -/
def emitFrame (t : Target) : Lowering Unit := do
  t.emitPrologue
  let p ← get
  t.emitEpilogues (List.range p.blocks.length)

/-- Inserts the prologue and the epilogues and eliminates the frame indices. -/
def insertFrame (t : Target) : Lowering Unit := do
  t.emitFrame
  t.replaceFrameIndices

/-- Lowers a function with at least one block, on an instruction set that can. -/
def lowerBlocks (t : Target) (p : Procedure) : Outcome :=
  let decided := t.decidePointer p.markUsed
  let chosen := t.finalizeSpillSet t.config.scavenging decided
  let placed := t.placeFrame (t.assignSlots chosen)
  let trace := [pointerLine decided, spillLine chosen, sizeLine placed]
  match t.computeLayout (t.insertSpillCode placed) with
  | .error f p => ⟨p, trace, some f⟩
  | .ok _ grouped =>
    let trace := trace ++ [areasLine grouped]
    match t.insertFrame grouped with
    | .error f p => ⟨p, trace, some f⟩
    | .ok _ lowered =>
      let trace := trace ++ [codeLine lowered]
      match lowered.verify with
      | .error e => ⟨lowered, trace, some (.error e)⟩
      | .ok _ => ⟨lowered, trace, none⟩

/-- Lowers a function. -/
def lower (t : Target) (p : Procedure) : Outcome :=
  if t.abi.thumb1Only then ⟨p, [], some (.error (.thumb1 p.name .functions))⟩
  else if p.blocks = [] then ⟨p, [], some (.error (.noBlocks p.name))⟩
  else t.lowerBlocks p

/-- Lowers functions one after another, up to a failure. Those after it stay as they
are. -/
def lowerAll (t : Target) : List Procedure → List Procedure × List String × Option Failure
  | [] => ([], [], none)
  | p :: rest =>
    let o := t.lower p
    match o.failure with
    | some f => (o.proc :: rest, o.trace, some f)
    | none =>
      let (ps, trace, failure) := lowerAll t rest
      (o.proc :: ps, o.trace ++ trace, failure)

end Target

end FrameLowering
