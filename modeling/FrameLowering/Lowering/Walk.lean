import FrameLowering.Lowering.CallFrame
import FrameLowering.Lowering.Elimination

/-!
# The elimination walk

Every instruction is visited once, in order. Frame indices are eliminated and call frame
markers replaced; how far the markers have moved the stack pointer is tracked through
each block. Instructions that come up on the way are not visited.
-/

namespace FrameLowering

/-- A line of a block, or an instruction that is to become one. -/
inductive Piece where
  | line (l : Line)
  | fresh (i : Inst)
deriving Repr

namespace Piece

/-- The pieces as lines, new labels counted from `next`; and the label after them. -/
def number : (next : Nat) → List Piece → List Line × Nat
  | next, [] => ([], next)
  | next, .line l :: rest =>
    let (ls, n) := number next rest
    (l :: ls, n)
  | next, .fresh i :: rest =>
    let (ls, n) := number (next + 1) rest
    (⟨next, i⟩ :: ls, n)

end Piece

/-- The pieces of an expansion of the instruction in a line. -/
def Expansion.pieces (e : Expansion) (l : Line) : List Piece :=
  e.before.map .fresh ++ .line { l with inst := e.inst } :: e.after.map .fresh

/-- The function with pieces as the lines of a block. -/
def Procedure.setPieces (p : Procedure) (block : Nat) (pieces : List Piece) : Procedure :=
  let (lines, fresh) := Piece.number p.fresh pieces
  { p.setLines block lines with fresh }

/-- The lines of a block after a walk, and what stopped it. -/
structure Walked where
  pieces : List Piece
  failure : Option Failure := none
deriving Repr

/-- The result with more pieces in front. -/
def Walked.after (front : List Piece) (w : Walked) : Walked :=
  { w with pieces := front ++ w.pieces }

namespace Target

/-- Walks through the lines of a block. -/
def walkLines (t : Target) (p : Procedure) (block : Nat) : (spAdj : Int64) → List Line → Walked
  | _, [] => { pieces := [] }
  | spAdj, l :: rest =>
    if l.inst.op.isMarker then
      match t.callFrame p block l.inst with
      | .error f => { pieces := (l :: rest).map .line, failure := some f }
      | .ok m => (walkLines t p block (spAdj + m.delta) rest).after (m.insts.map .fresh)
    else if l.inst.frameIndexAt.isNone then
      (walkLines t p block spAdj rest).after [.line l]
    else
      let e := t.expand p block l.inst (rest.map Line.inst) spAdj t.config.scavenging
      match e.failure with
      | some f => { pieces := e.pieces l ++ rest.map .line, failure := some f }
      | none => (walkLines t p block spAdj rest).after (e.pieces l)

/-- Walks through a block. -/
def walkBlock (t : Target) (block : Nat) : Lowering Unit := fun p =>
  let w := t.walkLines p block 0 (p.lines block)
  let p := p.setPieces block w.pieces
  match w.failure with
  | some f => .error f p
  | none => .ok () p

/-- Walks through some blocks, up to a failure. -/
def walkBlocks (t : Target) : List Nat → Lowering Unit
  | [] => pure ()
  | block :: rest => do
    t.walkBlock block
    walkBlocks t rest

/-- Eliminates every frame index and call frame marker of a function. -/
def replaceFrameIndices (t : Target) : Lowering Unit := fun p =>
  t.walkBlocks (List.range p.blocks.length) p

/-- Eliminates the frame index of the instruction at a place. -/
def eliminateAt (t : Target) (block place : Nat) (spAdj : Int64) (scavenging : Bool) :
    Lowering Unit := fun p =>
  let lines := p.lines block
  match lines.drop place with
  | [] => .error (.fault .nothingThere) p
  | l :: rest =>
    let e := t.expand p block l.inst (rest.map Line.inst) spAdj scavenging
    let p := p.setPieces block ((lines.take place).map .line ++ e.pieces l ++ rest.map .line)
    match e.failure with
    | some f => .error f p
    | none => .ok () p

/-- Replaces the call frame marker at a place, and returns by how many bytes the stack
pointer moves down. -/
def callFrameAt (t : Target) (block place : Nat) : Lowering Int64 := fun p =>
  match p.inst? block place with
  | none => .error (.fault .nothingThere) p
  | some i =>
    match t.callFrame p block i with
    | .error f => .error f p
    | .ok m => .ok m.delta ((p.remove block place).insert block place m.insts)

end Target

end FrameLowering
