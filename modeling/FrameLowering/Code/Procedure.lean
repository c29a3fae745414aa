import FrameLowering.Code.Instruction
import FrameLowering.Frame.Layout

/-!
# Functions

A function after register allocation: its basic blocks, frame objects, register table,
layout and constant pool. An instruction in a block is a line, and every line has a
label of its own, which stays with it when it is moved or changed. New lines take
labels that no line has had before.
-/

namespace FrameLowering

/-- An instruction in its place. -/
structure Line where
  label : Nat
  inst : Inst
deriving DecidableEq, Repr, Inhabited

/-- Lines for new instructions, with labels from `fresh` on. -/
def Line.number (fresh : Nat) : List Inst → List Line
  | [] => []
  | i :: is => ⟨fresh, i⟩ :: Line.number (fresh + 1) is

/-- A basic block. -/
structure Block where
  lines : List Line := []
  /-- Blocks that control can reach next, by position. -/
  successors : List Nat := []
deriving DecidableEq, Repr, Inhabited

namespace Block

/-- Instructions of a block. -/
def insts (b : Block) : List Inst :=
  b.lines.map Line.inst

/-- Whether a block ends by returning from the function. -/
def isReturn (b : Block) : Bool :=
  match b.lines.getLast? with
  | some l => l.inst.isReturn
  | none => false

/-- Name of the block at a position. -/
def nameAt (position : Nat) : String :=
  "b" ++ toString (position + 1)

/-- Position of the line with a given label. -/
def find? (b : Block) (label : Nat) : Option Nat :=
  b.lines.findIdx? fun l => l.label = label

end Block

/-- A function being lowered. -/
structure Procedure where
  name : String
  /-- Basic blocks in layout order; the first is the entry. -/
  blocks : List Block := []
  frame : Frame := {}
  regs : RegTable := {}
  layout : Layout := {}
  /-- Constants that instructions can load. -/
  pool : List Int32 := []
  /-- The next unused label. -/
  fresh : Nat := 0
deriving DecidableEq, Repr, Inhabited

namespace Procedure

/-- Instruction at a place. -/
def inst? (p : Procedure) (block place : Nat) : Option Inst := do
  let b ← p.blocks[block]?
  let l ← b.lines[place]?
  return l.inst

/-- The function with the lines of one block replaced. -/
def setLines (p : Procedure) (block : Nat) (lines : List Line) : Procedure :=
  { p with blocks := p.blocks.modify block fun b => { b with lines } }

/-- Lines of a block; none if there is no such block. -/
def lines (p : Procedure) (block : Nat) : List Line :=
  match p.blocks[block]? with
  | some b => b.lines
  | none => []

/-- Inserts instructions before a place of a block. -/
def insert (p : Procedure) (block place : Nat) (insts : List Inst) : Procedure :=
  let old := p.lines block
  { p.setLines block (old.take place ++ Line.number p.fresh insts ++ old.drop place) with
    fresh := p.fresh + insts.length }

/-- Inserts instructions before a place of a block; the place has to be in the block or
right after it. -/
def insertChecked (p : Procedure) (block : Nat) (place : Int64) (insts : List Inst) :
    Except Fault Procedure :=
  let size := (p.lines block).length
  if place < 0 ∨ Int64.ofNat size < place then
    .error (.invalidPlace place.toInt (Block.nameAt block) size)
  else
    .ok (p.insert block place.toInt.toNat insts)

/-- Removes the line at a place of a block. -/
def remove (p : Procedure) (block place : Nat) : Procedure :=
  p.setLines block ((p.lines block).eraseIdx place)

/-- Appends an empty block and returns its position. -/
def newBlock (p : Procedure) (successors : List Nat) : Nat × Procedure :=
  (p.blocks.length, { p with blocks := p.blocks ++ [{ successors }] })

/-- All instructions, in layout order. -/
def insts (p : Procedure) : List Inst :=
  p.blocks.flatMap Block.insts

/-- Bytes of code. -/
def size (p : Procedure) : Nat :=
  p.insts.foldl (fun n i => n + i.info.size) 0

/-- Index of a constant in the pool, which gets an entry for it if it has none. -/
def constant (p : Procedure) (v : Int32) : Nat × Procedure :=
  match p.pool.findIdx? fun c => c = v with
  | some i => (i, p)
  | none => (p.pool.length, { p with pool := p.pool ++ [v] })

/-- Physical registers that an instruction names or destroys, `sp` and `pc` apart. -/
def usesOf (i : Inst) : List Reg :=
  ((i.operands.map Operand.register).filter fun r => r.isPhysical && !r.isSpecial) ++
    if i.info.flags.isCall then Opcode.clobbers else []

/-- Records the registers that the instructions use, and whether there are calls. -/
def markUsed (p : Procedure) : Procedure :=
  { p with
    regs := p.insts.foldl (fun t i => (usesOf i).foldl RegTable.use t) p.regs
    frame := { p.frame with
      hasCalls := p.frame.hasCalls || p.insts.any fun i => i.info.flags.isCall } }

/-- Whether a register, or one that shares its storage, is used. -/
def isUsed (p : Procedure) (r : Reg) : Bool :=
  p.regs.isUsed r || r.aliases.any p.regs.isUsed

/-- Text of the block at a position. -/
def printBlock (b : Block) (position : Nat) : String :=
  Block.nameAt position ++ ":\n" ++
    String.join (b.insts.map fun i => "\t" ++ i.text ++ "\n")

/-- Listing of the instructions. -/
def print (p : Procedure) : String :=
  p.name ++ ":\n" ++ String.join (p.blocks.zipIdx.map fun e => printBlock e.1 e.2)

/-- Text of one constant. -/
def printConstant (v : Int32) (index : Nat) : String :=
  "\tcp:" ++ toString index ++ "\t" ++ Text.hexInt v.toBitVec.toNat ++ "\n"

/-- Text of the constant pool, if it is not empty. -/
def printPool (p : Procedure) : String :=
  if p.pool = [] then ""
  else "constant pool:\n" ++ String.join (p.pool.zipIdx.map fun e => printConstant e.1 e.2)

/-- Listing with frame objects, layout and constants. -/
def describe (p : Procedure) : String :=
  p.print ++ p.frame.describe ++ p.layout.describe ++ p.printPool

end Procedure

end FrameLowering
