import FrameLowering.Lowering.Arithmetic
import FrameLowering.Lowering.SpillSet

/-!
# Spill slots and offsets

Every spilled callee-saved register gets a slot, and every live object an offset. Below
the fixed objects the slots are packed in spill order, so that each callee-saved area is
contiguous; the other objects follow in index order, each aligned. The scavenging slot
goes next to the register that will address it: right below the saved registers if there
is a frame pointer, and to the bottom of the frame otherwise. Space for outgoing
arguments comes last.
-/

namespace FrameLowering

namespace Target

/-- Callee-saved registers that are spilled, in spill order. -/
def spilledSaved (t : Target) (p : Procedure) : List CalleeSaved :=
  t.calleeSaved.filter fun cs => p.layout.isSpilled cs.reg

/-- The slot for a callee-saved register. -/
def slotFor (t : Target) (cs : CalleeSaved) : FrameObject :=
  let size := (t.savedClass cs.reg).size
  { size, align := size, spillSlot := true }

/-- Creates a slot for each spilled callee-saved register. -/
def assignSlots (t : Target) (p : Procedure) : Procedure :=
  let slots := t.spilledSaved p
  let first := p.frame.objects.length
  { p with
    frame := { p.frame with
      objects := p.frame.objects ++ slots.map t.slotFor
      saved := slots.zipIdx.map fun e => ⟨e.1.reg, Int64.ofNat (first + e.2), e.1.area⟩ } }

/-- Whether the outgoing argument space is allocated once, with the frame. A large one is
not, since it would push the other objects out of reach of small offsets. -/
def reservesCallFrame (_ : Target) (p : Procedure) : Bool :=
  p.frame.maxCallFrameSize < defaultOffsetLimit / 2 && !p.frame.hasVarSized

end Target

/-- Progress in placing frame objects: `depth` bytes are taken. -/
structure Placement where
  frame : Frame
  depth : Int64
  maxAlign : Int64 := 1
deriving Repr

namespace Placement

/-- Places the slot of a saved register right below what is taken. -/
def pack (s : Placement) (slot : SavedSlot) : Placement :=
  match s.frame.object? slot.index with
  | none => s
  | some o =>
    let depth := s.depth + o.size
    { s with frame := s.frame.modify slot.index fun o => { o with offset := -depth }, depth }

/-- Places an object below what is taken, aligned. -/
def place (s : Placement) (index : Int64) : Placement :=
  match s.frame.object? index with
  | none => s
  | some o =>
    let depth := alignTo (s.depth + o.size) o.align
    { frame := s.frame.modify index fun o => { o with offset := -depth }
      depth
      maxAlign := max s.maxAlign o.align }

end Placement

namespace Target

/-- Live objects that are neither slots of saved registers nor the scavenging slot. -/
def localIndices (f : Frame) : List Int64 :=
  (f.indexed.filter fun e =>
    !e.2.dead && !(f.saved.any fun s => s.index = e.1) && e.1 ≠ f.scavengingIndex).map Prod.fst

/-- Objects that are placed after the saved registers, in order. -/
def placementOrder (t : Target) (p : Procedure) : List Int64 :=
  if t.hasPointer p then p.frame.scavengingIndex :: localIndices p.frame
  else localIndices p.frame ++ [p.frame.scavengingIndex]

/-- Objects in their places, without space for outgoing arguments. -/
def placeObjects (t : Target) (p : Procedure) : Placement :=
  (t.placementOrder p).foldl Placement.place
    (p.frame.saved.foldl Placement.pack { frame := p.frame, depth := alignTo p.fixedDepth 4 })

/-- Size of the frame. The stack has to be aligned only where there can be calls. -/
def frameSize (t : Target) (p : Procedure) (s : Placement) : Int64 :=
  let size := if t.reservesCallFrame p then s.depth + p.frame.maxCallFrameSize else s.depth
  if p.frame.hasCalls || p.frame.hasVarSized then
    alignTo size (max t.abi.stackAlignment s.maxAlign)
  else size

/-- Assigns an offset to each live object and sets the size of the frame. -/
def placeFrame (t : Target) (p : Procedure) : Procedure :=
  let s := t.placeObjects p
  { p with frame := { s.frame with stackSize := t.frameSize p s } }

/-- Stores of the spilled registers, in spill order. -/
def saves (t : Target) (p : Procedure) : List Inst :=
  p.frame.saved.map fun s => t.instrSet.storeToSlot s.reg s.index

/-- Loads of the spilled registers, in the reverse order. -/
def restores (t : Target) (p : Procedure) : List Inst :=
  p.frame.saved.reverse.map fun s => t.instrSet.loadFromSlot s.reg s.index

/-- Inserts instructions before the return of a block that returns. -/
def beforeReturn (insts : List Inst) (p : Procedure) (block : Nat) : Procedure :=
  match p.blocks[block]? with
  | some b => if b.isReturn then p.insert block (b.lines.length - 1) insts else p
  | none => p

/-- Inserts the stores at the start of the function and the loads before each return. -/
def insertSpillCode (t : Target) (p : Procedure) : Procedure :=
  if p.frame.saved = [] then p
  else
    (List.range p.blocks.length).foldl (beforeReturn (t.restores p)) (p.insert 0 0 (t.saves p))

end Target

end FrameLowering
