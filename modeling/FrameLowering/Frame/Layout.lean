import FrameLowering.Code.RegisterTable
import FrameLowering.Frame.Object

/-!
# Frame layout

The decisions of frame lowering. From the stack pointer on entry downwards a frame
consists of the two integer areas, the double-precision area, and the locals, spill
slots and outgoing arguments. Area offsets are measured from the stack pointer once the
whole frame has been allocated.
-/

namespace FrameLowering

/-- Decisions about a function's frame. -/
structure Layout where
  /-- Whether there is a frame beyond the local objects. -/
  hasStackFrame : Bool := false
  /-- Whether a frame pointer is established. -/
  hasFramePointer : Bool := false
  /-- The frame pointer, once the decision about it has been made. -/
  framePointer : Reg := .noreg
  /-- Whether the link register was spilled only for the sake of far branches. -/
  farJump : Bool := false
  gpr1Size : Int64 := 0
  gpr2Size : Int64 := 0
  dprSize : Int64 := 0
  gpr1Offset : Int64 := 0
  gpr2Offset : Int64 := 0
  dprOffset : Int64 := 0
  /-- Offset of the frame pointer's slot from the bottom of the frame. -/
  fpSpillOffset : Int64 := 0
  /-- Index of the frame pointer's slot. -/
  fpSpillIndex : Int64 := noIndex
  /-- Spilled callee-saved registers. -/
  spilled : RegSet := {}
  /-- Areas of frame objects; the first entry for an index counts. -/
  areas : List (Int64 × Area) := []
deriving DecidableEq, Repr, Inhabited

namespace Layout

/-- Records a register as spilled. -/
def spill (l : Layout) (r : Reg) : Layout :=
  { l with spilled := l.spilled.insert r }

/-- Records a register as spilled; it has to be physical. -/
def spillChecked (l : Layout) (r : Reg) : Except Fault Layout :=
  if r.isPhysical then .ok (l.spill r) else .error (.unspillable r)

/-- Whether a register is spilled. -/
def isSpilled (l : Layout) (r : Reg) : Bool :=
  l.spilled.contains r

/-- Records the area of a frame object. -/
def setArea (l : Layout) (index : Int64) (a : Area) : Layout :=
  { l with areas := (index, a) :: l.areas }

/-- The area that contains a frame object. -/
def area (l : Layout) (index : Int64) : Area :=
  (l.areas.lookup index).getD .outside

/-- Offset of an area. -/
def areaOffset (l : Layout) : Area → Except Fault Int64
  | .gpr1 => .ok l.gpr1Offset
  | .gpr2 => .ok l.gpr2Offset
  | .dpr => .ok l.dprOffset
  | a => .error (.invalidArea a)

/-- Size of an area. -/
def areaSize (l : Layout) : Area → Except Fault Int64
  | .gpr1 => .ok l.gpr1Size
  | .gpr2 => .ok l.gpr2Size
  | .dpr => .ok l.dprSize
  | a => .error (.invalidArea a)

/-- The areas of a frame, from its top downwards, with offset and size. -/
def extents (l : Layout) : List (Area × Int64 × Int64) := [
  (.gpr1, l.gpr1Offset, l.gpr1Size),
  (.gpr2, l.gpr2Offset, l.gpr2Size),
  (.dpr, l.dprOffset, l.dprSize)]

/-- Size of the callee-saved areas together. -/
def savedSize (l : Layout) : Int64 :=
  l.gpr1Size + l.gpr2Size + l.dprSize

/-- Text of a truth value. -/
def truthText (b : Bool) : String :=
  if b then "true" else "false"

/-- Description of one area that is not empty. -/
def describeExtent (e : Area × Int64 × Int64) : String :=
  if e.2.2 = 0 then ""
  else
    "\t" ++ e.1.name ++ ": offset " ++ toString e.2.1.toInt ++ ", size " ++
      toString e.2.2.toInt ++ "\n"

/-- Description of the layout. -/
def describe (l : Layout) : String :=
  let pointer :=
    if l.hasFramePointer then
      ", frame pointer " ++ l.framePointer.name ++ " (spilled at " ++
        toString l.fpSpillOffset.toInt ++ ")"
    else ""
  let far := if l.farJump then ", lr spilled for far jump" else ""
  let regs :=
    match l.spilled.toList with
    | [] => ""
    | rs => "\tspilled: " ++ String.intercalate ", " (rs.map Reg.name) ++ "\n"
  "layout: stack frame " ++ truthText l.hasStackFrame ++ pointer ++ far ++ "\n" ++
    String.join (l.extents.map describeExtent) ++ regs

end Layout

end FrameLowering
