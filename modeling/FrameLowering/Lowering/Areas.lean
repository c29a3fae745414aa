import FrameLowering.Lowering.Slots

/-!
# Callee-saved areas of a frame

The slots of saved registers are grouped into areas. `Target.computeLayout` records the
size and offset of each area and where the frame pointer is saved. What was recorded
before an inconsistency is found stays recorded.
-/

namespace FrameLowering

namespace Target

/-- The layout with the slot of a saved register added to its area; none if it has no
area. -/
def addSlot (t : Target) (l : Layout) (s : SavedSlot) : Option Layout :=
  let note (l : Layout) : Layout :=
    { l.setArea s.index s.area with
      fpSpillIndex := if s.reg = t.framePointer then s.index else l.fpSpillIndex }
  match s.area with
  | .gpr1 => some (note { l with gpr1Size := l.gpr1Size + 4 })
  | .gpr2 => some (note { l with gpr2Size := l.gpr2Size + 4 })
  | .dpr => some (note { l with dprSize := l.dprSize + 8 })
  | _ => none

/-- The layout with slots added up to the first without an area, and that slot. -/
def addSlots (t : Target) : Layout → List SavedSlot → Layout × Option SavedSlot
  | l, [] => (l, none)
  | l, s :: rest =>
    match t.addSlot l s with
    | none => (l, some s)
    | some l => addSlots t l rest

end Target

/-- The layout with the areas stacked up to the top of a frame. -/
def Layout.stackAreas (l : Layout) (stackSize : Int64) : Layout :=
  let dprOffset := stackSize - l.savedSize
  let gpr2Offset := dprOffset + l.dprSize
  { l with dprOffset, gpr2Offset, gpr1Offset := gpr2Offset + l.gpr2Size }

/-- The layout without areas. -/
def Layout.clearAreas (l : Layout) : Layout :=
  { l with gpr1Size := 0, gpr2Size := 0, dprSize := 0, fpSpillIndex := noIndex }

namespace Target

/-- Records where the frame pointer is saved. It has to be saved if the function sets it
up. -/
def locatePointer (t : Target) : Lowering Unit := fun p =>
  if p.layout.fpSpillIndex ≠ noIndex then
    match p.frame.objectOffset p.layout.fpSpillIndex with
    | .ok o =>
      .ok () { p with layout := { p.layout with fpSpillOffset := o + p.frame.stackSize } }
    | .error f => .error (.fault f) p
  else if t.abi.darwin || t.hasPointer p then
    .error (.error (.pointerNotSpilled p.name t.framePointer)) p
  else
    .ok () p

/-- Groups the slots of saved registers into areas. A function without a stack frame has
none. -/
def computeLayout (t : Target) : Lowering Unit := fun p =>
  if !p.layout.hasStackFrame then .ok () p
  else
    match t.addSlots p.layout.clearAreas p.frame.saved with
    | (l, some s) => .error (.error (.noSpillArea p.name s.reg)) { p with layout := l }
    | (l, none) =>
      if p.frame.stackSize < l.savedSize then
        .error (.error (.areasTooLarge p.name l.savedSize p.frame.stackSize))
          { p with layout := l }
      else
        t.locatePointer { p with layout := l.stackAreas p.frame.stackSize }

end Target

end FrameLowering
