import FrameLowering.Lowering.Target
import FrameLowering.Text.Columns
import FrameLowering.Text.Size

/-!
# Frame maps

The map of a function's frame, from the highest address to the lowest, with the space
between objects. Offsets count from the stack pointer in the body of the function.
-/

namespace FrameLowering

/-- What lies in a range of a frame. -/
inductive Occupant where
  | padding
  | object (index : Int64) (o : FrameObject)
  | callFrame
deriving DecidableEq, Repr

/-- A range of a frame. -/
structure MapRow where
  offset : Int64
  size : Int64
  what : Occupant
deriving DecidableEq, Repr

namespace Procedure

/-- Ranges of objects from high to low, where everything from `top` up is covered. -/
def mapRows (stackSize : Int64) : (top : Int64) → List (Int64 × FrameObject) → List MapRow
  | top, [] => if 0 < top then [⟨0, top, .callFrame⟩] else []
  | top, (index, o) :: rest =>
    let offset := o.offset + stackSize
    let gap := top - (offset + o.size)
    let row : MapRow := ⟨offset, o.size, .object index o⟩
    if o.fixed then row :: mapRows stackSize top rest
    else if 0 < gap then
      ⟨offset + o.size, gap, .padding⟩ :: row :: mapRows stackSize offset rest
    else row :: mapRows stackSize offset rest

/-- The map of a frame. -/
def frameMap (p : Procedure) : List MapRow :=
  mapRows p.frame.stackSize p.frame.stackSize p.frame.byOffset.reverse

/-- What an object is for. -/
def purpose (p : Procedure) (index : Int64) (o : FrameObject) : String :=
  if o.fixed then "fixed"
  else if index = p.frame.scavengingIndex then "scavenging"
  else if o.spillSlot then "spill"
  else "local"

/-- Description of what lies in a range. -/
def describeOccupant (p : Procedure) : Occupant → String
  | .padding => "padding"
  | .callFrame => "call frame and padding"
  | .object index o =>
    let saved :=
      match p.frame.saved.reverse.find? fun s => s.index = index with
      | some s => " saves " ++ s.reg.name ++ " (" ++ s.area.name ++ ")"
      | none => ""
    "fi:" ++ toString index.toInt ++ " " ++ p.purpose index o ++ saved

/-- Cells of a row. -/
def mapCells (p : Procedure) (r : MapRow) : List String :=
  ["", "sp+" ++ toString r.offset.toInt, Text.byteSize r.size.toInt, p.describeOccupant r.what]

/-- Line about an area that is not empty. -/
def mapExtent (e : Area × Int64 × Int64) : String :=
  if 0 < e.2.2 then
    "  " ++ e.1.name ++ ": " ++ Text.byteSize e.2.2.toInt ++ " at sp+" ++ toString e.2.1.toInt ++
      "\n"
  else ""

/-- The map of a frame as text. -/
def describeMap (p : Procedure) (t : Target) : String :=
  p.name ++ " (" ++ t.abi.name ++ "): " ++ Text.byteSize p.frame.stackSize.toInt ++
    " frame, base " ++ (t.frameRegister p).name ++ "\n" ++
    Text.inColumns (["", "offset", "size", "object"] :: p.frameMap.map p.mapCells) ++
    String.join (p.layout.extents.map mapExtent)

end Procedure

end FrameLowering
