import FrameLowering.Code.Procedure
import FrameLowering.Text.Size

/-!
# Listings of lowered functions
-/

namespace FrameLowering.Procedure

/-- The line over a listing: the sizes of the frame and of the code. -/
def headline (p : Procedure) : String :=
  "; " ++ p.name ++ ": " ++ Text.byteSize p.frame.stackSize.toInt ++ " frame, " ++
    Text.byteSize p.size ++ " of code\n"

/-- A listing, with the frame objects and the layout if they are asked for. -/
def listing (withFrame : Bool) (p : Procedure) : String :=
  p.headline ++ p.print ++ (if withFrame then p.frame.describe ++ p.layout.describe else "")

end FrameLowering.Procedure
