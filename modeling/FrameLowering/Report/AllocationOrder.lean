import FrameLowering.Lowering.Pairs

/-!
# Allocation orders as text
-/

namespace FrameLowering.Target

/-- A function without code, for which orders are shown. -/
def orderSubject : Procedure := { name := "order" }

/-- Whether and how a hint on a physical register is satisfied. -/
def describeHint (t : Target) (h : Hint) : String :=
  if h.reg.isPhysical then
    let r := t.resolveHint orderSubject h
    if r = .noreg then h.reg.name ++ ": hint cannot be satisfied\n"
    else h.reg.name ++ ": hint resolves to " ++ r.name ++ "\n"
  else ""

/-- The order of allocation of a class for a register with a hint. -/
def describeOrder (t : Target) (c : RegClass) (h : Hint) : Except Fault String :=
  match t.allocationOrder orderSubject c h with
  | .error f => .error f
  | .ok order =>
    .ok (c.name ++ " (" ++ t.abi.name ++ ", " ++ h.kind.name ++ "): " ++
      String.intercalate " " (order.map Reg.name) ++ "\n" ++ t.describeHint h)

end FrameLowering.Target
