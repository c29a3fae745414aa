import FrameLowering.Lowering.Target

/-!
# Register pairs

Some instructions work on an even register and the odd one after it. The two halves of a
pair have hints that name each other, and the allocator asks for an order that favours
registers of the right parity. Which pairs there are depends on the frame pointer and on
whether `r9` belongs to the platform.
-/

namespace FrameLowering

/-- Which register is reserved as the frame pointer. -/
inductive PointerUse where
  | unused
  | r7
  | r11
deriving DecidableEq, Repr

namespace Pairs

/-- Core registers by number. -/
def cores (ns : List (Fin 16)) : List Reg :=
  ns.map .core

/-- Orders that favour even registers, by frame pointer and whether `r9` is reserved. -/
def evenOrder : PointerUse → (r9Reserved : Bool) → List Reg
  | .unused, false => cores [0, 2, 4, 6, 8, 10, 1, 3, 12, 14, 5, 7, 9, 11]
  | .unused, true => cores [0, 2, 4, 6, 10, 1, 3, 12, 14, 5, 7, 8, 11]
  | .r7, false => cores [0, 2, 4, 8, 10, 1, 3, 12, 14, 5, 6, 9, 11]
  | .r7, true => cores [0, 2, 4, 10, 1, 3, 12, 14, 5, 6, 8, 11]
  | .r11, false => cores [0, 2, 4, 6, 8, 1, 3, 10, 12, 14, 5, 7, 9]
  | .r11, true => cores [0, 2, 4, 6, 1, 3, 10, 12, 14, 5, 7, 8]

/-- Orders that favour odd registers, by frame pointer and whether `r9` is reserved. -/
def oddOrder : PointerUse → (r9Reserved : Bool) → List Reg
  | .unused, false => cores [1, 3, 5, 7, 9, 11, 0, 2, 12, 14, 4, 6, 8, 10]
  | .unused, true => cores [1, 3, 5, 7, 11, 0, 2, 12, 14, 4, 6, 8, 10]
  | .r7, false => cores [1, 3, 5, 9, 11, 0, 2, 12, 14, 4, 6, 8, 10]
  | .r7, true => cores [1, 3, 5, 11, 0, 2, 12, 14, 4, 6, 8, 10]
  | .r11, false => cores [1, 3, 5, 6, 9, 0, 2, 10, 12, 14, 4, 7, 8]
  | .r11, true => cores [1, 3, 5, 7, 0, 2, 10, 12, 14, 4, 6, 8]

end Pairs

namespace Target

/-- The even register that forms a pair with an odd one; `noreg` if there is none. -/
def pairEven (t : Target) (p : Procedure) : Reg → Reg
  | .core n =>
    let r := Reg.core n
    if n = 1 then .core 0
    else if n = 3 then if t.abi.thumb1Only then .noreg else .core 2
    else if n = 5 then .core 4
    else if n = 7 ∨ n = 9 ∨ n = 11 then if t.isReserved p r then .noreg else .core (n - 1)
    else .noreg
  | .single n => if n.val % 2 = 1 then .single (n - 1) else .noreg
  | .double n => if n.val ≤ 15 ∧ n.val % 2 = 1 then .double (n - 1) else .noreg
  | _ => .noreg

/-- The odd register that forms a pair with an even one; `noreg` if there is none. -/
def pairOdd (t : Target) (p : Procedure) : Reg → Reg
  | .core n =>
    if n = 0 then .core 1
    else if n = 2 then if t.abi.thumb1Only then .noreg else .core 3
    else if n = 4 then .core 5
    else if n = 6 ∨ n = 8 ∨ n = 10 then
      if t.isReserved p (.core (n + 1)) then .noreg else .core (n + 1)
    else .noreg
  | .single n => if n.val % 2 = 0 then .single (n + 1) else .noreg
  | .double n => if n.val < 15 ∧ n.val % 2 = 0 then .double (n + 1) else .noreg
  | _ => .noreg

/-- The register that is reserved as the frame pointer. -/
def pointerUse (t : Target) (p : Procedure) : PointerUse :=
  if !t.abi.darwin && !t.hasPointer p then .unused
  else if t.framePointer = .core 7 then .r7
  else .r11

/-- Order of allocation of a class, without reserved registers. -/
def defaultOrder (t : Target) (p : Procedure) (c : RegClass) : Except Fault (List Reg) :=
  match c.info with
  | .ok info => .ok (info.order.filter fun r => !t.isReserved p r)
  | .error f => .error f

/-- Order of allocation of a class for a register with a hint. For half of a pair it
favours registers of the right parity, unless the hint names a register without a
partner. -/
def allocationOrder (t : Target) (p : Procedure) (c : RegClass) (h : Hint) :
    Except Fault (List Reg) :=
  if c ≠ .gpr then t.defaultOrder p c
  else
    match h.kind with
    | .even =>
      if h.reg.isPhysical && t.pairEven p h.reg = .noreg then t.defaultOrder p c
      else .ok (Pairs.evenOrder (t.pointerUse p) t.abi.r9Reserved)
    | .odd =>
      if h.reg.isPhysical && t.pairOdd p h.reg = .noreg then t.defaultOrder p c
      else .ok (Pairs.oddOrder (t.pointerUse p) t.abi.r9Reserved)
    | _ => t.defaultOrder p c

/-- The register that satisfies a hint; `noreg` if it cannot be satisfied. -/
def resolveHint (t : Target) (p : Procedure) (h : Hint) : Reg :=
  let out :=
    match h.kind with
    | .same => h.reg
    | .odd => t.pairOdd p h.reg
    | .even => t.pairEven p h.reg
    | .unknown _ => .noreg
  if !h.reg.isPhysical || out.isSpecial || t.isReserved p out then .noreg else out

end Target

/-- The table after a register is renamed. If it is half of a pair, and the other half is
virtual and still names it, the other half's hint names the new register. -/
def RegTable.renameHint (t : RegTable) (r new : Reg) : RegTable :=
  let h := t.hint r
  let partner := t.hint h.reg
  if h.kind.isPair && h.reg.isVirtual && h.reg ≠ new && partner.reg = r then
    t.setHint h.reg { partner with reg := new }
  else t

end FrameLowering
