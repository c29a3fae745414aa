import FrameLowering.Lowering.Arithmetic
import FrameLowering.Lowering.Liveness

/-!
# Register scavenging

Scratch registers for a single instruction. One whose value is dead can be used as it
is; otherwise a register is borrowed: its value is stored in the scavenging slot before
the instruction and loaded again after it.
-/

namespace FrameLowering

/-- An instruction in its block, with the instructions after it. -/
structure Site where
  block : Nat
  inst : Inst
  rest : List Inst
deriving Repr

namespace Site

/-- The instruction at a place of a function. -/
def at? (p : Procedure) (block place : Nat) : Option Site :=
  match (p.lines block).drop place with
  | [] => none
  | l :: rest => some ⟨block, l.inst, rest.map Line.inst⟩

/-- The error about the instruction. -/
def error (s : Site) (p : Procedure) (reason : Reason) (detail : Detail) : Failure :=
  .error (.inst p.name s.block s.inst reason detail)

end Site

/-- Some registers in order, but `r12` first if it is among them. -/
def scratchFirst (order : List Reg) : List Reg :=
  if Reg.r12 ∈ order then Reg.r12 :: order.filter fun r => r ≠ Reg.r12 else order

/-- Of some registers the one whose value is needed furthest away, against `best`, which
is needed `distance` instructions on. A register that is not needed again wins. -/
def furthest (rest : List Inst) (best : Reg) (distance : Nat) : List Reg → Reg
  | [] => best
  | r :: rs =>
    match Liveness.nextRead rest r with
    | none => r
    | some d => if distance < d then furthest rest r d rs else furthest rest best distance rs

/-- A register lent out for the span of one instruction. -/
structure Borrow where
  reg : Reg
  /-- Saves the register. -/
  spill : Inst
  /-- Restores the register. -/
  reload : Inst
deriving DecidableEq, Repr

/-- A borrowed register that is still to be given back. -/
structure Loan where
  borrow : Borrow
  /-- Bytes by which the stack pointer was moved down at the instruction. -/
  spAdj : Int64
  block : Nat
  /-- Label of the instruction that the register was borrowed for. -/
  label : Nat
  released : Bool := false
deriving Repr

namespace Target

/-- Registers that can ever be scratch registers at an instruction, of those in an
order. -/
def candidates (t : Target) (p : Procedure) (i : Inst) (order : List Reg) : List Reg :=
  (scratchFirst order).filter fun r =>
    !(r.isSpecial || r = t.framePointer || t.isReserved p r || i.refers r)

/-- Whether a register may be overwritten if its value is dead. A callee-saved register
may if the function saves it and the caller agrees. -/
def isExpendable (t : Target) (p : Procedure) (allowSaved : Bool) (r : Reg) : Bool :=
  !t.isCalleeSaved r || (allowSaved && p.layout.isSpilled r)

/-- A register of an order that is dead after an instruction and not used by it. -/
def findUnused (t : Target) (p : Procedure) (s : Site) (order : List Reg) (allowSaved : Bool) :
    Option Reg :=
  (t.candidates p s.inst order).find? fun r =>
    t.isExpendable p allowSaved r && !Liveness.liveAfter p s.block s.inst s.rest r

/-- The borrowing of a register. -/
def lend (t : Target) (p : Procedure) (r : Reg) : Borrow :=
  ⟨r, t.instrSet.storeToSlot r p.frame.scavengingIndex,
    t.instrSet.loadFromSlot r p.frame.scavengingIndex⟩

/-- Borrows a register of a class for an instruction. -/
def borrow (t : Target) (p : Procedure) (s : Site) (c : RegClass) : Except Failure Borrow :=
  if (p.frame.object? p.frame.scavengingIndex).isNone then
    .error (s.error p .noScratch .noSlot)
  else
    match c.info with
    | .error f => .error (.fault f)
    | .ok info =>
      match t.candidates p s.inst info.order with
      | [] => .error (s.error p .noScratch (.noCandidate c))
      | r :: rs => .ok (t.lend p (furthest s.rest r 0 (r :: rs)))

/-- A register of a class that is dead after the instruction at a place. -/
def findUnusedAt (t : Target) (p : Procedure) (block place : Nat) (c : RegClass)
    (allowSaved : Bool) : Except Fault (Option Reg) :=
  match Site.at? p block place with
  | none => .error .nothingThere
  | some s =>
    match c.info with
    | .error f => .error f
    | .ok info => .ok (t.findUnused p s info.order allowSaved)

/-- Borrows a register of a class for the instruction at a place, by storing it before
the instruction. -/
def scavenge (t : Target) (block place : Nat) (c : RegClass) (spAdj : Int64) : Lowering Loan :=
  fun p =>
    match Site.at? p block place, (p.lines block)[place]? with
    | some s, some l =>
      match t.borrow p s c with
      | .error e => .error e p
      | .ok b =>
        .ok { borrow := b, spAdj, block, label := l.label } (p.insert block place [b.spill])
    | _, _ => .error (.fault .nothingThere) p

end Target

/-- Gives a borrowed register back, by loading it after the instruction. Doing so again
changes nothing. -/
def Loan.release (n : Loan) : Lowering Loan := fun p =>
  if n.released then .ok n p
  else
    match (p.blocks[n.block]?).bind fun b => b.find? n.label with
    | none => .error (.fault .instructionRemoved) p
    | some place => .ok { n with released := true } (p.insert n.block (place + 1) [n.borrow.reload])

end FrameLowering
