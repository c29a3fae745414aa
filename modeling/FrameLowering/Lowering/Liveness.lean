import FrameLowering.Code.Procedure

/-!
# Liveness

A register is live at a place of a function if its value may be read from there on.
`scan` decides what it can from a run of instructions, and `liveAfter` follows the
successors of blocks for the rest. A block that neither returns nor has successors is
taken to read every register.
-/

namespace FrameLowering

namespace Liveness

/-- Whether a register is live before some instructions, if they decide it. The first
that reads the register makes it live; a write ends its value, unless it is conditional
and may not happen. -/
def scan (r : Reg) : List Inst → Option Bool
  | [] => none
  | i :: rest =>
    if i.reads r then some true
    else if i.predicate.1 = Cond.al && i.writes r then some false
    else scan r rest

/-- Number of blocks that have not been seen. -/
def unseen (count : Nat) (seen : List Nat) : Nat :=
  ((List.range count).filter fun b => b ∉ seen).length

/-- Seeing a block leaves fewer unseen. -/
theorem unseen_cons_lt {count b : Nat} {seen : List Nat} (hb : b < count) (hs : b ∉ seen) :
    unseen count (b :: seen) < unseen count seen := by
  unfold unseen
  have h : ((List.range count).filter fun c => c ∉ b :: seen) =
      (((List.range count).filter fun c => c ∉ seen).filter fun c => c ≠ b) := by
    rw [List.filter_filter]
    apply List.filter_congr
    intro c _
    simp [List.mem_cons, not_or]
  rw [h]
  refine List.length_filter_lt_length_iff_exists.2 ⟨b, ?_, by simp⟩
  simp [hb, hs]

/-- Whether a register is live on entry to one of the blocks in `work`, or to one that
they lead to. Blocks in `seen` are not visited. -/
def liveFrom (blocks : List Block) (r : Reg) (seen work : List Nat) : Bool :=
  match work with
  | [] => false
  | b :: work =>
    if hs : b ∈ seen then liveFrom blocks r seen work
    else if hb : b < blocks.length then
      match scan r blocks[b].insts with
      | some true => true
      | some false => liveFrom blocks r (b :: seen) work
      | none =>
        if blocks[b].successors = [] && !blocks[b].isReturn then true
        else liveFrom blocks r (b :: seen) (blocks[b].successors ++ work)
    else liveFrom blocks r seen work
termination_by (unseen blocks.length seen, work.length)
decreasing_by
  all_goals first
    | exact Prod.Lex.right _ (by simp)
    | exact Prod.Lex.left _ _ (unseen_cons_lt hb hs)

/-- Whether the last of some instructions returns. -/
def endsInReturn (insts : List Inst) : Bool :=
  match insts.getLast? with
  | some i => i.isReturn
  | none => false

/-- Whether the value of a register may be read after the instruction `here` of a block,
which `rest` follows. -/
def liveAfter (p : Procedure) (block : Nat) (here : Inst) (rest : List Inst) (r : Reg) : Bool :=
  match scan r rest with
  | some live => live
  | none =>
    if endsInReturn (here :: rest) then false
    else
      match (p.blocks[block]?.map Block.successors).getD [] with
      | [] => true
      | next => liveFrom p.blocks r [block] next

/-- Number of instructions until a register is next read; none if it is not read
again. -/
def nextRead (rest : List Inst) (r : Reg) : Option Nat :=
  (rest.findIdx? fun i => i.reads r).map (· + 1)

end Liveness

end FrameLowering
