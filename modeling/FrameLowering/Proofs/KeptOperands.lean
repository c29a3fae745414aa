import FrameLowering.Proofs.Expansion

/-!
# What an instruction keeps

Eliminating a frame index puts a register in its place. Of the other operands only the immediate
that goes with the frame index is changed, and it is gone where an addition has become a move.
The opcode follows the sign of the offset, and the predicate stays (`Inst.Retains`). Nothing is
asked of the offset or of the machine here, so the main statement `Expands.retains` is about
every expansion, borrowed registers included.

The predicate is kept if the frame index stands in the base operand. Assembly text has no
predicate, and its frame index may stand anywhere.
-/

namespace FrameLowering

/-- The ways in which the offset of an instruction changes its opcode. -/
inductive Opcode.Becomes (w : WideSet) : Opcode → Opcode → Prop
  | same (op : Opcode) : Becomes w op op
  | subtraction : Becomes w w.add w.sub
  | move : Becomes w w.add w.move
  | load : Becomes w .t2ldri12 .t2ldri8
  | store : Becomes w .t2stri12 .t2stri8

namespace Inst

/-- How far behind its frame index the immediate of an instruction stands. -/
def immediateAfter? (w : WideSet) (i : Inst) : Option Nat :=
  if i.op = w.add then some 1 else i.info.family.field.position

/-- An instruction with a register in the place of its frame index. The immediate that goes with
the frame index is changed, or dropped from an addition that has become a move, and all other
operands are as they were. -/
inductive KeepsOperands (w : WideSet) (i i' : Inst) : Prop
  | changed {front middle back : List Operand} {index v v' : Int64} {base : Reg} {kill : Bool}
      (hfirst : i.frameIndexAt = some front.length)
      (himm : i.immediateAfter? w = some (middle.length + 1))
      (hold : i.operands = front ++ .frameIndex index :: (middle ++ .imm v :: back))
      (hnew : i'.operands = front ++ .reg base false kill :: (middle ++ .imm v' :: back))
  | dropped {front back : List Operand} {index v : Int64} {base : Reg} {kill : Bool}
      (hfirst : i.frameIndexAt = some front.length)
      (hop : i.op = w.add) (hop' : i'.op = w.move)
      (hold : i.operands = front ++ .frameIndex index :: .imm v :: back)
      (hnew : i'.operands = front ++ .reg base false kill :: back)

/-- What an instruction keeps when its frame index is eliminated. -/
structure Retains (w : WideSet) (i i' : Inst) : Prop where
  opcode : Opcode.Becomes w i.op i'.op
  operands : i.KeepsOperands w i'
  predicate : i'.predicate = i.predicate

end Inst

/-! ## Operands -/

namespace Operand

theorem exists_split {os : List Operand} {n : Nat} {o : Operand} (h : os[n]? = some o) :
    ∃ front back, os = front ++ o :: back ∧ front.length = n := by
  obtain ⟨hlt, rfl⟩ := List.getElem?_eq_some_iff.1 h
  refine ⟨os.take n, os.drop (n + 1), ?_, List.length_take_of_le (Nat.le_of_lt hlt)⟩
  rw [List.getElem_cons_drop, List.take_append_drop]

/-- Operands around two of them. -/
theorem exists_split_two {os : List Operand} {n k : Nat} {o o' : Operand} (h : os[n]? = some o)
    (h' : os[n + (k + 1)]? = some o') :
    ∃ front middle back, os = front ++ o :: (middle ++ o' :: back) ∧ front.length = n ∧
      middle.length = k := by
  obtain ⟨front, rest, rfl, rfl⟩ := exists_split h
  rw [List.getElem?_append_right (Nat.le_add_right _ _), Nat.add_sub_cancel_left] at h'
  obtain ⟨middle, back, rfl, rfl⟩ := exists_split (n := k) h'
  exact ⟨front, middle, back, rfl, rfl, rfl⟩

end Operand

namespace Inst

section
variable {w : WideSet} {i i' : Inst} {place k : Nat} {index v : Int64} {base : Reg}

/-- A base register alone. -/
theorem keepsOperands_setOperand (hfirst : i.frameIndexAt = some place)
    (hindex : i.operands[place]? = some (.frameIndex index))
    (hk : i.immediateAfter? w = some (k + 1)) (hv : i.operands[place + (k + 1)]? = some (.imm v)) :
    i.KeepsOperands w (i.setOperand place (.use base)) := by
  obtain ⟨front, middle, back, hold, rfl, rfl⟩ := Operand.exists_split_two hindex hv
  have hnew : (i.setOperand front.length (.use base)).operands =
      front ++ .reg base false false :: (middle ++ .imm v :: back) := by
    simp [setOperand, hold, Operand.use]
  exact .changed hfirst hk hold hnew

/-- A base register and an immediate written over those that were there. -/
theorem keepsOperands_withOffset (op : Opcode) (v' : Int64) (hfirst : i.frameIndexAt = some place)
    (hindex : i.operands[place]? = some (.frameIndex index))
    (hk : i.immediateAfter? w = some (k + 1)) (hv : i.operands[place + (k + 1)]? = some (.imm v)) :
    i.KeepsOperands w (i.withOffset op place (place + (k + 1)) base v') := by
  obtain ⟨front, middle, back, hold, rfl, rfl⟩ := Operand.exists_split_two hindex hv
  have hnew : (i.withOffset op front.length (front.length + (middle.length + 1)) base v').operands =
      front ++ .reg base false false :: (middle ++ .imm v' :: back) := by
    simp [withOffset, hold, Operand.use]
  exact .changed hfirst hk hold hnew

/-- An addition without its immediate. -/
theorem keepsOperands_move (hop : i.op = w.add) (hfirst : i.frameIndexAt = some place)
    (hindex : i.operands[place]? = some (.frameIndex index))
    (hv : i.operands[place + 1]? = some (.imm v)) :
    i.KeepsOperands w ⟨w.move, (i.operands.set place (.use base)).eraseIdx (place + 1)⟩ := by
  obtain ⟨front, middle, back, hold, rfl, hmiddle⟩ :=
    Operand.exists_split_two (k := 0) hindex hv
  obtain rfl := List.length_eq_zero_iff.1 hmiddle
  have hnew : (i.operands.set front.length (.use base)).eraseIdx (front.length + 1) =
      front ++ .reg base false false :: back := by
    simp [hold, Operand.use, List.eraseIdx_append]
  exact .dropped hfirst hop rfl hold hnew

/-- The register gives way to another one. -/
theorem KeepsOperands.setOperand (h : i.KeepsOperands w i') (hplace : i.frameIndexAt = some place)
    (r : Reg) (kill : Bool) : i.KeepsOperands w (i'.setOperand place (.reg r false kill)) := by
  cases h with
  | @changed front middle back index v v' base _ hfirst himm hold hnew =>
    obtain rfl := Option.some.inj (hplace.symm.trans hfirst)
    have hset : (i'.setOperand front.length (.reg r false kill)).operands =
        front ++ .reg r false kill :: (middle ++ .imm v' :: back) := by
      simp [Inst.setOperand, hnew]
    exact .changed hfirst himm hold hset
  | @dropped front back index v base _ hfirst hop hop' hold hnew =>
    obtain rfl := Option.some.inj (hplace.symm.trans hfirst)
    have hset : (i'.setOperand front.length (.reg r false kill)).operands =
        front ++ .reg r false kill :: back := by
      simp [Inst.setOperand, hnew]
    exact .dropped hfirst hop hop' hold hset

/-- Registers that an instruction names are still named. -/
theorem KeepsOperands.mem {o : Operand} (h : i.KeepsOperands w i') (ho : o ∈ i.operands)
    (hreg : o.isReg) : o ∈ i'.operands := by
  cases h with
  | changed _ _ hold hnew =>
    rw [hold] at ho
    rw [hnew]
    simp only [List.mem_append, List.mem_cons] at ho ⊢
    rcases ho with ho | rfl | ho | rfl | ho
    · exact .inl ho
    · cases hreg
    · exact .inr (.inr (.inl ho))
    · cases hreg
    · exact .inr (.inr (.inr (.inr ho)))
  | dropped _ _ _ hold hnew =>
    rw [hold] at ho
    rw [hnew]
    simp only [List.mem_append, List.mem_cons] at ho ⊢
    rcases ho with ho | rfl | rfl | ho
    · exact .inl ho
    · cases hreg
    · cases hreg
    · exact .inr (.inr ho)

end

/-! ## Predicates -/

/-- Assembly text is always executed. -/
theorem predicate_of_isAsm {i : Inst} (h : i.info.flags.isAsm) : i.predicate = (Cond.al, .noreg) := by
  have hnone : i.info.predicate = none := by
    have hop : i.op = .inlineAsm := by
      change i.op.info.flags.isAsm = true at h
      revert h
      cases i.op <;> simp [Opcode.info, Opcode.dataInfo, Opcode.moveInfo, Opcode.loadInfo,
        Opcode.storeInfo, Opcode.callInfo, Opcode.returnInfo]
    rw [info, hop]
    rfl
  rw [predicate, hnone]

end Inst

theorem Opcode.SameShape.becomes {w : WideSet} {a b : Opcode} (h : a.SameShape b) :
    Opcode.Becomes w b a := by
  rcases h.form with rfl | rfl
  · exact .same _
  · cases b
    case t2ldri12 => exact .load
    case t2stri12 => exact .store
    all_goals exact .same _

/-! ## Expansions -/

namespace Target

section
variable {t : Target} {w : WideSet} {p : Procedure} {block place : Nat} {i i' : Inst} {a : Address}
  {index spAdj rest : Int64}

theorem becomes_of_fold (h : t.fold w i place a = ⟨i', .ok rest⟩) :
    Opcode.Becomes w i.op i'.op := by
  rw [fold] at h
  split at h
  · next hop =>
    rw [hop]
    obtain ⟨v, -, ⟨rfl, -⟩ | ⟨negative, m, rfl, -⟩⟩ := WideSet.foldAdd_cases hop h
    · exact .move
    · cases negative with
      | false => exact .same _
      | true => exact .subtraction
  · obtain ⟨-, k, v, -, -, ⟨-, rfl, -⟩ | ⟨op, v', rfl, hshape, -⟩⟩ := Inst.foldMemory_cases h
    · exact .same _
    · exact hshape.becomes

theorem keepsOperands_of_fold (hfirst : i.frameIndexAt = some place)
    (hindex : i.operands[place]? = some (.frameIndex index))
    (h : t.fold w i place a = ⟨i', .ok rest⟩) : i.KeepsOperands w i' := by
  rw [fold] at h
  split at h
  · next hop =>
    have hk : i.immediateAfter? w = some 1 := if_pos hop
    obtain ⟨v, hv, ⟨rfl, -⟩ | ⟨negative, m, rfl, -⟩⟩ := WideSet.foldAdd_cases hop h
    · exact Inst.keepsOperands_move hop hfirst hindex hv
    · exact Inst.keepsOperands_withOffset (k := 0) _ m hfirst hindex hk hv
  · next hop =>
    obtain ⟨-, k, v, hposition, hv, hcases⟩ := Inst.foldMemory_cases h
    -- the immediate never stands in the place of the frame index itself
    obtain ⟨k, rfl⟩ := Nat.exists_eq_add_one.2 (Family.position_pos hposition)
    have hk : i.immediateAfter? w = some (k + 1) := (if_neg hop).trans hposition
    rcases hcases with ⟨-, rfl, -⟩ | ⟨op, v', rfl, -⟩
    · exact Inst.keepsOperands_setOperand hfirst hindex hk hv
    · exact Inst.keepsOperands_withOffset op v' hfirst hindex hk hv

/-- An instruction after as much of the offset was folded in as possible. -/
theorem retains_of_rebase {r : Rebased} (hr : t.rebase w p block i spAdj = .ok r)
    (hplace : r.place = 1 ∨ i.info.flags.isAsm) : i.Retains w r.inst := by
  obtain ⟨index, o, a, hfirst, hindex, -, -, -, hfold, -⟩ := rebase_cases hr
  refine ⟨becomes_of_fold hfold, keepsOperands_of_fold hfirst hindex hfold, ?_⟩
  rcases hplace with hplace | hasm
  · rw [hplace] at hindex hfold
    exact (folds_of_fold hindex hfold).predicate
  · have hflags := (fold_operands hfold).1
    rw [Inst.predicate_of_isAsm hasm, Inst.predicate_of_isAsm (hflags.symm ▸ hasm)]

/-- The same instruction through a scratch register. -/
theorem retains_through {r : Rebased} (hr : t.rebase w p block i spAdj = .ok r)
    (hplace : r.place = 1 ∨ i.info.flags.isAsm) (scratch : Reg) :
    i.Retains w (r.through scratch) := by
  obtain ⟨hop, hoperands, hpredicate⟩ := retains_of_rebase hr hplace
  obtain ⟨index, o, a, hfirst, -, -, -, -, hfold, -⟩ := rebase_cases hr
  refine ⟨hop, hoperands.setOperand hfirst scratch true, ?_⟩
  rw [← hpredicate]
  rcases hplace with hplace | hasm
  · rw [Rebased.through, hplace]
    exact Inst.predicate_setOperand_one _ fun n hn => predicate_of_fold hfold hn
  · have hflags := (fold_operands hfold).1
    have hasm' : r.inst.info.flags.isAsm := hflags.symm ▸ hasm
    rw [Inst.predicate_of_isAsm hasm', Inst.predicate_of_isAsm (i := r.through scratch) hasm']

/-- Whatever stands for an instruction with a frame index, one of them is what it has become. -/
theorem Expands.retains {e : Expansion} (h : Expands t w p block i spAdj e)
    (hplace : i.frameIndexAt = some 1 ∨ i.info.flags.isAsm) : i.Retains w e.inst := by
  have hat {r : Rebased} (hr : t.rebase w p block i spAdj = .ok r) :
      r.place = 1 ∨ i.info.flags.isAsm := by
    obtain ⟨_, _, _, hfirst, -⟩ := rebase_cases hr
    refine hplace.imp_left fun hone => ?_
    exact Option.some.inj (hfirst.symm.trans hone)
  cases h with
  | direct h =>
    cases h with
    | alone hr _ => exact retains_of_rebase hr (hat hr)
    | through hr _ _ _ => exact retains_through hr (hat hr) _
  | borrowed hr _ _ _ _ _ _ => exact retains_through hr (hat hr) _

end

end Target

end FrameLowering
