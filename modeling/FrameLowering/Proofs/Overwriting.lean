import FrameLowering.Proofs.FrameInvariant

/-!
# What the load of a borrowed register overwrites

An instruction that borrows a register is followed by the load of that register from the
scavenging slot. A slot that is out of reach is accessed through `r12`, also where the
instruction has just left its result there. `Settles` says exactly when the result of an
instruction outlives the load. The store of the register takes the same way, before an access
whose index register can be `r12` (`Expands.indexValue_eq`).
-/

namespace FrameLowering

open ImmediateField (word)

/-- A result `v` is still in a register after some instructions exactly if the register is not
`r12`, or at most one instruction comes after it, or it happens to be the base from which the
last of them accesses the scavenging slot. -/
def Procedure.Settles (p : Procedure) (entry : State) (r : Reg) (v : Word) (after : List Inst)
    (s : State) : Prop :=
  s.read r = v ↔ (r = Reg.r12 → 1 < after.length → ∃ i o, after.getLast? = some i ∧
    p.frame.object? p.frame.scavengingIndex = some o ∧ v + word i.displacement = p.home entry o)

/-- What becomes of the sum that an instruction computes while the instructions after it are
executed. -/
def Procedure.Yields (p : Procedure) (entry : State) (i : Inst) (after : List Inst) (s : State) :
    Prop :=
  ∀ n s' s'', (i.op.addend? 0).isSome → i.register 0 = .core n → i.Enabled s → i.Effect s s' →
    ExecAll after s' s'' → p.Settles entry (.core n) (s'.read (.core n)) after s''

namespace Procedure

variable {p : Procedure} {entry s : State} {r : Reg} {v : Word} {after : List Inst}

/-- The result is still there. -/
theorem settles_of_read (h : s.read r = v) (hr : r = Reg.r12 → after.length ≤ 1) :
    p.Settles entry r v after s := by
  refine ⟨fun _ h12 hlen => ?_, fun _ => h⟩
  have := hr h12
  omega

/-- The base of the access to the slot is there instead. -/
theorem settles_of_base {i : Inst} {o : FrameObject} (hlast : after.getLast? = some i)
    (ho : p.frame.object? p.frame.scavengingIndex = some o) (hlen : 1 < after.length)
    (h : s.read Reg.r12 + word i.displacement = p.home entry o) :
    p.Settles entry Reg.r12 v after s := by
  constructor
  · rintro rfl _ _
    exact ⟨i, o, hlast, ho, h⟩
  · intro hbase
    obtain ⟨j, q, hj, hq, heq⟩ := hbase rfl hlen
    obtain rfl := Option.some.inj (hlast.symm.trans hj)
    obtain rfl := Option.some.inj (ho.symm.trans hq)
    rw [← heq] at h
    exact add_right_cancel h

theorem yields_nil {i : Inst} : p.Yields entry i [] s := by
  rintro n s' s'' - - - - rfl
  exact settles_of_read rfl fun _ => Nat.zero_le 1

end Procedure

/-- The value of an index register does not depend on the other registers. -/
theorem Inst.indexValue_of_agreesOff {i : Inst} {n : Fin 16} {s s' : State}
    (hagrees : s.AgreesOff [.core n] s')
    (hne : i.info.family.isIndexed → i.register 2 ≠ .core n) : i.indexValue s' = i.indexValue s := by
  rw [indexValue, indexValue]
  split
  · next hindexed =>
    refine hagrees.read_eq fun x hx hover => hne hindexed ?_
    obtain rfl := List.mem_singleton.1 hx
    exact Reg.eq_of_core_overlaps hover
  · rfl

namespace Target

section
variable {t : Target} {w : WideSet} {p : Procedure} {block : Nat} {i : Inst} {spAdj : Int64}
  {entry s s' : State} {e : Expansion} {m n : Fin 16} {index : Int64}

theorem expandDirect_cases (h : t.expandDirect w p block i spAdj = e) (hok : e.failure = none) :
    ∃ r, t.rebase w p block i spAdj = .ok r ∧
      ((r.rest = 0 ∧ e.before = [] ∧ e.inst = r.inst) ∨
        (r.rest ≠ 0 ∧ ¬ r.inst.refers Reg.r12 ∧ e.before = r.chain w Reg.r12 ∧
          e.inst = r.through Reg.r12)) := by
  subst h
  rw [expandDirect] at hok ⊢
  cases hr : t.rebase w p block i spAdj with
  | error e => simp [hr] at hok
  | ok r =>
    refine ⟨r, rfl, ?_⟩
    simp only [hr] at hok ⊢
    split
    · next hrest => exact .inl ⟨hrest, rfl, rfl⟩
    · next hrest =>
      rw [if_neg hrest] at hok
      split
      · next hrefers => simp [hrefers] at hok
      · next hrefers => exact .inr ⟨hrest, hrefers, rfl, rfl⟩

/-- An access forms some address in any case. -/
theorem forms_of_folds {i' : Inst} {r base : Reg} {offset rest : Int64}
    (hi : i.IsSlotAccess r index) (h : i.Folds i' base offset rest) (s : State) :
    i.Forms i' (s.read (i'.register 1) + i'.beyond s) s := by
  refine ⟨h.dst, h.predicate, h.access, h.addend, fun _ => ?_⟩
  rw [hi.beyond s, add_zero]

/-- An access through a scratch register forms some address in any case. -/
theorem forms_of_folds_through {r : Rebased} {x base : Reg} {offset rest : Int64}
    (hi : i.IsSlotAccess x index) (h : i.Folds r.inst base offset rest) (hplace : r.place = 1)
    (hafter : ∀ n, r.inst.info.predicate = some n → 1 < n) (scratch : Reg) (s : State) :
    i.Forms (r.through scratch)
      (s.read ((r.through scratch).register 1) + (r.through scratch).beyond s) s := by
  have hthrough : r.through scratch = r.inst.setOperand 1 (.reg scratch false true) := by
    rw [Rebased.through, hplace]
  have hpred : (r.through scratch).predicate = r.inst.predicate := by
    rw [hthrough]
    exact Inst.predicate_setOperand_one _ hafter
  refine ⟨?_, hpred.trans h.predicate, h.access, h.addend, fun _ => ?_⟩
  · rw [hthrough, Inst.getElem?_setOperand_one (by decide), h.dst]
  · rw [hi.beyond, add_zero]

/-- What an access adds to its base is the offset in its immediate. -/
theorem beyond_of_folds {i' : Inst} {r base : Reg} {offset rest : Int64} {k : Access}
    (hi : i.IsSlotAccess r index) (h : i.Folds i' base offset rest) (hk : i.op.access? = some k)
    (s : State) : i'.beyond s = word i'.displacement := by
  -- it does not depend on the state, so that it is the same where the index register is zero
  have hconst (s : State) : i'.beyond s = word offset - word rest := by
    have hsum := h.beyond s
    rw [hi.beyond s, zero_add] at hsum
    exact eq_sub_of_add_eq hsum
  let zero : State := ⟨fun _ => 0, s.mem, s.flags⟩
  have hzero : i'.indexValue zero = 0 := by
    rw [Inst.indexValue]
    split
    · generalize i'.register 2 = x
      cases x <;> rfl
    · rfl
  rw [hconst s, ← hconst zero, Inst.beyond_of_access (h.access.trans hk), hzero]
  exact BitVec.zero_add _

theorem chain_ne_nil {r : Rebased} {scratch : Reg} (hr : t.rebase w p block i spAdj = .ok r)
    (hrest : r.rest ≠ 0) : r.chain w scratch ≠ [] := by
  obtain ⟨hlo, hhi⟩ := rebase_range hr
  exact WideSet.addConstant_ne_nil (ImmediateField.word_ne_zero hlo hhi hrest)

/-- The scratch register through which a slot is accessed is as far from it as the immediate of the
access says. -/
theorem read_base_of_through {r : Rebased} {x : Reg} {k : Access} {o : FrameObject}
    (hi : i.IsSlotAccess x index) (hk : i.op.access? = some k)
    (hr : t.rebase w p block i spAdj = .ok r) (ho : p.frame.object? index = some o)
    (hfinds : t.Finds p entry spAdj index s) (hrest : r.rest ≠ 0)
    (hchain : ExecAll (r.chain w (.core n)) s s') :
    s'.read (.core n) + word (r.through (.core n)).displacement = p.home entry o := by
  obtain ⟨hplace, a, -, -, folds, -⟩ := rebase_folds hr hi.place hi.index ho
  have hthrough : r.through (.core n) = r.inst.setOperand 1 (.reg (.core n) false true) := by
    rw [Rebased.through, hplace]
  have hreg : (r.through (.core n)).register 1 = .core n := by
    obtain ⟨hlen, -⟩ := List.getElem?_eq_some_iff.1 folds.base
    rw [hthrough, Inst.register, Inst.setOperand, List.getElem?_set_self hlen]
    rfl
  have hbeyond : (r.through (.core n)).beyond s' = word (r.through (.core n)).displacement := by
    rw [hthrough, Inst.beyond_setOperand_one, Inst.displacement_setOperand_one]
    exact beyond_of_folds hi folds hk s'
  have hforms := forms_of_through hr hi.place hi.index ho hfinds hrest hchain
  have hsum := hforms.sum (.inl (by rw [hforms.predicate, hi.predicate]))
  rwa [hreg, hbeyond, hi.beyond, add_zero] at hsum

/-- The load of a borrowed register, if the slot is in reach. -/
theorem exists_assign_of_reload (hw : t.wide? = some w)
    (hlast : t.expandDirect w p block (t.lend p (.core m)).reload spAdj = e)
    (hok : e.failure = none) (hbefore : e.before = []) (heff : e.inst.Effect s s') :
    ∃ ws, s' = s.assign (.core m) ws := by
  rw [Target.lend, instrSet_of_wide hw] at hlast
  have hslot := w.isSlotAccess_loadFromSlot (.inl ⟨m, rfl⟩) p.frame.scavengingIndex
  obtain ⟨r, hr, ⟨-, -, hinst⟩ | ⟨hrest, -, hchain, -⟩⟩ := expandDirect_cases hlast hok
  · obtain ⟨o, ho⟩ := object_of_rebase hr hslot.place hslot.index
    obtain ⟨-, a, -, -, folds, -⟩ := rebase_folds hr hslot.place hslot.index ho
    rw [hinst] at heff
    exact ⟨_, WideSet.effect_loadFromSlot (.inl ⟨m, rfl⟩) (forms_of_folds hslot folds s) heff⟩
  · exact absurd (hchain.symm.trans hbefore) (chain_ne_nil hr hrest)

/-- The load of a borrowed register leaves a result in another register alone, unless it needs
`r12` to reach the slot. -/
theorem settles_of_reload (hw : t.wide? = some w)
    (hlast : t.expandDirect w p block (t.lend p (.core m)).reload spAdj = e)
    (hok : e.failure = none) (hne : m ≠ n)
    (hfinds : n = 12 → t.Finds p entry spAdj p.frame.scavengingIndex s)
    (hexec : ExecAll (e.before ++ [e.inst]) s s') :
    p.Settles entry (.core n) (s.read (.core n)) (e.before ++ [e.inst]) s' := by
  have hreload : (t.lend p (.core m)).reload =
      w.set.loadFromSlot (.core m) p.frame.scavengingIndex := by
    rw [Target.lend, instrSet_of_wide hw]
  have hslot := w.isSlotAccess_loadFromSlot (.inl ⟨m, rfl⟩) p.frame.scavengingIndex
  have hload : (w.set.loadFromSlot (.core m) p.frame.scavengingIndex).op.access? = some (.load 4) := by
    cases w <;> rfl
  obtain ⟨r, hr, hcases⟩ := expandDirect_cases hlast hok
  rw [hreload] at hr
  obtain ⟨o, ho⟩ := object_of_rebase hr hslot.place hslot.index
  obtain ⟨hplace, a, -, hbase, folds, hafter⟩ := rebase_folds hr hslot.place hslot.index ho
  have hother {x : State} {ws : List Word} :
      (x.assign (.core m) ws).read (.core n) = x.read (.core n) := by
    rw [State.read, State.value_assign_of_ne, State.read]
    intro hover
    exact hne (Reg.core.inj (Reg.overlaps_core_iff.1 hover))
  rcases hcases with ⟨-, hbefore, -⟩ | ⟨hrest, -, hbefore, hinst⟩
  · -- the slot is in reach, and the load is all there is
    rw [hbefore] at hexec ⊢
    obtain ⟨x, heff, rfl⟩ := hexec
    obtain ⟨ws, rfl⟩ := exists_assign_of_reload hw hlast hok hbefore heff
    exact Procedure.settles_of_read hother fun _ => Nat.le_refl 1
  · -- the slot is accessed through `r12`
    rw [hbefore, hinst] at hexec ⊢
    obtain ⟨hlo, hhi⟩ := rebase_range hr
    obtain ⟨x, hchain, y, heff, rfl⟩ := execAll_append.1 hexec
    have hal : r.inst.Enabled s := .inl (by rw [folds.predicate, hslot.predicate])
    have hx := (Rebased.execAll_chain hlo hhi hrest hchain).1 hal
    have hforms := forms_of_folds_through hslot folds hplace hafter Reg.r12 x
    have hread : s'.read (.core n) = x.read (.core n) := by
      rw [WideSet.effect_loadFromSlot (.inl ⟨m, rfl⟩) hforms heff, hother]
    by_cases hn : n = 12
    · obtain rfl := hn
      have hlen : 1 < (r.chain w Reg.r12 ++ [r.through Reg.r12]).length := by
        rw [List.length_append, List.length_singleton]
        exact Nat.succ_lt_succ (List.length_pos_iff.2 (chain_ne_nil hr hrest))
      refine Procedure.settles_of_base List.getLast?_concat ho hlen ?_
      rw [show s'.read Reg.r12 = x.read Reg.r12 from hread]
      exact read_base_of_through hslot hload hr ho (hfinds rfl) hrest hchain
    · refine Procedure.settles_of_read ?_ fun h12 => absurd (Reg.core.inj h12) hn
      rw [hread, hx, State.read_write_of_ne]
      intro hover
      exact hn (Reg.core.inj (Reg.overlaps_core_iff.1 hover)).symm

/-- What becomes of a sum that was computed with a borrowed register. -/
theorem yields_of_reload {r : Rebased} (hw : t.wide? = some w) (hlaid : t.IsLaidOut p)
    (hplace : r.place = 1) (hscratch : t.IsScratch r.inst (.core m))
    (hlast : t.expandDirect w p block (t.lend p (.core m)).reload spAdj = e)
    (hok : e.failure = none) (hlocated : t.Located p entry spAdj s) :
    p.Yields entry (r.through (.core m)) (e.before ++ [e.inst]) s := by
  intro n s' s'' hadds hzero henabled heff hexec
  have hthrough : r.through (.core m) = r.inst.setOperand 1 (.reg (.core m) false true) := by
    rw [Rebased.through, hplace]
  have hdst : r.inst.register 0 = .core n := by
    rw [← hzero, hthrough, Inst.register, Inst.register, Inst.getElem?_setOperand_one (by decide)]
  have hne : m ≠ n := by
    rintro rfl
    obtain ⟨d, k, hoperand⟩ := Inst.operand_of_register hdst
    exact hscratch.unnamed (Inst.refers_of_operand hoperand (by simp))
  refine settles_of_reload hw hlast hok hne ?_ hexec
  rintro rfl
  -- the sum went to `r12`, so that the slot is still found
  have hacts : (r.through (.core m)).Acts s s' := by
    rcases heff with ⟨-, hacts⟩ | ⟨hdisabled, -⟩
    · exact hacts
    · exact absurd henabled hdisabled
  have hagrees : s.AgreesOff [Reg.r12] s' := by
    rw [(Inst.acts_addend_iff hadds).1 hacts, hzero]
    exact State.agreesOff_assign s _ _
  refine (hlocated.of_free (fun x hx => ?_) hagrees).finds hlaid hlaid.scavenging
  obtain rfl := List.mem_singleton.1 hx
  exact ⟨by decide, t.r12_ne_framePointer⟩

/-! ## Index registers -/

/-- Scratch registers are not index registers. -/
theorem IsScratch.ne_index {r : Rebased} (h : t.IsScratch r.inst (.core n))
    (hr : t.rebase w p block i spAdj = .ok r) (hplace : i.frameIndexAt = some 1)
    (hindex : i.operands[1]? = some (.frameIndex index)) (hindexed : i.info.family.isIndexed) :
    i.register 2 ≠ .core n := by
  intro hreg
  obtain ⟨o, ho⟩ := object_of_rebase hr hplace hindex
  obtain ⟨-, a, -, -, folds, -⟩ := rebase_folds hr hplace hindex ho
  obtain ⟨d, k, hoperand⟩ := Inst.operand_of_register hreg
  exact h.unnamed (Inst.refers_of_operand ((folds.index hindexed).trans hoperand) (by simp))

/-- The load of a register from a slot takes as much of an offset as the store. -/
theorem rest_fold_slot (a : Address) : (t.fold w (w.set.loadFromSlot (.core n) index) 1 a).rest =
    (t.fold w (w.set.storeToSlot (.core n) index) 1 a).rest := by
  have hoperands (k : Nat) : (w.set.loadFromSlot (.core n) index).operands[1 + k]? =
      (w.set.storeToSlot (.core n) index).operands[1 + k]? := by
    rw [Nat.add_comm]
    cases w <;> rfl
  rw [fold, if_neg (by cases w <;> exact Opcode.noConfusion), fold,
    if_neg (by cases w <;> exact Opcode.noConfusion)]
  exact Inst.rest_foldMemory (by cases w <;> rfl) (by cases w <;> rfl) hoperands

/-- The store of a register to a slot and the load from it are as far from the slot. -/
theorem rest_rebase_slot {r r' : Rebased}
    (hr : t.rebase w p block (w.set.storeToSlot (.core n) index) spAdj = .ok r)
    (hr' : t.rebase w p block (w.set.loadFromSlot (.core n) index) spAdj = .ok r') :
    r'.rest = r.rest := by
  have hstore := w.isSlotAccess_storeToSlot (.inl ⟨n, rfl⟩) index
  have hload := w.isSlotAccess_loadFromSlot (.inl ⟨n, rfl⟩) index
  obtain ⟨j, o, a, hat, hj, ho, ha, -, hfold, -⟩ := rebase_cases hr
  obtain ⟨j', o', a', hat', hj', ho', ha', -, hfold', -⟩ := rebase_cases hr'
  obtain hone : r.place = 1 := Option.some.inj (hat.symm.trans hstore.place)
  obtain hone' : r'.place = 1 := Option.some.inj (hat'.symm.trans hload.place)
  rw [hone] at hj hfold
  rw [hone'] at hj' hfold'
  obtain rfl : index = j := Operand.frameIndex.inj (Option.some.inj (hstore.index.symm.trans hj))
  obtain rfl : index = j' := Operand.frameIndex.inj (Option.some.inj (hload.index.symm.trans hj'))
  obtain rfl : o = o' := Option.some.inj (ho.symm.trans ho')
  obtain rfl : a = a' := Except.ok.inj (ha.symm.trans ha')
  have hrest : (t.fold w (w.set.loadFromSlot (.core n) index) 1 a).rest =
      (t.fold w (w.set.storeToSlot (.core n) index) 1 a).rest := rest_fold_slot a
  rw [hfold, hfold'] at hrest
  exact Except.ok.inj hrest

/-- The store of a register that is to be borrowed changes `r12` at most, and that only if the load
of the register goes through `r12` as well. -/
theorem agreesOff_spill {spill reload : Expansion} (hw : t.wide? = some w)
    (hfirst : t.expandDirect w p block (t.lend p (.core m)).spill spAdj = spill)
    (hlast : t.expandDirect w p block (t.lend p (.core m)).reload spAdj = reload)
    (hspill : spill.failure = none) (hreload : reload.failure = none)
    (hexec : ExecAll (spill.before ++ [spill.inst]) s s') :
    s'.flags = s.flags ∧ (s'.cells = s.cells ∨
      s.AgreesOff [Reg.r12] s' ∧ 1 < (reload.before ++ [reload.inst]).length) := by
  rw [Target.lend, instrSet_of_wide hw] at hfirst hlast
  have hslot := w.isSlotAccess_storeToSlot (.inl ⟨m, rfl⟩) p.frame.scavengingIndex
  obtain ⟨r, hr, hcases⟩ := expandDirect_cases hfirst hspill
  obtain ⟨r', hr', hcases'⟩ := expandDirect_cases hlast hreload
  have hsame : r'.rest = r.rest := rest_rebase_slot hr hr'
  obtain ⟨o, ho⟩ := object_of_rebase hr hslot.place hslot.index
  obtain ⟨hplace, a, -, -, folds, hafter⟩ := rebase_folds hr hslot.place hslot.index ho
  rcases hcases with ⟨-, hbefore, hinst⟩ | ⟨hrest, -, hbefore, hinst⟩
  · rw [hbefore, hinst] at hexec
    obtain ⟨x, heff, rfl⟩ := hexec
    rw [WideSet.effect_storeToSlot (.inl ⟨m, rfl⟩) (forms_of_folds hslot folds s) heff]
    exact ⟨rfl, .inl rfl⟩
  · rw [hbefore, hinst] at hexec
    obtain ⟨x, hchain, y, heff, rfl⟩ := execAll_append.1 hexec
    obtain ⟨hlo, hhi⟩ := rebase_range hr
    obtain ⟨hagrees, -, hflags⟩ := Rebased.agreesOff_chain hlo hhi hrest hchain
    have hforms := forms_of_folds_through hslot folds hplace hafter Reg.r12 x
    rw [WideSet.effect_storeToSlot (.inl ⟨m, rfl⟩) hforms heff]
    refine ⟨hflags, .inr ⟨hagrees, ?_⟩⟩
    -- the load has the same way to go
    rcases hcases' with ⟨hnone, -⟩ | ⟨hrest', -, hbefore', -⟩
    · exact absurd (hsame.symm.trans hnone) hrest
    · rw [hbefore', List.length_append, List.length_singleton]
      exact Nat.succ_lt_succ (List.length_pos_iff.2 (chain_ne_nil hr' hrest'))

/-- What is put before an access leaves its index register alone, unless that is `r12` and the
slot of a borrowed register is out of reach. -/
theorem Expands.indexValue_eq (hw : t.wide? = some w) (h : Expands t w p block i spAdj e)
    (hplace : i.frameIndexAt = some 1) (hindex : i.operands[1]? = some (.frameIndex index))
    (hkeeps : i.register 2 = Reg.r12 → e.after.length ≤ 1) (hexec : ExecAll e.before s s') :
    i.indexValue s' = i.indexValue s := by
  cases h with
  | direct h =>
    cases h with
    | alone hr => rw [show s' = s from hexec]
    | through hr hrest hscratch =>
      obtain ⟨n, rfl⟩ := hscratch.core
      obtain ⟨hlo, hhi⟩ := rebase_range hr
      exact Inst.indexValue_of_agreesOff (Rebased.agreesOff_chain hlo hhi hrest hexec).1
        (hscratch.ne_index hr hplace hindex)
  | @borrowed r scratch spill reload hr hrest hscratch hspill hreload hfirst hlast =>
    obtain ⟨n, rfl⟩ := hscratch.core
    obtain ⟨hlo, hhi⟩ := rebase_range hr
    obtain ⟨x, hstore, hchain⟩ := execAll_append_cons.1 hexec
    rw [Inst.indexValue_of_agreesOff (Rebased.agreesOff_chain hlo hhi hrest hchain).1
      (hscratch.ne_index hr hplace hindex)]
    -- the store leaves the registers alone, or it goes through `r12` and so does the load
    rcases (agreesOff_spill hw hfirst hlast hspill.failure_eq hreload.failure_eq hstore).2 with
      hsame | ⟨hagrees, hlong⟩
    · have hnone : s.AgreesOff [.core n] x := fun c _ => congrFun hsame c
      exact Inst.indexValue_of_agreesOff hnone (hscratch.ne_index hr hplace hindex)
    · refine Inst.indexValue_of_agreesOff hagrees fun _ h12 => ?_
      exact absurd (hkeeps h12) (Nat.not_le.2 hlong)

end

end Target

end FrameLowering
