import FrameLowering.Proofs.Expansion

/-!
# Access to frame objects

An instruction with a frame index that was eliminated forms the address that it would form
on the object itself (`Inst.Forms`), once the instructions before it have been executed.
Stores to the slot of a register and loads from it therefore do what they say
(`effect_storeToSlot`, `effect_loadFromSlot`), wherever the slot is.
-/

namespace FrameLowering

open ImmediateField (word)

/-- The address of a frame object, from the state in which the function was entered. -/
def Procedure.home (p : Procedure) (entry : State) (o : FrameObject) : Word :=
  entry.sp - word p.frame.varArgsSaveSize + word o.offset

namespace Inst

/-- In a state, an instruction forms the address or sum that another forms on the base
address `a`. -/
structure Forms (i i' : Inst) (a : Word) (s : State) : Prop where
  dst : i'.operands[0]? = i.operands[0]?
  predicate : i'.predicate = i.predicate
  access : i'.op.access? = i.op.access?
  addend : (i'.op.addend? 0).isSome = (i.op.addend? 0).isSome
  sum : i'.Enabled s → s.read (i'.register 1) + i'.beyond s = a + i.beyond s

theorem beyond_of_access {i : Inst} {k : Access} (h : i.op.access? = some k) (s : State) :
    i.beyond s = i.indexValue s + word i.displacement := by
  have hnone (v : Word) : i.op.addend? v = none := by
    revert h
    cases i.op
    case addri | t2addri | subri | t2subri | movr | t2movr => intro h; cases h
    all_goals exact fun _ => rfl
  rw [beyond, hnone, Option.getD_none]

section
variable {i i' : Inst} {a : Word} {s s' : State}

theorem Forms.register_zero (h : i.Forms i' a s) : i'.register 0 = i.register 0 := by
  rw [register, register, h.dst]

theorem Forms.enabled_iff (h : i.Forms i' a s) : i'.Enabled s ↔ i.Enabled s := by
  rw [Enabled, Enabled, h.predicate]

/-- A load or store accesses what it would on the base address. -/
theorem Forms.address_eq {k : Access} (h : i.Forms i' a s) (hk : i.op.access? = some k)
    (he : i'.Enabled s) : i'.address s = a + i.beyond s := by
  rw [← h.sum he, beyond_of_access (h.access.trans hk), address, add_assoc]

theorem Forms.acts_access {k : Access} (h : i.Forms i' a s) (hk : i.op.access? = some k)
    (he : i'.Enabled s) (hacts : i'.Acts s s') :
    s' = k.result (a + i.beyond s) (i.register 0) s := by
  rw [Acts, h.access, hk] at hacts
  rw [hacts, h.register_zero, h.address_eq hk he]

/-- What an addition, subtraction or move does. -/
theorem acts_addend_iff (h : (i.op.addend? 0).isSome) :
    i.Acts s s' ↔ s' = s.write (i.register 0) (s.read (i.register 1) + i.beyond s) := by
  obtain ⟨op, os⟩ := i
  cases op
  case addri | t2addri => exact Iff.rfl
  case subri | t2subri =>
    have hsub (x : Word) : x + -word (immediate ⟨.subri, os⟩ 2) = x - word (immediate ⟨.subri, os⟩ 2) :=
      (BitVec.sub_eq_add_neg _ _).symm
    exact Iff.of_eq (congrArg (fun v => s' = s.write _ v) (hsub _).symm)
  case movr | t2movr => exact Iff.of_eq (congrArg (fun v => s' = s.write _ v) (add_zero _).symm)
  all_goals exact absurd h (by simp [Opcode.addend?])

theorem Forms.acts_addend (h : i.Forms i' a s) (hi : (i.op.addend? 0).isSome)
    (he : i'.Enabled s) (hacts : i'.Acts s s') :
    s' = s.write (i.register 0) (a + i.beyond s) := by
  rw [(acts_addend_iff (h.addend.trans hi)).1 hacts, h.register_zero, h.sum he]

theorem Forms.read_addend {n : Fin 16} (h : i.Forms i' a s) (hi : (i.op.addend? 0).isSome)
    (hn : i.register 0 = .core n) (he : i'.Enabled s) (heff : i'.Effect s s') :
    s'.read (.core n) = a + i.beyond s := by
  rcases heff with ⟨-, hacts⟩ | ⟨hoff, -⟩
  · rw [h.acts_addend hi he hacts, hn, State.read_write_core]
  · exact absurd he hoff

end

end Inst

namespace Rebased

/-- What the addition to a scratch register does, under the condition of the instruction
it is for. -/
theorem execAll_chain {r : Rebased} {w : WideSet} {n : Fin 16} {s s' : State}
    (hlo : -2 ^ 32 < r.rest.toInt) (hhi : r.rest.toInt < 2 ^ 32) (hrest : r.rest ≠ 0)
    (h : ExecAll (r.chain w (.core n)) s s') :
    (r.inst.Enabled s → s' = s.write (.core n) (s.read r.base + word r.rest)) ∧
      (¬ r.inst.Enabled s → s' = s) := by
  have hword : word r.rest ≠ 0 := ImmediateField.word_ne_zero hlo hhi hrest
  have hs' := WideSet.execAll_addConstant h
  constructor
  · intro he
    rw [hs', if_pos ⟨he, hword⟩]
  · intro he
    rw [hs', if_neg fun hc => he hc.1]

theorem agreesOff_chain {r : Rebased} {w : WideSet} {n : Fin 16} {s s' : State}
    (hlo : -2 ^ 32 < r.rest.toInt) (hhi : r.rest.toInt < 2 ^ 32) (hrest : r.rest ≠ 0)
    (h : ExecAll (r.chain w (.core n)) s s') :
    s.AgreesOff [.core n] s' ∧ s'.mem = s.mem ∧ s'.flags = s.flags := by
  obtain ⟨hon, hoff⟩ := execAll_chain hlo hhi hrest h
  by_cases he : r.inst.Enabled s
  · rw [hon he]
    exact ⟨State.agreesOff_assign s _ _, rfl, rfl⟩
  · rw [hoff he]
    exact ⟨fun _ _ => rfl, rfl, rfl⟩

end Rebased

namespace Target

/-- In a state, the frame object with an index is at its address. -/
def Finds (t : Target) (p : Procedure) (entry : State) (spAdj : Int64) (index : Int64) (s : State) :
    Prop :=
  ∀ o a, p.frame.object? index = some o → t.address p index o spAdj = .ok a →
    s.read a.base + word a.offset = p.home entry o

section
variable {t : Target} {w : WideSet} {p : Procedure} {block : Nat} {i : Inst} {spAdj : Int64}
  {entry s s' : State} {index : Int64} {o : FrameObject}

/-- A frame index that was eliminated named an object. -/
theorem object_of_rebase {r : Rebased} (hr : t.rebase w p block i spAdj = .ok r)
    (hplace : i.frameIndexAt = some 1) (hindex : i.operands[1]? = some (.frameIndex index)) :
    ∃ o, p.frame.object? index = some o := by
  obtain ⟨index', o, -, hat, hindex', ho, -⟩ := rebase_cases hr
  rw [Option.some.inj (hat.symm.trans hplace), hindex] at hindex'
  obtain rfl := Operand.frameIndex.inj (Option.some.inj hindex')
  exact ⟨o, ho⟩

/-- An instruction whose base operand was a frame index. -/
theorem rebase_folds {r : Rebased} (hr : t.rebase w p block i spAdj = .ok r)
    (hplace : i.frameIndexAt = some 1) (hindex : i.operands[1]? = some (.frameIndex index))
    (ho : p.frame.object? index = some o) :
    r.place = 1 ∧ ∃ a, t.address p index o spAdj = .ok a ∧ a.base = r.base ∧
      i.Folds r.inst a.base a.offset r.rest ∧ ∀ n, r.inst.info.predicate = some n → 1 < n := by
  obtain ⟨index', o', a, hat, hindex', ho', ha, hbase, hfold, -, -⟩ := rebase_cases hr
  obtain hone : r.place = 1 := Option.some.inj (hat.symm.trans hplace)
  rw [hone] at hindex' hfold
  obtain rfl : index = index' := Operand.frameIndex.inj (Option.some.inj (hindex.symm.trans hindex'))
  obtain rfl : o = o' := Option.some.inj (ho.symm.trans ho')
  exact ⟨hone, a, ha, hbase, folds_of_fold hindex hfold, fun _ => predicate_of_fold hfold⟩

theorem rebase_range {r : Rebased} (hr : t.rebase w p block i spAdj = .ok r) :
    -2 ^ 32 < r.rest.toInt ∧ r.rest.toInt < 2 ^ 32 := by
  obtain ⟨-, -, -, -, -, -, -, -, -, hlo, hhi⟩ := rebase_cases hr
  exact ⟨hlo, hhi⟩

/-- The instruction itself, if its whole offset was folded in. Its base is the register from which
the object is addressed. -/
theorem forms_from_base {r : Rebased} {a : Address} (hr : t.rebase w p block i spAdj = .ok r)
    (hplace : i.frameIndexAt = some 1) (hindex : i.operands[1]? = some (.frameIndex index))
    (ho : p.frame.object? index = some o) (ha : t.address p index o spAdj = .ok a)
    (hrest : r.rest = 0) (s : State) : i.Forms r.inst (s.read a.base + word a.offset) s := by
  obtain ⟨-, a', ha', -, folds, -⟩ := rebase_folds hr hplace hindex ho
  obtain rfl : a' = a := Except.ok.inj (ha'.symm.trans ha)
  refine ⟨folds.dst, folds.predicate, folds.access, folds.addend, fun _ => ?_⟩
  have hbase : r.inst.register 1 = a'.base := by
    rw [Inst.register, folds.base]
    rfl
  have hbeyond : r.inst.beyond s = i.beyond s + word a'.offset := by
    have := folds.beyond s
    rwa [hrest, ImmediateField.word_zero, add_zero] at this
  rw [hbase, hbeyond, add_comm (i.beyond s), add_assoc]

/-- The instruction through a scratch register that holds the rest of its offset. -/
theorem forms_through_base {r : Rebased} {a : Address} {n : Fin 16}
    (hr : t.rebase w p block i spAdj = .ok r)
    (hplace : i.frameIndexAt = some 1) (hindex : i.operands[1]? = some (.frameIndex index))
    (ho : p.frame.object? index = some o) (ha : t.address p index o spAdj = .ok a)
    (hrest : r.rest ≠ 0) (hchain : ExecAll (r.chain w (.core n)) s s') :
    i.Forms (r.through (.core n)) (s.read a.base + word a.offset) s' := by
  obtain ⟨hone, a', ha', hbase, folds, hafter⟩ := rebase_folds hr hplace hindex ho
  obtain rfl : a' = a := Except.ok.inj (ha'.symm.trans ha)
  obtain ⟨hlo, hhi⟩ := rebase_range hr
  obtain ⟨hlen, -⟩ := List.getElem?_eq_some_iff.1 folds.base
  have hthrough : r.through (.core n) = r.inst.setOperand 1 (.reg (.core n) false true) := by
    rw [Rebased.through, hone]
  have hpred : (r.through (.core n)).predicate = r.inst.predicate := by
    rw [hthrough]
    exact Inst.predicate_setOperand_one _ hafter
  refine ⟨?_, hpred.trans folds.predicate, folds.access, folds.addend, fun he => ?_⟩
  · rw [hthrough, Inst.getElem?_setOperand_one (by decide), folds.dst]
  · have hflags := (Rebased.agreesOff_chain hlo hhi hrest hchain).2.2
    have hen : r.inst.Enabled s := by rwa [Inst.Enabled, ← hpred, ← hflags]
    have hs' := (Rebased.execAll_chain hlo hhi hrest hchain).1 hen
    have hreg : (r.through (.core n)).register 1 = .core n := by
      rw [hthrough, Inst.register, Inst.setOperand, List.getElem?_set_self hlen]
      rfl
    have hread : s'.read (.core n) = s.read a'.base + word r.rest := by
      rw [hs', State.read_write_core, hbase]
    have hbeyond : word r.rest + r.inst.beyond s' = word a'.offset + i.beyond s' := by
      rw [add_comm, folds.beyond s', add_comm]
    rw [hreg, hread, hthrough, Inst.beyond_setOperand_one, add_assoc, hbeyond, ← add_assoc]

/-- Where the object is found at its address, the instruction forms that address. -/
theorem forms_of_rebase {r : Rebased} (hr : t.rebase w p block i spAdj = .ok r)
    (hplace : i.frameIndexAt = some 1) (hindex : i.operands[1]? = some (.frameIndex index))
    (ho : p.frame.object? index = some o) (hfinds : t.Finds p entry spAdj index s)
    (hrest : r.rest = 0) : i.Forms r.inst (p.home entry o) s := by
  obtain ⟨-, a, ha, -⟩ := rebase_folds hr hplace hindex ho
  rw [← hfinds o a ho ha]
  exact forms_from_base hr hplace hindex ho ha hrest s

theorem forms_of_through {r : Rebased} {n : Fin 16} (hr : t.rebase w p block i spAdj = .ok r)
    (hplace : i.frameIndexAt = some 1) (hindex : i.operands[1]? = some (.frameIndex index))
    (ho : p.frame.object? index = some o) (hfinds : t.Finds p entry spAdj index s)
    (hrest : r.rest ≠ 0) (hchain : ExecAll (r.chain w (.core n)) s s') :
    i.Forms (r.through (.core n)) (p.home entry o) s' := by
  obtain ⟨-, a, ha, -⟩ := rebase_folds hr hplace hindex ho
  rw [← hfinds o a ho ha]
  exact forms_through_base hr hplace hindex ho ha hrest hchain

/-! ## Registers that an expansion changes -/

/-- A register that any instruction may change: not a pointer, and saved if the caller
needs its value. -/
structure IsFree (t : Target) (p : Procedure) (r : Reg) : Prop where
  core : ∃ n, r = .core n
  ne_sp : r ≠ Reg.sp
  ne_pointer : r ≠ t.framePointer
  saved : t.isCalleeSaved r → p.layout.isSpilled r

/-- The instructions before an instruction change free registers only. -/
theorem Direct.execAll_before {e : Expansion} (h : Direct t w p block i spAdj e)
    (hexec : ExecAll e.before s s') :
    s'.mem = s.mem ∧ s'.flags = s.flags ∧
      ∃ r rs, t.rebase w p block i spAdj = .ok r ∧
        (∀ x ∈ rs, t.IsFree p x ∧ ¬ r.inst.refers x) ∧ s.AgreesOff rs s' := by
  cases h with
  | alone hr hrest =>
    obtain rfl : s' = s := hexec
    exact ⟨rfl, rfl, _, [], hr, fun _ h => (List.not_mem_nil h).elim, fun _ _ => rfl⟩
  | @through r scratch hr hrest hscratch hfree =>
    obtain ⟨n, rfl⟩ := hscratch.core
    obtain ⟨hlo, hhi⟩ := rebase_range hr
    obtain ⟨hagrees, hmem, hflags⟩ := Rebased.agreesOff_chain hlo hhi hrest hexec
    refine ⟨hmem, hflags, r, [.core n], hr, fun x hx => ?_, hagrees⟩
    obtain rfl := List.mem_singleton.1 hx
    exact ⟨⟨⟨n, rfl⟩, hscratch.ne_sp, hscratch.ne_pointer, hfree⟩, hscratch.unnamed⟩

theorem Direct.forms {e : Expansion} (h : Direct t w p block i spAdj e)
    (hplace : i.frameIndexAt = some 1) (hindex : i.operands[1]? = some (.frameIndex index))
    (ho : p.frame.object? index = some o) (hfinds : t.Finds p entry spAdj index s)
    (hexec : ExecAll e.before s s') : i.Forms e.inst (p.home entry o) s' := by
  cases h with
  | alone hr hrest =>
    obtain rfl : s' = s := hexec
    exact forms_of_rebase hr hplace hindex ho hfinds hrest
  | through hr hrest hscratch hfree =>
    obtain ⟨n, rfl⟩ := hscratch.core
    exact forms_of_through hr hplace hindex ho hfinds hrest hexec

theorem rebase_flags {r : Rebased} (hr : t.rebase w p block i spAdj = .ok r) :
    r.inst.isReturn = false := by
  obtain ⟨_, _, a, -, -, -, -, -, hfold, -, -⟩ := rebase_cases hr
  rw [Inst.isReturn, (fold_operands hfold).1]
  exact (flags_of_fold hfold).1

/-- Neither an instruction nor those that were put before it return. -/
theorem Direct.stays {e : Expansion} (h : Direct t w p block i spAdj e) :
    e.inst.isReturn = false ∧ (∀ j ∈ e.before, j.isReturn = false) ∧ e.after = [] := by
  cases h with
  | alone hr => exact ⟨rebase_flags hr, fun j hj => absurd hj List.not_mem_nil, rfl⟩
  | through hr =>
    exact ⟨rebase_flags hr, fun j hj => (WideSet.plain_of_mem_addConstant hj).1, rfl⟩

theorem address_base {a : Address} (h : t.address p index o spAdj = .ok a) :
    a.base = Reg.sp ∨ a.base = t.framePointer ∧ t.hasPointer p := by
  rw [address] at h
  split at h
  · split at h
    · exact .inl (congrArg Address.base (Except.ok.inj h)).symm
    · cases h
  · split at h
    · next hp => exact .inr ⟨(congrArg Address.base (Except.ok.inj h)).symm, hp⟩
    · exact .inl (congrArg Address.base (Except.ok.inj h)).symm

/-- Registers in the reach of an instruction after its frame index was eliminated. -/
theorem reach_of_rebase {r : Rebased} {x : Reg} (hr : t.rebase w p block i spAdj = .ok r)
    (hx : x ∈ r.inst.reach) :
    x ∈ i.reach ∨ x = Reg.sp ∨ (x = t.framePointer ∧ t.hasPointer p) ∨ x = .noreg := by
  obtain ⟨_, _, a, -, -, -, ha, -, hfold, -, -⟩ := rebase_cases hr
  obtain ⟨hflags, hoperands⟩ := fold_operands hfold
  rw [Inst.reach, hflags] at hx
  rcases List.mem_append.1 hx with hx | hx
  · obtain ⟨q, hq, rfl⟩ := List.mem_map.1 hx
    rcases hoperands q hq with hq | rfl | ⟨v, rfl⟩
    · exact .inl (List.mem_append_left _ (List.mem_map_of_mem hq))
    · rcases address_base ha with hbase | hbase
      · exact .inr (.inl hbase)
      · exact .inr (.inr (.inl hbase))
    · exact .inr (.inr (.inr rfl))
  · exact .inl (List.mem_append_right _ hx)

theorem reach_of_through {r : Rebased} {scratch x : Reg} (hx : x ∈ (r.through scratch).reach) :
    x ∈ r.inst.reach ∨ x = scratch := by
  rcases List.mem_append.1 hx with hx | hx
  · obtain ⟨q, hq, rfl⟩ := List.mem_map.1 hx
    rcases List.mem_or_eq_of_mem_set hq with hq | rfl
    · exact .inl (List.mem_append_left _ (List.mem_map_of_mem hq))
    · exact .inr rfl
  · exact .inl (List.mem_append_right _ hx)

end

end Target

/-- An instruction refers to the registers in its operands. -/
theorem Inst.refers_of_operand {i : Inst} {r : Reg} {d k : Bool} {n : Nat}
    (h : i.operands[n]? = some (.reg r d k)) (hr : r ≠ .noreg) : i.refers r := by
  have hself : r.overlaps r := by simp [Reg.overlaps]
  have hmem := List.mem_of_getElem? h
  cases d with
  | false =>
    have hreads : i.reads r := by
      refine Bool.or_eq_true_iff.2 (.inl (List.any_eq_true.2 ⟨_, hmem, ?_⟩))
      simp [Operand.isReg, Operand.isDef, Operand.register, hr, hself]
    rw [refers, hreads, Bool.true_or]
  | true =>
    have hwrites : i.writes r := by
      refine Bool.or_eq_true_iff.2 (.inl (List.any_eq_true.2 ⟨_, hmem, ?_⟩))
      simp [Operand.isReg, Operand.isDef, Operand.register, hr, hself]
    rw [refers, hwrites, Bool.or_true]

theorem Inst.operand_of_register {i : Inst} {m : Fin 16} {n : Nat} (h : i.register n = .core m) :
    ∃ d k, i.operands[n]? = some (.reg (.core m) d k) := by
  rw [register] at h
  cases hoperand : i.operands[n]? with
  | none => simp [hoperand] at h
  | some o =>
    rw [hoperand] at h
    cases o with
    | reg r d k =>
      obtain rfl : r = .core m := h
      exact ⟨d, k, rfl⟩
    | _ => cases h

/-! ## Slots of registers -/

/-- Registers that can be saved in a slot. -/
def Reg.HasSlot (r : Reg) : Prop :=
  (∃ n, r = .core n) ∨ ∃ n, r = .double n

/-- A load or store of a register, always executed, at the frame object with an index. -/
structure Inst.IsSlotAccess (i : Inst) (r : Reg) (index : Int64) : Prop where
  place : i.frameIndexAt = some 1
  index : i.operands[1]? = some (.frameIndex index)
  register : ∃ d k, i.operands[0]? = some (.reg r d k)
  predicate : i.predicate.1 = Cond.al
  beyond : ∀ s, i.beyond s = 0
  flags : i.isReturn = false ∧ i.op.isMarker = false

/-- An immediate of zero adds nothing. -/
theorem Family.word_decode_zero (m : Family) : (0 : Word) + word (m.field.decode 0) = 0 := by
  cases m <;> decide

theorem Inst.IsSlotAccess.register_zero {i : Inst} {r : Reg} {index : Int64}
    (h : i.IsSlotAccess r index) : i.register 0 = r := by
  obtain ⟨d, k, hzero⟩ := h.register
  rw [Inst.register, hzero]
  rfl

namespace WideSet

theorem isSlotAccess_storeToSlot (w : WideSet) {r : Reg} (hr : r.HasSlot) (index : Int64) :
    (w.set.storeToSlot r index).IsSlotAccess r index := by
  rcases hr with ⟨n, rfl⟩ | ⟨n, rfl⟩
  · cases w with
    | arm => exact ⟨rfl, rfl, ⟨_, _, rfl⟩, rfl, fun _ => Family.word_decode_zero .mode2, rfl, rfl⟩
    | thumb2 => exact ⟨rfl, rfl, ⟨_, _, rfl⟩, rfl, fun _ => Family.word_decode_zero .t2i12, rfl, rfl⟩
  · cases w <;> exact ⟨rfl, rfl, ⟨_, _, rfl⟩, rfl, fun _ => Family.word_decode_zero .mode5, rfl, rfl⟩

theorem isSlotAccess_loadFromSlot (w : WideSet) {r : Reg} (hr : r.HasSlot) (index : Int64) :
    (w.set.loadFromSlot r index).IsSlotAccess r index := by
  rcases hr with ⟨n, rfl⟩ | ⟨n, rfl⟩
  · cases w with
    | arm => exact ⟨rfl, rfl, ⟨_, _, rfl⟩, rfl, fun _ => Family.word_decode_zero .mode2, rfl, rfl⟩
    | thumb2 => exact ⟨rfl, rfl, ⟨_, _, rfl⟩, rfl, fun _ => Family.word_decode_zero .t2i12, rfl, rfl⟩
  · cases w <;> exact ⟨rfl, rfl, ⟨_, _, rfl⟩, rfl, fun _ => Family.word_decode_zero .mode5, rfl, rfl⟩

section
variable {w : WideSet} {r : Reg} {index : Int64} {i' : Inst} {a : Word} {s s' : State}

theorem effect_storeToSlot (hr : r.HasSlot) (hforms : (w.set.storeToSlot r index).Forms i' a s)
    (h : i'.Effect s s') : s' = { s with mem := s.mem.storeWords a (s.value r) } := by
  have hslot := isSlotAccess_storeToSlot w hr index
  have hal : i'.predicate.1 = Cond.al := by rw [hforms.predicate, hslot.predicate]
  have hacts := (Inst.effect_iff_acts hal).1 h
  have hresult (k : Access) (hk : (w.set.storeToSlot r index).op.access? = some k) :
      s' = k.result a r s := by
    rw [hforms.acts_access hk (.inl hal) hacts, hslot.beyond, hslot.register_zero, add_zero]
  rcases hr with ⟨n, rfl⟩ | ⟨n, rfl⟩
  · cases w <;> exact hresult (.store 4) rfl
  · cases w <;> exact hresult .storeWords rfl

theorem effect_loadFromSlot (hr : r.HasSlot) (hforms : (w.set.loadFromSlot r index).Forms i' a s)
    (h : i'.Effect s s') : s' = s.assign r (s.mem.loadWords a r.cells.length) := by
  have hslot := isSlotAccess_loadFromSlot w hr index
  have hal : i'.predicate.1 = Cond.al := by rw [hforms.predicate, hslot.predicate]
  have hacts := (Inst.effect_iff_acts hal).1 h
  have hresult (k : Access) (hk : (w.set.loadFromSlot r index).op.access? = some k) :
      s' = k.result a r s := by
    rw [hforms.acts_access hk (.inl hal) hacts, hslot.beyond, hslot.register_zero, add_zero]
  rcases hr with ⟨n, rfl⟩ | ⟨n, rfl⟩
  · cases w <;> exact hresult (.load 4) rfl
  · cases w <;> exact hresult (.loadWords 2) rfl

end

end WideSet

namespace Target

section
variable {t : Target} {w : WideSet} {p : Procedure} {block : Nat} {i : Inst} {spAdj : Int64}
  {entry s s' : State} {index : Int64} {e : Expansion} {n : Fin 16}

theorem Direct.object {r : Reg} (h : Direct t w p block i spAdj e) (hi : i.IsSlotAccess r index) :
    ∃ o, p.frame.object? index = some o := by
  cases h with
  | alone hr => exact object_of_rebase hr hi.place hi.index
  | through hr => exact object_of_rebase hr hi.place hi.index

/-- The instructions before an access to the slot of a core register leave the register
alone. -/
theorem Direct.before_slotAccess (h : Direct t w p block i spAdj e)
    (hi : i.IsSlotAccess (.core n) index) (hexec : ExecAll e.before s s') :
    s'.mem = s.mem ∧
      ∃ rs, (∀ x ∈ rs, t.IsFree p x ∧ x ≠ .core n) ∧ s.AgreesOff rs s' := by
  obtain ⟨hmem, -, r, rs, hr, hfree, hagrees⟩ := h.execAll_before hexec
  refine ⟨hmem, rs, fun x hx => ⟨(hfree x hx).1, ?_⟩, hagrees⟩
  rintro rfl
  obtain ⟨o, ho⟩ := h.object hi
  obtain ⟨d, k, hzero⟩ := hi.register
  obtain ⟨-, a, -, -, folds, -⟩ := rebase_folds hr hi.place hi.index ho
  exact (hfree _ hx).2 (Inst.refers_of_operand (folds.dst.trans hzero) (by simp))

/-- A core register stored to a slot. -/
theorem Direct.execAll_store
    (h : Direct t w p block (w.set.storeToSlot (.core n) index) spAdj e)
    (hfinds : t.Finds p entry spAdj index s) (hexec : ExecAll (e.before ++ [e.inst]) s s') :
    ∃ o rs, p.frame.object? index = some o ∧ (∀ x ∈ rs, t.IsFree p x ∧ x ≠ .core n) ∧
      s.AgreesOff rs s' ∧ s'.mem = s.mem.storeWords (p.home entry o) (s.value (.core n)) := by
  have hslot := w.isSlotAccess_storeToSlot (.inl ⟨n, rfl⟩) index
  obtain ⟨o, ho⟩ := h.object hslot
  obtain ⟨m, hbefore, m', hinst, rfl⟩ := execAll_append.1 hexec
  obtain ⟨hmem, rs, hfree, hagrees⟩ := h.before_slotAccess hslot hbefore
  have hforms := h.forms hslot.place hslot.index ho hfinds hbefore
  have hvalue : m.value (.core n) = s.value (.core n) := by
    refine hagrees.value_eq fun x hx hover => (hfree x hx).2 ?_
    exact Reg.overlaps_core_iff.1 hover
  refine ⟨o, rs, ho, hfree, ?_, ?_⟩
  · rw [WideSet.effect_storeToSlot (.inl ⟨n, rfl⟩) hforms hinst]
    exact hagrees
  · rw [WideSet.effect_storeToSlot (.inl ⟨n, rfl⟩) hforms hinst, hmem, hvalue]

/-- A core register loaded from a slot. -/
theorem Direct.execAll_load
    (h : Direct t w p block (w.set.loadFromSlot (.core n) index) spAdj e)
    (hfinds : t.Finds p entry spAdj index s) (hexec : ExecAll (e.before ++ [e.inst]) s s') :
    ∃ o rs, p.frame.object? index = some o ∧ (∀ x ∈ rs, t.IsFree p x ∧ x ≠ .core n) ∧
      s.AgreesOff (.core n :: rs) s' ∧ s'.mem = s.mem ∧
      s'.value (.core n) = s.mem.loadWords (p.home entry o) 1 := by
  have hslot := w.isSlotAccess_loadFromSlot (.inl ⟨n, rfl⟩) index
  obtain ⟨o, ho⟩ := h.object hslot
  obtain ⟨m, hbefore, m', hinst, rfl⟩ := execAll_append.1 hexec
  obtain ⟨hmem, rs, hfree, hagrees⟩ := h.before_slotAccess hslot hbefore
  have hforms := h.forms hslot.place hslot.index ho hfinds hbefore
  have hs' := WideSet.effect_loadFromSlot (.inl ⟨n, rfl⟩) hforms hinst
  refine ⟨o, rs, ho, hfree, fun c hc => ?_, ?_, ?_⟩
  · have hout : c ∉ (Reg.core n).cells := hc _ List.mem_cons_self
    rw [hs', State.cells_assign_of_notMem hout]
    exact hagrees c fun x hx => hc x (List.mem_cons_of_mem _ hx)
  · rw [hs', State.assign_mem, hmem]
  · rw [hs', State.value_assign rfl, hmem]
    rfl

end

end Target

end FrameLowering
