import FrameLowering.Proofs.BodyPoints
import FrameLowering.Proofs.Overwriting

/-!
# Idle registers

A register that no instruction of a function names has no value that the function needs. Frame
lowering makes it live in three ways only: the prologue stores it, an expansion may form an
address in it, and the epilogue loads it again. A search for readers therefore comes back without
one from every block that leads on to a return, past no other prologue
(`Target.liveAfter_of_idle`).
-/

namespace FrameLowering

open Relation

namespace Liveness

/-- Instructions that are sure to replace the value of a register, and do not read it. -/
def Replaces (r : Reg) (is : List Inst) : Prop :=
  (∀ i ∈ is, ¬ i.reads r) ∧ ∃ i ∈ is, i.predicate.1 = Cond.al ∧ i.writes r

/-- A block that does not need the value of a register: no instruction reads it first, and control
goes on if none replaces it. -/
def IsIdle (r : Reg) (b : Block) : Prop :=
  ¬ ReadFirst r b.insts ∧ (Untouched r b.insts → b.successors ≠ [])

section
variable {r : Reg} {is js : List Inst} {i : Inst}

theorem Replaces.not_untouched (h : Replaces r is) : ¬ Untouched r (is ++ js) := by
  obtain ⟨-, i, hi, hwrite⟩ := h
  intro hu
  exact (hu i (List.mem_append_left _ hi)).2 hwrite

theorem Replaces.not_readFirst (h : Replaces r is) : ¬ ReadFirst r (is ++ js) := by
  intro hread
  rcases hread.of_append with ⟨before, i, after, rfl, hi, -⟩ | ⟨hu, -⟩
  · exact h.1 i (List.mem_append_right _ List.mem_cons_self) hi
  · rw [← List.append_nil is] at hu
    exact h.not_untouched hu

theorem Untouched.not_readFirst (h : Untouched r is) : ¬ ReadFirst r is := by
  rintro ⟨before, i, after, rfl, hi, -⟩
  exact (h i (List.mem_append_right _ List.mem_cons_self)).1 hi

/-- A search finds no reader among idle blocks that lead to idle blocks only. -/
theorem liveFrom_eq_false {blocks : List Block} {origin : Nat} {visits : Nat → Prop}
    (hidle : ∀ b k, visits b → b ≠ origin → blocks[b]? = some k → IsIdle r k)
    (hnext : ∀ b k c, visits b → blocks[b]? = some k → c ∈ k.successors → visits c)
    {seen work : List Nat} (hseen : origin ∈ seen) (hwork : ∀ b ∈ work, visits b) :
    liveFrom blocks r seen work = false := by
  induction seen, work using liveFrom.induct blocks r with
  | case1 seen => rw [liveFrom]
  | case2 seen b work hs ih =>
    rw [liveFrom, dif_pos hs]
    exact ih hseen fun c hc => hwork c (List.mem_cons_of_mem _ hc)
  | case3 seen b work hs hb hscan =>
    have hne : b ≠ origin := fun h => hs (h ▸ hseen)
    have hidle := hidle b _ (hwork b List.mem_cons_self) hne (List.getElem?_eq_getElem hb)
    exact absurd (scan_eq_true_iff.1 hscan) hidle.1
  | case4 seen b work hs hb hscan ih =>
    rw [liveFrom, dif_neg hs, dif_pos hb, hscan]
    exact ih (List.mem_cons_of_mem _ hseen) fun c hc => hwork c (List.mem_cons_of_mem _ hc)
  | case5 seen b work hs hb hscan hend =>
    have hne : b ≠ origin := fun h => hs (h ▸ hseen)
    have hidle := hidle b _ (hwork b List.mem_cons_self) hne (List.getElem?_eq_getElem hb)
    simp only [Bool.and_eq_true, decide_eq_true_eq] at hend
    exact absurd hend.1 (hidle.2 (scan_eq_none_iff.1 hscan))
  | case6 seen b work hs hb hscan hend ih =>
    rw [liveFrom, dif_neg hs, dif_pos hb, hscan]
    simp only [hend]
    refine ih (List.mem_cons_of_mem _ hseen) ?_
    intro c hc
    rcases List.mem_append.1 hc with hc | hc
    · exact hnext b _ c (hwork b List.mem_cons_self) (List.getElem?_eq_getElem hb) hc
    · exact hwork c (List.mem_cons_of_mem _ hc)
  | case7 seen b work hs hb ih =>
    rw [liveFrom, dif_neg hs, dif_neg hb]
    exact ih hseen fun c hc => hwork c (List.mem_cons_of_mem _ hc)

/-- The value of a register is not read after an instruction whose block leads to idle blocks. -/
theorem liveAfter_eq_false {p : Procedure} {k : Nat} {b : Block} {here : Inst} {rest : List Inst}
    {visits : Nat → Prop} (hb : p.blocks[k]? = some b) (hread : ¬ ReadFirst r rest)
    (hgoes : Untouched r rest → b.successors ≠ [])
    (hidle : ∀ c m, visits c → c ≠ k → p.blocks[c]? = some m → IsIdle r m)
    (hnext : ∀ c m d, visits c → p.blocks[c]? = some m → d ∈ m.successors → visits d)
    (hfirst : ∀ c ∈ b.successors, visits c) : liveAfter p k here rest r = false := by
  rw [liveAfter]
  cases hscan : scan r rest with
  | some live =>
    cases live with
    | true => exact absurd (scan_eq_true_iff.1 hscan) hread
    | false => rfl
  | none =>
    have hsuccessors := hgoes (scan_eq_none_iff.1 hscan)
    simp only [hb, Option.map_some, Option.getD_some]
    split
    · rfl
    · exact liveFrom_eq_false hidle hnext List.mem_cons_self hfirst

end

end Liveness

/-! ## Instructions that do not name a register -/

namespace Inst

section
variable {i : Inst} {n : Fin 16} {r : Reg}

theorem mem_reach_of_operand {o : Operand} (ho : o ∈ i.operands) : o.register ∈ i.reach :=
  List.mem_append_left _ (List.mem_map_of_mem ho)

theorem mem_reach_of_reads (h : i.reads (.core n)) (hreturn : i.isReturn = false) :
    .core n ∈ i.reach := by
  rw [reads, hreturn, Bool.false_and, Bool.or_false] at h
  obtain ⟨o, ho, hreg⟩ := List.any_eq_true.1 h
  simp only [Bool.and_eq_true] at hreg
  rw [← Reg.overlaps_core_iff.1 hreg.2]
  exact mem_reach_of_operand ho

theorem mem_reach_of_writes (h : i.writes (.core n)) : .core n ∈ i.reach := by
  rcases Bool.or_eq_true_iff.1 h with h | h
  · obtain ⟨o, ho, hreg⟩ := List.any_eq_true.1 h
    simp only [Bool.and_eq_true] at hreg
    rw [← Reg.overlaps_core_iff.1 hreg.2]
    exact mem_reach_of_operand ho
  · obtain ⟨hcall, hclobber⟩ := Bool.and_eq_true_iff.1 h
    obtain ⟨x, hx, hover⟩ := List.any_eq_true.1 hclobber
    rw [Reg.overlaps_core_iff.1 hover] at hx
    refine List.mem_append_right _ ?_
    rw [if_pos hcall]
    exact hx

theorem mem_reach_of_refers (h : i.refers (.core n)) (hreturn : i.isReturn = false) :
    .core n ∈ i.reach := by
  rcases Bool.or_eq_true_iff.1 h with hread | hwrite
  · exact mem_reach_of_reads hread hreturn
  · exact mem_reach_of_writes hwrite

theorem untouched_of_unnamed {is : List Inst}
    (h : ∀ i ∈ is, .core n ∉ i.reach ∧ i.isReturn = false) : Liveness.Untouched (.core n) is := by
  intro i hi
  obtain ⟨hreach, hreturn⟩ := h i hi
  constructor
  · intro hread
    exact hreach (mem_reach_of_reads hread hreturn)
  · intro hwrite
    exact hreach (mem_reach_of_writes hwrite.2)

/-- The register that predicates an instruction is one of its operands. -/
theorem predicate_ne_of_unnamed (h : .core n ∉ i.reach) : i.predicate.2 ≠ .core n := by
  rw [predicate]
  split
  · exact Reg.noConfusion
  · split
    · next c o _ ho =>
      intro hx
      exact h (hx ▸ mem_reach_of_operand (List.mem_of_getElem? ho))
    · exact Reg.noConfusion

end

end Inst

namespace WideSet

section
variable {w : WideSet} {dst base pred : Reg} {v : Int64} {c : Cond} {i : Inst}

theorem reach_of_mem_addConstant {x : Reg} (h : i ∈ w.addConstant dst base v c pred)
    (hx : x ∈ i.reach) : x = dst ∨ x = base ∨ x = pred ∨ x = .noreg := by
  rw [addConstant] at h
  generalize RotatedImmediate.chunks _ = ws at h
  induction ws generalizing base with
  | nil => exact absurd h List.not_mem_nil
  | cons y ws ih =>
    rcases List.mem_cons.1 h with rfl | h
    · have hmem : x ∈ [dst, base, .noreg, .noreg, pred] := by
        by_cases hv : v < 0
        · rw [if_pos hv] at hx
          cases w <;> exact hx
        · rw [if_neg hv] at hx
          cases w <;> exact hx
      simp only [List.mem_cons, List.not_mem_nil, or_false] at hmem
      tauto
    · rcases ih h with hx | hx | hx
      · exact .inl hx
      · exact .inl hx
      · exact .inr (.inr hx)

/-- The first of the instructions that always add a constant to another register replaces what
was in the register before. -/
theorem replaces_addConstant {n : Fin 16} {is : List Inst}
    (h : w.addConstant (.core n) base v Cond.al pred = i :: is) (hbase : base ≠ .core n)
    (hpred : pred ≠ .core n) : Liveness.Replaces (.core n) [i] := by
  rw [addConstant] at h
  cases hws : RotatedImmediate.chunks (ImmediateField.word (ImmediateField.magnitude v)) with
  | nil => simp [hws, chain] at h
  | cons y ws =>
    rw [hws] at h
    obtain ⟨rfl, -⟩ := List.cons.inj h
    have hop : ∃ op : Opcode, (if v < 0 then w.sub else w.add) = op ∧ op.info.defs = 1 ∧
        op.info.flags = {} ∧ op.info.predicate = some 3 := by
      refine ⟨_, rfl, ?_⟩
      split
      · cases w <;> exact ⟨rfl, rfl, rfl⟩
      · cases w <;> exact ⟨rfl, rfl, rfl⟩
    obtain ⟨op, hop, hdefs, hflags, hpredicate⟩ := hop
    have hmake : Inst.make (if v < 0 then w.sub else w.add)
        ([.use (.core n), .use base, .imm (Int64.ofNat y.toNat)] ++ Operand.predicate Cond.al pred) =
        ⟨op, [.reg (.core n) true false, .use base, .imm (Int64.ofNat y.toNat), .cond Cond.al,
          .use pred]⟩ := by
      rw [hop, Inst.make, hdefs]
      rfl
    rw [hmake]
    have hother {r : Reg} (hr : r ≠ .core n) : r.overlaps (.core n) = false := by
      rw [Bool.eq_false_iff]
      intro hover
      exact hr (Reg.overlaps_core_iff.1 hover)
    refine ⟨?_, _, List.mem_cons_self, ?_, ?_⟩
    · intro j hj
      obtain rfl := List.mem_singleton.1 hj
      simp [Inst.reads, Inst.isReturn, Inst.info, hflags, Operand.use, Operand.isReg, Operand.isDef,
        Operand.register, hother hbase, hother hpred]
    · rw [Inst.predicate, Inst.info, hpredicate]
      rfl
    · simp [Inst.writes, Operand.isReg, Operand.isDef, Operand.register, Reg.overlaps]

end

end WideSet

namespace Target

open Liveness

section
variable {t : Target} {w : WideSet} {p : Procedure} {block : Nat} {i : Inst} {spAdj spAdj' : Int64}
  {n : Fin 16} {r : Rebased} {e : Expansion} {ls : List Line} {ps : List Piece}

theorem unnamed_of_rebase (hr : t.rebase w p block i spAdj = .ok r) (hi : .core n ∉ i.reach)
    (hsp : .core n ≠ Reg.sp) (hpointer : .core n ≠ t.framePointer) :
    .core n ∉ r.inst.reach ∧ r.base ≠ .core n := by
  constructor
  · intro hx
    rcases reach_of_rebase hr hx with hx | hx | ⟨hx, -⟩ | hx
    · exact hi hx
    · exact hsp hx
    · exact hpointer hx
    · cases hx
  · obtain ⟨_, _, a, -, -, -, ha, hbase, -⟩ := rebase_cases hr
    rw [← hbase]
    rcases address_base ha with hx | ⟨hx, -⟩
    · rw [hx]
      exact hsp.symm
    · rw [hx]
      exact hpointer.symm

/-- The instructions that form an address in another register do not name this one. -/
theorem unnamed_of_mem_chain {scratch : Reg} {j : Inst} (hr : t.rebase w p block i spAdj = .ok r)
    (hi : .core n ∉ i.reach) (hsp : .core n ≠ Reg.sp) (hpointer : .core n ≠ t.framePointer)
    (hscratch : scratch ≠ .core n) (hj : j ∈ r.chain w scratch) :
    .core n ∉ j.reach ∧ j.isReturn = false := by
  obtain ⟨hinst, hbase⟩ := unnamed_of_rebase hr hi hsp hpointer
  refine ⟨?_, (WideSet.plain_of_mem_addConstant hj).1⟩
  intro hx
  rcases WideSet.reach_of_mem_addConstant hj hx with hx | hx | hx | hx
  · exact hscratch hx.symm
  · exact hbase hx.symm
  · exact Inst.predicate_ne_of_unnamed hinst hx.symm
  · cases hx

/-- An expansion may form an address in a register that its instruction does not name, but it does
not need what was there before. -/
theorem Direct.not_readFirst (h : Direct t w p block i spAdj e) (hi : .core n ∉ i.reach)
    (hsp : .core n ≠ Reg.sp) (hpointer : .core n ≠ t.framePointer)
    (hplace : i.frameIndexAt = some 1) (hal : i.predicate.1 = Cond.al) :
    ¬ ReadFirst (.core n) (e.before ++ [e.inst]) := by
  cases h with
  | @alone r hr =>
    obtain ⟨hinst, -⟩ := unnamed_of_rebase hr hi hsp hpointer
    refine (Inst.untouched_of_unnamed ?_).not_readFirst
    intro j hj
    obtain rfl := List.mem_singleton.1 hj
    exact ⟨hinst, rebase_flags hr⟩
  | @through r scratch hr hrest =>
    obtain ⟨hinst, hbase⟩ := unnamed_of_rebase hr hi hsp hpointer
    by_cases hscratch : scratch = .core n
    · -- the register takes the address: the first instruction of the chain overwrites it
      subst hscratch
      have hne : r.chain w (.core n) ≠ [] := chain_ne_nil hr hrest
      obtain ⟨j, js, hchain⟩ := List.exists_cons_of_ne_nil hne
      obtain ⟨index, hindex⟩ := Inst.frameIndexAt_facts hplace
      obtain ⟨o, ho⟩ := object_of_rebase hr hplace hindex
      obtain ⟨-, a, -, -, hfolds, -⟩ := rebase_folds hr hplace hindex ho
      have hsum : w.addConstant (.core n) r.base r.rest Cond.al r.inst.predicate.2 = j :: js := by
        rw [← hal, ← hfolds.predicate]
        exact hchain
      have hreplaces := WideSet.replaces_addConstant hsum hbase (Inst.predicate_ne_of_unnamed hinst)
      show ¬ ReadFirst (.core n) (r.chain w (.core n) ++ _)
      rw [hchain]
      exact hreplaces.not_readFirst
    · -- another register takes it
      refine (Inst.untouched_of_unnamed ?_).not_readFirst
      intro j hj
      rcases List.mem_append.1 hj with hj | hj
      · exact unnamed_of_mem_chain hr hi hsp hpointer hscratch hj
      · obtain rfl := List.mem_singleton.1 hj
        refine ⟨?_, rebase_flags hr⟩
        intro hx
        rcases reach_of_through hx with hx | hx
        · exact hinst hx
        · exact hscratch hx.symm

/-- Without a slot for scavenging no register is borrowed. -/
theorem Expands.direct_of_unslotted (h : Expands t w p block i spAdj e) (hw : t.wide? = some w)
    (hslot : p.frame.object? p.frame.scavengingIndex = none) : Direct t w p block i spAdj e := by
  cases h with
  | direct h => exact h
  | @borrowed r scratch _ _ _ _ hscratch hspill =>
    obtain ⟨m, rfl⟩ := hscratch.core
    have haccess : (t.lend p (.core m)).spill.IsSlotAccess (.core m) p.frame.scavengingIndex := by
      rw [lend, instrSet_of_wide hw]
      exact w.isSlotAccess_storeToSlot (.inl ⟨m, rfl⟩) _
    obtain ⟨o, ho⟩ := hspill.object haccess
    rw [hslot] at ho
    cases ho

/-- Lines of a function that do not name a register and can be expanded through it. -/
structure IsUnnamed (n : Fin 16) (l : Line) : Prop where
  reach : .core n ∉ l.inst.reach
  stays : l.inst.isReturn = false
  always : ∀ place, l.inst.frameIndexAt = some place → place = 1 ∧ l.inst.predicate.1 = Cond.al

/-- What becomes of such lines does not need the value of the register. -/
theorem Walks.not_readFirst (h : Walks t w p block spAdj ls spAdj' ps) (hw : t.wide? = some w)
    (hslot : p.frame.object? p.frame.scavengingIndex = none) (hsp : .core n ≠ Reg.sp)
    (hpointer : .core n ≠ t.framePointer) (hls : ∀ l ∈ ls, IsUnnamed n l) :
    ¬ ReadFirst (.core n) (ps.map Piece.inst) := by
  induction h with
  | nil => exact (Inst.untouched_of_unnamed fun i hi => absurd hi List.not_mem_nil).not_readFirst
  | @marker _ _ l _ m _ hop hm _ ih =>
    obtain ⟨hl, hls⟩ := List.forall_mem_cons.1 hls
    obtain ⟨v, hinsts, -⟩ := callFrame_facts hw hm
    -- a marker moves the stack pointer, which is another register
    have hu : Untouched (.core n) m.insts := by
      refine Inst.untouched_of_unnamed ?_
      rw [hinsts]
      intro j hj
      refine ⟨?_, (WideSet.plain_of_mem_addConstant hj).1⟩
      intro hx
      rcases WideSet.reach_of_mem_addConstant hj hx with hx | hx | hx | hx
      · exact hsp hx
      · exact hsp hx
      · exact Inst.predicate_ne_of_unnamed hl.reach hx.symm
      · cases hx
    have hfresh : (m.insts.map Piece.fresh).map Piece.inst = m.insts := by
      rw [List.map_map]
      exact List.map_id _
    rw [List.map_append, hfresh, hu.readFirst_append]
    exact ih hls
  | @plain _ _ l _ _ _ _ _ ih =>
    obtain ⟨hl, hls⟩ := List.forall_mem_cons.1 hls
    have hu : Untouched (.core n) [l.inst] := by
      refine Inst.untouched_of_unnamed ?_
      intro j hj
      obtain rfl := List.mem_singleton.1 hj
      exact ⟨hl.reach, hl.stays⟩
    show ¬ ReadFirst (.core n) ([l.inst] ++ _)
    rw [hu.readFirst_append]
    exact ih hls
  | @expand _ _ l _ e _ _ he _ ih =>
    obtain ⟨hl, hls⟩ := List.forall_mem_cons.1 hls
    -- there is no slot to borrow a register with, so that the line comes last in its expansion
    have hdirect := he.direct_of_unslotted hw hslot
    obtain ⟨r, hr⟩ := he.rebase
    obtain ⟨_, _, _, hplace, -⟩ := rebase_cases hr
    obtain ⟨hone, hal⟩ := hl.always _ hplace
    rw [hone] at hplace
    have hexpansion := hdirect.not_readFirst hl.reach hsp hpointer hplace hal
    have hpieces : (e.pieces l).map Piece.inst = e.before ++ [e.inst] := by
      simp [Expansion.pieces, hdirect.stays.2.2, Function.comp_def, Piece.inst]
    rw [List.map_append, hpieces]
    intro hread
    rcases hread.of_append with hread | ⟨-, hread⟩
    · exact hexpansion hread
    · exact ih hls hread

end

/-! ## The code around a body -/

section
variable {t : Target} {w : WideSet} {p : Procedure} {block : Nat} {i : Inst} {spAdj : Int64}
  {n : Fin 16} {r : Rebased} {σ : SavedSlot}

theorem reach_of_mem_unwindLocals {x : Reg} (hi : i ∈ t.unwindLocals w p) (hx : x ∈ i.reach) :
    x = Reg.sp ∨ x = t.framePointer ∨ x = .noreg := by
  rw [unwindLocals] at hi
  simp only at hi
  split at hi
  · split at hi
    · rcases WideSet.reach_of_mem_addConstant hi hx with hx | hx | hx | hx
      · exact .inl hx
      · exact .inr (.inl hx)
      · exact .inr (.inr hx)
      · exact .inr (.inr hx)
    · obtain rfl := List.mem_singleton.1 hi
      have hmem : x ∈ [Reg.sp, t.framePointer, .noreg, .noreg] := by
        cases w <;> exact hx
      simpa using hmem
  · rcases WideSet.reach_of_mem_addConstant hi hx with hx | hx | hx | hx
    · exact .inl hx
    · exact .inl hx
    · exact .inr (.inr hx)
    · exact .inr (.inr hx)

theorem not_reads_loadFromSlot (w : WideSet) {r : Reg} (hr : r.HasSlot) (index : Int64) (x : Reg) :
    ¬ (w.set.loadFromSlot r index).reads x := by
  rcases hr with ⟨m, rfl⟩ | ⟨m, rfl⟩
  · cases w <;> simp [InstrSet.loadFromSlot, Inst.make, Inst.reads, Inst.isReturn, Inst.info,
      WideSet.set, InstrSet.loadOf, InstrSet.load, InstrSet.slotOperands, Opcode.info,
      Opcode.loadInfo, Inst.defineFirst, Operand.use, Operand.define, Operand.isReg, Operand.isDef]
  · cases w <;> simp [InstrSet.loadFromSlot, Inst.make, Inst.reads, Inst.isReturn, Inst.info,
      InstrSet.loadOf, InstrSet.slotOperands, Opcode.info, Opcode.loadInfo, Inst.defineFirst,
      Operand.use, Operand.define, Operand.isReg, Operand.isDef]

theorem writes_of_operand {k : Bool} (h : i.operands[0]? = some (.reg (.core n) true k)) :
    i.writes (.core n) := by
  refine Bool.or_eq_true_iff.2 (.inl (List.any_eq_true.2 ⟨_, List.mem_of_getElem? h, ?_⟩))
  simp [Operand.isReg, Operand.isDef, Operand.register, Reg.overlaps]

/-- No instruction of an epilogue reads a register that is neither pointer. -/
theorem not_reads_of_mem_epilogueCode (hw : t.wide? = some w) (hframe : t.HasFrame p)
    (hi : i ∈ t.epilogueCode w p) (hsp : .core n ≠ Reg.sp) (hpointer : .core n ≠ t.framePointer) :
    ¬ i.reads (.core n) := by
  rcases mem_epilogueCode hi with ⟨v, hmove⟩ | ⟨hstack, hunwind | ⟨a, hrestore⟩⟩
  · intro hread
    have hx := Inst.mem_reach_of_reads hread (WideSet.plain_of_mem_addConstant hmove).1
    rcases WideSet.reach_of_mem_addConstant hmove hx with hx | hx | hx | hx
    · exact hsp hx
    · exact hsp hx
    · cases hx
    · cases hx
  · intro hread
    have hx := Inst.mem_reach_of_reads hread (plain_of_mem_unwindLocals hunwind).1
    rcases reach_of_mem_unwindLocals hunwind hx with hx | hx | hx
    · exact hsp hx
    · exact hpointer hx
    · cases hx
  · obtain ⟨σ, hσ, rfl⟩ := List.mem_map.1 hrestore
    rw [instrSet_of_wide hw]
    have hmem := (mem_inArea.1 (List.mem_reverse.1 hσ)).1
    exact not_reads_loadFromSlot w ((hframe.areas hstack).row.hasSlot hmem) _ _

/-- An epilogue loads every saved register. -/
theorem load_mem_epilogueCode (hw : t.wide? = some w) (hframe : t.HasFrame p)
    (hσ : σ ∈ p.frame.saved) : w.set.loadFromSlot σ.reg σ.index ∈ t.epilogueCode w p := by
  have hstack : p.layout.hasStackFrame := by
    rw [← Bool.not_eq_false]
    intro hbare
    rw [hframe.bare hbare] at hσ
    exact List.not_mem_nil hσ
  have hmem : w.set.loadFromSlot σ.reg σ.index ∈ t.restoresIn p σ.area := by
    rw [restoresIn, instrSet_of_wide hw]
    exact List.mem_map_of_mem (List.mem_reverse.2 (mem_inArea.2 ⟨hσ, rfl⟩))
  rw [epilogueCode, if_pos hstack]
  simp only [List.mem_append]
  rcases (hframe.areas hstack).row.cases hσ with ⟨-, harea | harea⟩ | ⟨-, harea⟩
  · rw [harea] at hmem
    tauto
  · rw [harea] at hmem
    tauto
  · rw [harea] at hmem
    tauto

/-- Eliminating a frame index adds no read but that of a pointer. -/
theorem not_reads_of_rebase (hr : t.rebase w p block i spAdj = .ok r) (hi : ¬ i.reads (.core n))
    (hsp : .core n ≠ Reg.sp) (hpointer : .core n ≠ t.framePointer) : ¬ r.inst.reads (.core n) := by
  obtain ⟨_, _, a, -, -, -, ha, hbase, hfold, -⟩ := rebase_cases hr
  obtain ⟨hflags, hoperands⟩ := fold_operands hfold
  have hreturn := rebase_flags hr
  intro hread
  rw [Inst.reads, hreturn, Bool.false_and, Bool.or_false] at hread
  obtain ⟨o, ho, hreg⟩ := List.any_eq_true.1 hread
  rcases hoperands o ho with hold | rfl | ⟨v, rfl⟩
  · rw [hflags] at hreg
    exact hi (Bool.or_eq_true_iff.2 (.inl (List.any_eq_true.2 ⟨o, hold, hreg⟩)))
  · simp only [Bool.and_eq_true] at hreg
    have hx : a.base = .core n := Reg.overlaps_core_iff.1 hreg.2
    rcases address_base ha with hb | ⟨hb, -⟩
    · exact hsp (hx.symm.trans hb)
    · exact hpointer (hx.symm.trans hb)
  · simp [Operand.isReg] at hreg

/-- The epilogue does not need the value of a saved register. -/
theorem replaces_epilogueCode (hw : t.wide? = some w) (hframe : t.HasFrame p)
    (hσ : σ ∈ p.frame.saved) (hreg : σ.reg = .core n) (hsp : .core n ≠ Reg.sp)
    (hpointer : .core n ≠ t.framePointer) : Replaces (.core n) (t.epilogueCode w p) := by
  constructor
  · intro i hi
    exact not_reads_of_mem_epilogueCode hw hframe hi hsp hpointer
  · have hload := load_mem_epilogueCode hw hframe hσ
    rw [hreg] at hload
    refine ⟨_, hload, (w.isSlotAccess_loadFromSlot (.inl ⟨n, rfl⟩) σ.index).predicate, ?_⟩
    apply writes_of_operand (k := false)
    cases w <;> rfl

/-- Nor does what becomes of it. -/
theorem Walks.replaces_epilogueCode {first : Nat} {es : List Line} {ps : List Piece}
    (h : Walks t w p block 0 es spAdj ps) (hes : Line.IsNew first (t.epilogueCode w p) es)
    (hw : t.wide? = some w) (hframe : t.HasFrame p) (hσ : σ ∈ p.frame.saved)
    (hreg : σ.reg = .core n) (hsp : .core n ≠ Reg.sp) (hpointer : .core n ≠ t.framePointer) :
    Replaces (.core n) (ps.map Piece.inst) := by
  have hstays : List.Forall₂ (t.StaysLine w p block) es ps := by
    apply h.forall₂_staysLine
    · intro l hl
      exact unmarked_of_mem_epilogueCode hw hframe (hes.mem hl)
    · intro l hl r hr
      exact rest_of_mem_epilogueCode hw hframe (hes.mem hl) hr
  have hlength := hstays.length_eq
  constructor
  · -- no line of the epilogue reads the register
    intro i hi
    obtain ⟨q, hq, rfl⟩ := List.mem_map.1 hi
    obtain ⟨m, hm, rfl⟩ := List.getElem_of_mem hq
    obtain ⟨j, hj, hcases⟩ := hstays.get (hlength ▸ hm) hm
    have hold := not_reads_of_mem_epilogueCode hw hframe
      (hes.mem (List.getElem_mem (hlength ▸ hm))) hsp hpointer
    change ps[m] = _ at hj
    rw [hj]
    rcases hcases with rfl | ⟨r, hr, rfl⟩
    · exact hold
    · exact not_reads_of_rebase hr hold hsp hpointer
  · -- the load from its slot is one of them
    have hload := load_mem_epilogueCode hw hframe hσ
    rw [hreg, ← hes.1] at hload
    obtain ⟨l, hl, hinst⟩ := List.mem_map.1 hload
    obtain ⟨m, hm, rfl⟩ := List.getElem_of_mem hl
    obtain ⟨j, hj, hcases⟩ := hstays.get hm (hlength ▸ hm)
    refine ⟨_, List.mem_map_of_mem (List.getElem_mem (hlength ▸ hm)), ?_⟩
    change ps[m] = _ at hj
    rw [hj]
    have hslot := w.isSlotAccess_loadFromSlot (.inl ⟨n, rfl⟩) σ.index (r := .core n)
    have hzero : (w.set.loadFromSlot (.core n) σ.index).operands[0]? =
        some (.reg (.core n) true false) := by
      cases w <;> rfl
    change (j = es[m].inst ∨ ∃ r, t.rebase w p block es[m].inst 0 = .ok r ∧ r.inst = j) at hcases
    rw [hinst] at hcases
    rcases hcases with rfl | ⟨r, hr, rfl⟩
    · exact ⟨hslot.predicate, writes_of_operand hzero⟩
    · obtain ⟨o, ho⟩ := object_of_rebase hr hslot.place hslot.index
      obtain ⟨-, a, -, -, hfolds, -⟩ := rebase_folds hr hslot.place hslot.index ho
      refine ⟨?_, writes_of_operand (hfolds.dst.trans hzero)⟩
      show r.inst.predicate.1 = Cond.al
      rw [hfolds.predicate]
      exact hslot.predicate

end

end Target

/-! ## Blocks -/

namespace Procedure

open Liveness (Leads)

/-- Control that leaves a block goes on to a return, through blocks that return at their end if at
all, and without starting over at the entry block. Frame indices of blocks that come earlier in the
layout are in base operands of unconditional instructions. -/
structure KeepsIdle (p : Procedure) (k : Nat) : Prop where
  ends : ∀ j b, ReflTransGen (Leads p.blocks) k j → p.blocks[j]? = some b →
    b.isReturn ∨ b.successors ≠ []
  last : ∀ j b, ReflTransGen (Leads p.blocks) k j → p.blocks[j]? = some b →
    ∀ l ∈ b.lines.dropLast, l.inst.isReturn = false
  entry : TransGen (Leads p.blocks) k 0 → k = 0
  always : ∀ j < k, TransGen (Leads p.blocks) k j → ∀ l ∈ p.lines j, ∀ place,
    l.inst.frameIndexAt = some place → place = 1 ∧ l.inst.predicate.1 = Cond.al

/-- It is enough to look at some blocks that lead to each other only. -/
theorem keepsIdle_of_closed {p : Procedure} {k : Nat} (within : List Nat)
    (hnext : ∀ j ∈ k :: within, ∀ b ∈ p.blocks[j]?, ∀ c ∈ b.successors, c ∈ within)
    (hends : ∀ j ∈ k :: within, ∀ b ∈ p.blocks[j]?, (b.isReturn ∨ b.successors ≠ []) ∧
      ∀ l ∈ b.lines.dropLast, l.inst.isReturn = false)
    (hentry : 0 ∈ within → k = 0)
    (halways : ∀ j ∈ within, j < k → ∀ l ∈ p.lines j, ∀ place ∈ l.inst.frameIndexAt,
      place = 1 ∧ l.inst.predicate.1 = Cond.al) : p.KeepsIdle k := by
  have hclosed (j : Nat) (h : TransGen (Leads p.blocks) k j) : j ∈ within := by
    induction h with
    | single hstep =>
      obtain ⟨b, hb, hc⟩ := hstep
      exact hnext k List.mem_cons_self b hb _ hc
    | tail _ hstep ih =>
      obtain ⟨b, hb, hc⟩ := hstep
      exact hnext _ (List.mem_cons_of_mem _ ih) b hb _ hc
  have hreach (j : Nat) (h : ReflTransGen (Leads p.blocks) k j) : j ∈ k :: within := by
    rcases reflTransGen_iff_eq_or_transGen.1 h with rfl | h
    · exact List.mem_cons_self
    · exact List.mem_cons_of_mem _ (hclosed j h)
  constructor
  · intro j b hj hb
    exact (hends j (hreach j hj) b hb).1
  · intro j b hj hb
    exact (hends j (hreach j hj) b hb).2
  · intro h
    exact hentry (hclosed 0 h)
  · intro j hlt hj l hl place hplace
    exact halways j (hclosed j hj) hlt l hl place hplace

end Procedure

namespace Target

open Liveness

/-- A core register that a function saves although it does not name it. -/
structure IsSpare (t : Target) (p q : Procedure) (n : Fin 16) : Prop where
  unnamed : ∀ i ∈ p.insts, .core n ∉ i.reach
  saved : ∃ σ ∈ q.frame.saved, σ.reg = .core n
  ne_sp : .core n ≠ Reg.sp
  ne_pointer : .core n ≠ t.framePointer

section
variable {t : Target} {w : WideSet} {p q : Procedure} {n : Fin 16} {j k first : Nat} {b : Block}
  {es ls : List Line}

/-- The rest of a block, from some line of its body on, does not need the value of a spare
register. -/
theorem IsSpare.rest (h : t.IsSpare p q n) (hw : t.wide? = some w) (hframe : t.HasFrame q)
    (hb : b ∈ p.blocks) (hlast : ∀ l ∈ b.lines.dropLast, l.inst.isReturn = false)
    (hls : ∀ l ∈ ls, l ∈ b.body)
    (hes : Line.IsNew first (if b.isReturn then t.epilogueCode w q else []) es) :
    ¬ ReadFirst (.core n) ((ls ++ (es ++ b.exit)).map Line.inst) ∧
      (Untouched (.core n) ((ls ++ (es ++ b.exit)).map Line.inst) → ¬ b.isReturn) := by
  have hbody : Untouched (.core n) (ls.map Line.inst) := by
    refine Inst.untouched_of_unnamed ?_
    intro i hi
    obtain ⟨l, hl, rfl⟩ := List.mem_map.1 hi
    have hmem := Block.mem_body (hls l hl)
    refine ⟨h.unnamed _ (List.mem_flatMap.2 ⟨b, hb, List.mem_map_of_mem hmem⟩), ?_⟩
    exact Block.isReturn_of_mem_body hlast (hls l hl)
  rw [List.map_append, hbody.readFirst_append]
  by_cases hreturn : b.isReturn
  · rw [if_pos hreturn] at hes
    obtain ⟨σ, hσ, hreg⟩ := h.saved
    have hreplaces := replaces_epilogueCode hw hframe hσ hreg h.ne_sp h.ne_pointer
    rw [List.map_append, hes.1]
    refine ⟨hreplaces.not_readFirst, ?_⟩
    intro hu
    have htail : Untouched (.core n) (t.epilogueCode w q ++ b.exit.map Line.inst) :=
      fun i hi => hu i (List.mem_append_right _ hi)
    exact absurd htail hreplaces.not_untouched
  · rw [if_neg hreturn] at hes
    obtain rfl := List.map_eq_nil_iff.1 hes.1
    rw [Block.exit, if_neg hreturn]
    refine ⟨?_, fun _ => hreturn⟩
    rintro ⟨before, i, after, heq, -⟩
    exact List.append_ne_nil_of_right_ne_nil before (List.cons_ne_nil i after) heq.symm

/-- A block in which the walk has not been yet. -/
theorem IsSpare.isIdle (h : t.IsSpare p q n) (hw : t.wide? = some w) (hframe : t.HasFrame q)
    (hb : b ∈ p.blocks) (hlast : ∀ l ∈ b.lines.dropLast, l.inst.isReturn = false)
    (hends : b.isReturn ∨ b.successors ≠ [])
    (hes : Line.IsNew first (if b.isReturn then t.epilogueCode w q else []) es) :
    IsIdle (.core n) { b with lines := b.body ++ (es ++ b.exit) } := by
  obtain ⟨hread, hreturn⟩ := h.rest hw hframe hb hlast (fun _ hl => hl) hes
  exact ⟨hread, fun hu => hends.resolve_left (hreturn hu)⟩

/-- A block in which the walk has been. -/
theorem IsSpare.isIdle_of_walks {next : Nat} {spAdj : Int64} {ps : List Piece}
    (h : t.IsSpare p q n) (hw : t.wide? = some w) (hframe : t.HasFrame q)
    (hslot : q.frame.object? q.frame.scavengingIndex = none) (hb : b ∈ p.blocks)
    (hlast : ∀ l ∈ b.lines.dropLast, l.inst.isReturn = false)
    (hends : b.isReturn ∨ b.successors ≠ [])
    (halways : ∀ l ∈ b.lines, ∀ place, l.inst.frameIndexAt = some place →
      place = 1 ∧ l.inst.predicate.1 = Cond.al)
    (hbalanced : (setupSizes b.lines).Perm (destroySizes b.lines))
    (hes : Line.IsNew first (if b.isReturn then t.epilogueCode w q else []) es)
    (hwalk : Walks t w q j 0 (b.body ++ (es ++ b.exit)) spAdj ps) :
    IsIdle (.core n) { b with lines := (Piece.number next ps).1 } := by
  have hinsts : ({ b with lines := (Piece.number next ps).1 } : Block).insts = ps.map Piece.inst :=
    Piece.map_inst_number next ps
  rw [IsIdle, hinsts]
  obtain ⟨mid, xs, ys, hxs, hys, rfl⟩ := hwalk.append_inv
  obtain rfl := hxs.spAdj_of_balanced hw (balanced_body hbalanced)
  have hbody : ¬ ReadFirst (.core n) (xs.map Piece.inst) := by
    refine hxs.not_readFirst hw hslot h.ne_sp h.ne_pointer ?_
    intro l hl
    have hmem := Block.mem_body hl
    exact ⟨h.unnamed _ (List.mem_flatMap.2 ⟨b, hb, List.mem_map_of_mem hmem⟩),
      Block.isReturn_of_mem_body hlast hl, halways l hmem⟩
  rw [List.map_append]
  by_cases hreturn : b.isReturn
  · rw [if_pos hreturn] at hes
    obtain ⟨_, zs, last, hzs, -, rfl⟩ := hys.append_inv
    -- the epilogue loads the register before the return
    obtain ⟨σ, hσ, hreg⟩ := h.saved
    have hreplaces := hzs.replaces_epilogueCode hes hw hframe hσ hreg h.ne_sp h.ne_pointer
    rw [List.map_append]
    constructor
    · intro hread
      rcases hread.of_append with hread | ⟨-, hread⟩
      · exact hbody hread
      · exact hreplaces.not_readFirst hread
    · intro hu
      have htail : Untouched (.core n) (zs.map Piece.inst ++ last.map Piece.inst) :=
        fun i hi => hu i (List.mem_append_right _ hi)
      exact absurd htail hreplaces.not_untouched
  · rw [if_neg hreturn] at hes
    obtain rfl := List.map_eq_nil_iff.1 hes.1
    rw [Block.exit, if_neg hreturn] at hys
    cases hys
    rw [List.map_nil, List.append_nil]
    exact ⟨hbody, fun _ => hends.resolve_left hreturn⟩

/-- A block is one of the function with its frame around it, walked through if it comes before
the one where the walk is. If that block leads to it, a spare register is idle in it. -/
theorem exists_block_of_walks {m : Procedure} {c : Nat} {d : Block} (hw : t.wide? = some w)
    (hframed : Procedure.Framed p.fresh (t.prologueCode w m) (fun _ => t.epilogueCode w m) p m)
    (hwalks : t.WalksBlocks w (List.range k) m q) (hframe : t.HasFrame q)
    (hslot : q.frame.object? q.frame.scavengingIndex = none) (hspare : t.IsSpare p q n)
    (hidle : p.KeepsIdle k)
    (hbalanced : ∀ b ∈ p.blocks, (setupSizes b.lines).Perm (destroySizes b.lines))
    (hd : q.blocks[c]? = some d) :
    ∃ d₀, p.blocks[c]? = some d₀ ∧ d.successors = d₀.successors ∧
      (c ≠ k → TransGen (Leads p.blocks) k c → IsIdle (.core n) d) := by
  have hcode : t.epilogueCode w m = t.epilogueCode w q := by
    obtain ⟨_, _, rfl⟩ := hwalks.shape
    rfl
  have hlt := (List.getElem?_eq_some_iff.1 hd).1
  rw [hwalks.length, hframed.length] at hlt
  have hold := List.getElem?_eq_getElem hlt
  generalize p.blocks[c] = d₀ at hold
  obtain ⟨as, es, has, hes, hlines⟩ := hframed.block c d₀ hold
  rw [hcode] at hes
  refine ⟨d₀, hold, ?_⟩
  have hmem := List.mem_of_getElem? hold
  -- a prologue is in front of the entry only, which no block leads to
  have hbare : c ≠ k → TransGen (Leads p.blocks) k c → as = [] := by
    intro hne hreach
    have hentry : c ≠ 0 := by
      rintro rfl
      exact hne (hidle.entry hreach).symm
    rw [if_neg hentry] at has
    exact List.map_eq_nil_iff.1 has.1
  by_cases hc : c < k
  · obtain ⟨next, spAdj, ps, -, hwalk, hnow⟩ := hwalks.walks c (List.mem_range.2 hc) _ hlines
    obtain rfl := Option.some.inj (hd.symm.trans hnow)
    refine ⟨rfl, ?_⟩
    intro hne hreach
    have hrefl := hreach.to_reflTransGen
    obtain rfl := hbare hne hreach
    rw [List.nil_append, List.append_assoc] at hwalk
    show IsIdle (.core n) { d₀ with lines := _ }
    refine hspare.isIdle_of_walks hw hframe hslot hmem (hidle.last c d₀ hrefl hold)
      (hidle.ends c d₀ hrefl hold) ?_ (hbalanced d₀ hmem) hes hwalk
    intro l hl
    refine hidle.always c hc hreach l ?_
    rw [Procedure.lines, hold]
    exact hl
  · have hnow := (hwalks.others c (by simpa using hc)).trans hlines
    obtain rfl := Option.some.inj (hd.symm.trans hnow)
    refine ⟨rfl, ?_⟩
    intro hne hreach
    have hrefl := hreach.to_reflTransGen
    obtain rfl := hbare hne hreach
    rw [List.nil_append, List.append_assoc]
    exact hspare.isIdle hw hframe hmem (hidle.last c d₀ hrefl hold)
      (hidle.ends c d₀ hrefl hold) hes

/-- While a walk is in a block, a spare register is dead after each line of the body: the search
comes to no other block that needs its value. -/
theorem liveAfter_of_idle {m : Procedure} {here : Inst} (hw : t.wide? = some w)
    (hframed : Procedure.Framed p.fresh (t.prologueCode w m) (fun _ => t.epilogueCode w m) p m)
    (hwalks : t.WalksBlocks w (List.range k) m q) (hframe : t.HasFrame q)
    (hslot : q.frame.object? q.frame.scavengingIndex = none) (hspare : t.IsSpare p q n)
    (hidle : p.KeepsIdle k)
    (hbalanced : ∀ b ∈ p.blocks, (setupSizes b.lines).Perm (destroySizes b.lines))
    (hb : p.blocks[k]? = some b) (hls : ∀ l ∈ ls, l ∈ b.body)
    (hes : Line.IsNew first (if b.isReturn then t.epilogueCode w q else []) es) :
    liveAfter q k here ((ls ++ (es ++ b.exit)).map Line.inst) (.core n) = false := by
  obtain ⟨as, es', -, -, hlines⟩ := hframed.block k b hb
  have hnow := (hwalks.others k (by simp)).trans hlines
  obtain ⟨hread, hreturn⟩ := hspare.rest hw hframe (List.mem_of_getElem? hb)
    (hidle.last k b .refl hb) hls hes
  have hgoes : Untouched (.core n) ((ls ++ (es ++ b.exit)).map Line.inst) → b.successors ≠ [] :=
    fun hu => (hidle.ends k b .refl hb).resolve_left (hreturn hu)
  have hothers : ∀ c d, TransGen (Leads p.blocks) k c → c ≠ k → q.blocks[c]? = some d →
      IsIdle (.core n) d := by
    intro c d hreach hne hd
    obtain ⟨_, -, -, hthis⟩ :=
      exists_block_of_walks hw hframed hwalks hframe hslot hspare hidle hbalanced hd
    exact hthis hne hreach
  refine liveAfter_eq_false hnow hread hgoes hothers ?_ ?_
  · intro c d e hreach hd he
    obtain ⟨d₀, hold, hsame, -⟩ :=
      exists_block_of_walks hw hframed hwalks hframe hslot hspare hidle hbalanced hd
    exact hreach.tail ⟨d₀, hold, hsame ▸ he⟩
  · intro c hc
    exact .single ⟨b, hb, hc⟩

end

end Target

end FrameLowering
