import FrameLowering.Proofs.KeptOperands
import FrameLowering.Proofs.Leftovers
import FrameLowering.Proofs.StackDistance

/-!
# One frame index eliminated

A single frame index can be eliminated in any state of a function, planned or not. What then
stands for the instruction accesses, or computes, the address that it would from the register the
object is addressed from, whatever values the registers have (`exact_of_eliminateAt`). Distances
are integers here and addresses are words, so that no offset has to be in range: what wraps around
in a sum of 64 bits is a multiple of the size of a word.

Nothing is known of a borrowed register if the slot it is stored in is out of reach itself, since
the way to the slot goes through `r12`. The statement therefore leaves out expansions with more
than one instruction after the access.
-/

namespace FrameLowering

open ImmediateField (word)

/-! ## Code that can be executed -/

/-- An instruction that is no return can always be executed. -/
theorem Inst.exists_effect {i : Inst} (h : i.isReturn = false) (s : State) :
    ∃ s', i.Effect s s' := by
  by_cases he : i.Enabled s
  · have hacts : ∃ s', i.Acts s s' := by
      simp only [Acts]
      cases hk : i.op.access? with
      | some k => exact ⟨_, rfl⟩
      | none =>
        obtain ⟨op, os⟩ := i
        cases op
        case bxRet | tbxRet => cases h
        case ldrcp => exact ⟨_, 0, rfl⟩
        -- calls and assembly text may leave everything as it is
        case bl | t2bl | tbl | inlineAsm => exact ⟨s, fun _ _ => rfl⟩
        all_goals exact ⟨_, rfl⟩
    obtain ⟨s', hacts⟩ := hacts
    exact ⟨s', .inl ⟨he, hacts⟩⟩
  · exact ⟨s, .inr ⟨he, rfl⟩⟩

theorem exists_execAll {is : List Inst} (h : ∀ i ∈ is, i.isReturn = false) (s : State) :
    ∃ s', ExecAll is s s' := by
  induction is generalizing s with
  | nil => exact ⟨s, rfl⟩
  | cons i is ih =>
    obtain ⟨m, heff⟩ := Inst.exists_effect (h i List.mem_cons_self) s
    obtain ⟨s', hrest⟩ := ih (fun j hj => h j (List.mem_cons_of_mem _ hj)) m
    exact ⟨s', m, heff, hrest⟩

/-- An access changes no register but its own. -/
theorem Access.agreesOff_result (k : Access) (a : Word) (r : Reg) (s : State) :
    s.AgreesOff [r] (k.result a r s) ∧ (k.result a r s).flags = s.flags := by
  cases k with
  | load n => exact ⟨State.agreesOff_assign s r _, rfl⟩
  | loadSigned => exact ⟨State.agreesOff_assign s r _, rfl⟩
  | loadWords n => exact ⟨State.agreesOff_assign s r _, rfl⟩
  | store n => exact ⟨fun _ _ => rfl, rfl⟩
  | storeWords => exact ⟨fun _ _ => rfl, rfl⟩

/-- Pieces as the lines of a block that there is. -/
theorem Procedure.map_inst_setPieces {p : Procedure} {block : Nat} {b : Block}
    (hb : p.blocks[block]? = some b) (ps : List Piece) :
    ((p.setPieces block ps).lines block).map Line.inst = ps.map Piece.inst := by
  have hblock : (p.setPieces block ps).blocks[block]? =
      some { b with lines := (Piece.number p.fresh ps).1 } := by
    show (p.setLines block _).blocks[block]? = _
    rw [getElem?_setLines, if_pos rfl, hb]
    rfl
  rw [lines, hblock]
  exact Piece.map_inst_number p.fresh ps

/-! ## Instructions with an address -/

/-- Loads, stores and additions of an immediate. -/
def Opcode.IsAddressing (op : Opcode) : Prop :=
  op.info.flags.isLoad ∨ op.info.flags.isStore ∨ op = .addri ∨ op = .t2addri

/-- What an addition adds to its base is its immediate. -/
theorem Inst.beyond_of_add {w : WideSet} {i : Inst} (h : i.op = w.add) (s : State) :
    i.beyond s = i.indexValue s + word i.displacement := by
  obtain ⟨op, os⟩ := i
  have hone (v : Int64) : Family.mode1.field.decode v = v := Int64.mul_one v
  obtain rfl : op = w.add := h
  cases w with
  | arm =>
    show word _ = (0 : Word) + word (Family.mode1.field.decode _)
    rw [hone, zero_add]
  | thumb2 =>
    show word _ = (0 : Word) + word (Family.mode1.field.decode _)
    rw [hone, zero_add]

namespace Target

/-- The register from which an object is addressed, and the distance of the object from it. The
slots of saved registers are counted from the bottom of their area, and other objects from the
frame pointer if there is one. -/
inductive Displaces (t : Target) (p : Procedure) (index : Int64) (o : FrameObject)
    (spAdj : Int64) : Reg → Int → Prop
  | area {bottom : Int64} (harea : p.layout.area index ≠ .outside)
      (hbottom : p.layout.areaOffset (p.layout.area index) = .ok bottom) :
      Displaces t p index o spAdj Reg.sp
        (o.offset.toInt + p.frame.stackSize.toInt + spAdj.toInt - bottom.toInt)
  | pointer (houtside : p.layout.area index = .outside) (hpointer : t.hasPointer p) :
      Displaces t p index o spAdj t.framePointer
        (o.offset.toInt + p.frame.stackSize.toInt - p.layout.fpSpillOffset.toInt)
  | stack (houtside : p.layout.area index = .outside) (hnone : t.hasPointer p = false) :
      Displaces t p index o spAdj Reg.sp
        (o.offset.toInt + p.frame.stackSize.toInt + spAdj.toInt)

/-- What the instructions that stand for `i` do, if `a` is the address that `i` is to access or
the sum that it is to compute. They can be executed, and however they are, the access is the one
that `i` makes, at `a`, or the sum `a` goes to the register it is for, and what comes after leaves
that register alone. One other register at most is changed, which `i` does not name. -/
structure Performs (t : Target) (scavenging : Bool) (i : Inst) (a : Word) (e : Expansion)
    (s : State) : Prop where
  runs : ∃ s', ExecAll (e.before ++ e.inst :: e.after) s s'
  acts : ∀ s₁ s₂, ExecAll e.before s s₁ → e.inst.Effect s₁ s₂ →
    (∃ k, i.op.access? = some k ∧ e.inst.op.access? = some k ∧ e.inst.address s₁ = a ∧
      s₂ = k.result a (i.register 0) s₁) ∨
    (i.op.access? = none ∧ s₂ = s₁.write (i.register 0) a)
  keeps : ∀ s₂ s₃, ExecAll e.after s₂ s₃ → s₃.value (i.register 0) = s₂.value (i.register 0)
  scratch : ∃ rs : List Reg, rs.length ≤ 1 ∧
    (∀ x ∈ rs, t.IsScratch i x ∧ x ≠ Reg.pc ∧ (scavenging = false → x = Reg.r12)) ∧
    ∀ s₁ s₂ s₃, ExecAll e.before s s₁ → e.inst.Effect s₁ s₂ → ExecAll e.after s₂ s₃ →
      s.AgreesOff rs s₁ ∧ s.AgreesOff (i.register 0 :: rs) s₃ ∧ s₃.flags = s.flags

section
variable {t : Target} {w : WideSet} {p : Procedure} {block : Nat} {i : Inst} {spAdj : Int64}
  {s s₁ s₂ s₃ : State} {index : Int64} {o : FrameObject} {a : Address} {e : Expansion} {r : Rebased}

theorem exists_displaces (h : t.address p index o spAdj = .ok a) :
    ∃ d, t.Displaces p index o spAdj a.base d ∧ word a.offset = BitVec.ofInt 32 d := by
  rw [address] at h
  split at h
  · next harea =>
    cases hbottom : p.layout.areaOffset (p.layout.area index) with
    | error f => simp [hbottom] at h
    | ok bottom =>
      simp only [hbottom] at h
      obtain rfl := Except.ok.inj h
      refine ⟨_, .area harea hbottom, ?_⟩
      rw [ImmediateField.word_sub, ImmediateField.word_add, ImmediateField.word_add]
      simp only [ImmediateField.word_eq_ofInt, sub_eq_add_neg, BitVec.ofInt_add, BitVec.ofInt_neg]
  · next harea =>
    have houtside : p.layout.area index = .outside := not_not.1 harea
    split at h
    · next hpointer =>
      obtain rfl := Except.ok.inj h
      refine ⟨_, .pointer houtside hpointer, ?_⟩
      rw [ImmediateField.word_sub, ImmediateField.word_add]
      simp only [ImmediateField.word_eq_ofInt, sub_eq_add_neg, BitVec.ofInt_add, BitVec.ofInt_neg]
    · next hpointer =>
      obtain rfl := Except.ok.inj h
      refine ⟨_, .stack houtside (Bool.eq_false_iff.2 hpointer), ?_⟩
      rw [ImmediateField.word_add, ImmediateField.word_add]
      simp only [ImmediateField.word_eq_ofInt, BitVec.ofInt_add]

/-- An instruction with an address into which an offset was folded is a load or store whose access
is known, or the addition of its instruction set. -/
theorem access_or_add_of_fold {i' : Inst} {place : Nat} {rest : Int64} (hi : i.op.IsAddressing)
    (h : t.fold w i place a = ⟨i', .ok rest⟩) :
    (∃ k, i.op.access? = some k) ∨ i.op = w.add ∧ i.op.access? = none := by
  rw [fold] at h
  split at h
  · next hop =>
    refine .inr ⟨hop, ?_⟩
    rw [hop]
    cases w <;> rfl
  · have hfold : i.op.info.family.isFoldable := (Inst.foldMemory_cases h).1
    left
    revert hi hfold
    cases i.op
    case inlineAsm => intro hi; rcases hi with hi | hi | hi | hi <;> cases hi
    case ldr | str | ldrb | strb | ldrh | strh | ldrsh | fldd | fstd | flds | fsts | t2ldri12 |
        t2stri12 | t2ldri8 | t2stri8 | t2ldrs | t2strs => exact fun _ _ => ⟨_, rfl⟩
    all_goals intro _ hfold; cases hfold

/-! ## Scratch registers -/

theorem through_inj {x y : Reg} (hr : t.rebase w p block i spAdj = .ok r)
    (h : r.through x = r.through y) : x = y := by
  have hx : (r.through x).operands[r.place]? = some (.reg x false true) := operand_of_through hr
  rw [h, operand_of_through hr] at hx
  injection Option.some.inj hx with hxy
  exact hxy.symm

/-- A register that an instruction does not name after the elimination was not named before. -/
theorem IsScratch.of_rebase {x : Reg} (h : t.IsScratch r.inst x)
    (hr : t.rebase w p block i spAdj = .ok r) : t.IsScratch i x := by
  refine ⟨h.core, h.ne_sp, h.ne_pointer, fun hrefers => h.unnamed ?_⟩
  obtain ⟨_, _, _, hfirst, hindex, -, -, -, hfold, -⟩ := rebase_cases hr
  have hkeeps := keepsOperands_of_fold hfirst hindex hfold
  have hflags := (fold_operands hfold).1
  have hany {test : Operand → Bool} (htest : ∀ o, test o → o.isReg)
      (hsome : i.operands.any test) : r.inst.operands.any test := by
    obtain ⟨o, ho, hpass⟩ := List.any_eq_true.1 hsome
    exact List.any_eq_true.2 ⟨o, hkeeps.mem ho (htest o hpass), hpass⟩
  simp only [Inst.refers, Inst.reads, Inst.writes, Inst.isReturn, hflags, Bool.or_eq_true] at hrefers ⊢
  refine hrefers.imp (Or.imp_left (hany ?_)) (Or.imp_left (hany ?_))
  · intro o ho
    simp only [Bool.and_eq_true] at ho
    exact ho.1.1
  · intro o ho
    simp only [Bool.and_eq_true] at ho
    exact ho.1.1

theorem ne_pc_of_mem_candidates {x : Reg} (h : x ∈ t.candidates p i RegClass.coreOrder) :
    x ≠ Reg.pc := by
  rintro rfl
  simp [candidates, Reg.isSpecial] at h

/-- The register through which an instruction goes if its offset does not fit. -/
theorem through_of_expand {rest : List Inst} {scavenging : Bool} (hw : t.wide? = some w)
    (h : t.expand p block i rest spAdj scavenging = e) (hok : e.failure = none)
    (hr : t.rebase w p block i spAdj = .ok r) (hrest : r.rest ≠ 0) :
    ∃ x, e.inst = r.through x ∧ x ≠ Reg.pc ∧ (scavenging = false → x = Reg.r12) := by
  rw [expand, hw] at h
  simp only at h
  cases scavenging with
  | false =>
    simp only [Bool.false_eq_true, if_false] at h
    obtain ⟨r', hr', ⟨hnone, -⟩ | ⟨-, -, -, hinst⟩⟩ := expandDirect_cases h hok
    all_goals obtain rfl := Except.ok.inj (hr.symm.trans hr')
    · exact absurd hnone hrest
    · exact ⟨Reg.r12, hinst, by decide, fun _ => rfl⟩
  | true =>
    simp only [if_true, expandScavenging, hr, if_neg hrest] at h
    cases hfree : t.freeScratch? p ⟨block, r.inst, rest⟩ with
    | some x =>
      simp only [hfree] at h
      subst h
      exact ⟨x, rfl, ne_pc_of_mem_candidates (freeScratch?_cases hfree).1, fun h => by cases h⟩
    | none =>
      simp only [hfree] at h
      -- a borrowed register is a candidate as well
      cases hb : t.borrow p ⟨block, r.inst, rest⟩ .gpr with
      | error f =>
        simp only [hb] at h
        subst h
        cases hok
      | ok b =>
        simp only [hb] at h
        have hpc := ne_pc_of_mem_candidates (borrow_cases hb).2
        refine ⟨b.reg, ?_, hpc, fun h => by cases h⟩
        subst h
        rw [expandBorrowed]
        split <;> rfl

/-! ## Around an access -/

/-- Nothing that stands for an instruction returns. -/
theorem Expands.stays (h : Expands t w p block i spAdj e) :
    ∀ j ∈ e.before ++ e.inst :: e.after, j.isReturn = false := by
  have hdirect {i : Inst} {e : Expansion} (h : Direct t w p block i spAdj e) :
      ∀ j ∈ e.before ++ [e.inst], j.isReturn = false := by
    obtain ⟨hinst, hbefore, -⟩ := h.stays
    intro j hj
    rcases List.mem_append.1 hj with hj | hj
    · exact hbefore j hj
    · obtain rfl := List.mem_singleton.1 hj
      exact hinst
  cases h with
  | direct h =>
    rw [h.stays.2.2]
    exact hdirect h
  | borrowed hr _ _ hspill hreload =>
    intro j hj
    rcases List.mem_append.1 hj with hj | hj
    · rcases List.mem_append.1 hj with hj | hj
      · exact hdirect hspill j (List.mem_append_left _ hj)
      rcases List.mem_cons.1 hj with rfl | hj
      · exact hdirect hspill _ (List.mem_append_right _ List.mem_cons_self)
      · exact (WideSet.plain_of_mem_addConstant hj).1
    · rcases List.mem_cons.1 hj with rfl | hj
      · exact rebase_flags hr
      · exact hdirect hreload j hj

/-- An expansion in which the slot of a borrowed register, if there is one, is in reach. Either the
instruction is alone, or a sum in a scratch register comes before it, from registers that are as
they were. After it there is nothing, or the load of the scratch register. -/
theorem Expands.short_cases (hw : t.wide? = some w) (h : Expands t w p block i spAdj e)
    (hshort : e.after.length ≤ 1) :
    ∃ r, t.rebase w p block i spAdj = .ok r ∧
      ((r.rest = 0 ∧ e.before = [] ∧ e.inst = r.inst ∧ e.after = []) ∨
        (r.rest ≠ 0 ∧ ∃ n, e.inst = r.through (.core n) ∧ t.IsScratch r.inst (.core n) ∧
          (∀ s s₁, ExecAll e.before s s₁ →
            ∃ m, m.cells = s.cells ∧ m.flags = s.flags ∧ ExecAll (r.chain w (.core n)) m s₁) ∧
          ∀ s₂ s₃, ExecAll e.after s₂ s₃ → s₃ = s₂ ∨ ∃ ws, s₃ = s₂.assign (.core n) ws)) := by
  cases h with
  | direct h =>
    cases h with
    | alone hr hrest => exact ⟨_, hr, .inl ⟨hrest, rfl, rfl, rfl⟩⟩
    | through hr hrest hscratch =>
      obtain ⟨n, rfl⟩ := hscratch.core
      refine ⟨_, hr, .inr ⟨hrest, n, rfl, hscratch, ?_, fun s₂ s₃ hexec => .inl hexec⟩⟩
      exact fun s s₁ hexec => ⟨s, rfl, rfl, hexec⟩
  | @borrowed r _ spill reload hr hrest hscratch hspill hreload hfirst hlast =>
    obtain ⟨n, rfl⟩ := hscratch.core
    refine ⟨r, hr, .inr ⟨hrest, n, rfl, hscratch, ?_, ?_⟩⟩
    · intro s s₁ hexec
      obtain ⟨m, hstore, hchain⟩ := execAll_append_cons.1 hexec
      obtain ⟨hflags, hsame | ⟨-, hlong⟩⟩ :=
        agreesOff_spill hw hfirst hlast hspill.failure_eq hreload.failure_eq hstore
      · exact ⟨m, hsame, hflags, hchain⟩
      · exact absurd hshort (Nat.not_le.2 hlong)
    · intro s₂ s₃ hexec
      have hbefore : reload.before = [] := by
        have hlen : (reload.before ++ [reload.inst]).length ≤ 1 := hshort
        rw [List.length_append, List.length_singleton] at hlen
        exact List.length_eq_zero_iff.1 (Nat.le_zero.1 (Nat.le_of_succ_le_succ hlen))
      rw [hbefore] at hexec
      obtain ⟨x, heff, rfl⟩ := hexec
      exact .inr (exists_assign_of_reload hw hlast hreload.failure_eq hbefore heff)

/-- What the instructions before an access leave: the flags and the index register. The access is
then made from the register that the object is addressed from. -/
theorem Expands.forms (hw : t.wide? = some w) (h : Expands t w p block i spAdj e)
    (hplace : i.frameIndexAt = some 1) (hindex : i.operands[1]? = some (.frameIndex index))
    (ho : p.frame.object? index = some o) (ha : t.address p index o spAdj = .ok a)
    (hshort : e.after.length ≤ 1) (hexec : ExecAll e.before s s₁) :
    i.Forms e.inst (s.read a.base + word a.offset) s₁ ∧ i.indexValue s₁ = i.indexValue s ∧
      s₁.flags = s.flags := by
  obtain ⟨r, hr, ⟨hrest, hbefore, hinst, -⟩ | ⟨hrest, n, hinst, hscratch, hbefore, -⟩⟩ :=
    h.short_cases hw hshort
  · rw [hbefore] at hexec
    obtain rfl : s₁ = s := hexec
    rw [hinst]
    exact ⟨forms_from_base hr hplace hindex ho ha hrest s₁, rfl, rfl⟩
  · obtain ⟨m, hcells, hflags, hchain⟩ := hbefore s s₁ hexec
    obtain ⟨hlo, hhi⟩ := rebase_range hr
    obtain ⟨hagrees, -, hkept⟩ := Rebased.agreesOff_chain hlo hhi hrest hchain
    have hsame (x : Reg) : m.read x = s.read x := by
      rw [State.read, State.value, hcells]
      rfl
    refine ⟨?_, ?_, hkept.trans hflags⟩
    · rw [hinst, ← hsame]
      exact forms_through_base hr hplace hindex ho ha hrest hchain
    · rw [Inst.indexValue_of_agreesOff hagrees (hscratch.ne_index hr hplace hindex),
        Inst.indexValue, Inst.indexValue, hsame]

/-- Loading a scratch register leaves the register alone that an instruction writes. -/
theorem IsScratch.value_assign {n : Fin 16} {ws : List Word} (h : t.IsScratch i (.core n)) :
    (s.assign (.core n) ws).value (i.register 0) = s.value (i.register 0) := by
  refine State.value_assign_of_ne fun hover => ?_
  obtain ⟨d, k, hoperand⟩ := Inst.operand_of_register (Reg.eq_of_core_overlaps hover)
  exact h.unnamed (Inst.refers_of_operand hoperand (by simp))

/-- The instruction itself does what it is to do on the object. -/
theorem Expands.acts {d : Int} (hw : t.wide? = some w) (h : Expands t w p block i spAdj e)
    (hplace : i.frameIndexAt = some 1) (hindex : i.operands[1]? = some (.frameIndex index))
    (ho : p.frame.object? index = some o) (ha : t.address p index o spAdj = .ok a)
    (hop : i.op.IsAddressing) (hd : word a.offset = BitVec.ofInt 32 d)
    (hshort : e.after.length ≤ 1) (henabled : i.Enabled s) (hexec : ExecAll e.before s s₁)
    (heff : e.inst.Effect s₁ s₂) :
    let sum := s.read a.base + BitVec.ofInt 32 (d + i.displacement.toInt) + i.indexValue s
    (∃ k, i.op.access? = some k ∧ e.inst.op.access? = some k ∧ e.inst.address s₁ = sum ∧
      s₂ = k.result sum (i.register 0) s₁) ∨
    (i.op.access? = none ∧ s₂ = s₁.write (i.register 0) sum) := by
  intro sum
  obtain ⟨hforms, hvalue, hflags⟩ := h.forms hw hplace hindex ho ha hshort hexec
  have hon : e.inst.Enabled s₁ := by
    rw [hforms.enabled_iff, Inst.Enabled, hflags]
    exact henabled
  have hacts : e.inst.Acts s₁ s₂ := by
    rcases heff with ⟨-, hacts⟩ | ⟨hoff, -⟩
    · exact hacts
    · exact absurd hon hoff
  -- what is added to the base makes up the sum in both cases
  have hsum (hbeyond : i.beyond s₁ = i.indexValue s₁ + word i.displacement) :
      s.read a.base + word a.offset + i.beyond s₁ = sum := by
    rw [hbeyond, hvalue, hd, ImmediateField.word_eq_ofInt]
    show _ = s.read a.base + BitVec.ofInt 32 (d + i.displacement.toInt) + i.indexValue s
    rw [BitVec.ofInt_add]
    ac_rfl
  obtain ⟨r, hr⟩ := h.rebase
  obtain ⟨_, _, _, -, -, -, -, -, hfold, -⟩ := rebase_cases hr
  rcases access_or_add_of_fold hop hfold with ⟨k, hk⟩ | ⟨hadd, hnone⟩
  · have hall := hsum (Inst.beyond_of_access hk s₁)
    refine .inl ⟨k, hk, hforms.access.trans hk, ?_, ?_⟩
    · rw [hforms.address_eq hk hon, hall]
    · rw [hforms.acts_access hk hon hacts, hall]
  · have hsome : (i.op.addend? 0).isSome := by
      rw [hadd]
      cases w <;> rfl
    refine .inr ⟨hnone, ?_⟩
    rw [hforms.acts_addend hsome hon hacts, hsum (Inst.beyond_of_add hadd s₁)]

/-- The scratch register of an expansion, if there is one. -/
theorem exists_scratch_of_expand {rest : List Inst} {scavenging : Bool} (hw : t.wide? = some w)
    (he : t.expand p block i rest spAdj scavenging = e) (hok : e.failure = none)
    (hshort : e.after.length ≤ 1) :
    ∃ rs : List Reg, rs.length ≤ 1 ∧
      (∀ x ∈ rs, t.IsScratch i x ∧ x ≠ Reg.pc ∧ (scavenging = false → x = Reg.r12)) ∧
      (∀ s s₁, ExecAll e.before s s₁ → s.AgreesOff rs s₁) ∧
      ∀ s₂ s₃, ExecAll e.after s₂ s₃ → s₂.AgreesOff rs s₃ ∧ s₃.flags = s₂.flags ∧
        s₃.value (i.register 0) = s₂.value (i.register 0) := by
  have h := expands_of_expand hw he hok
  obtain ⟨r, hr, ⟨hrest, hbefore, -, hafter⟩ | ⟨hrest, n, hinst, hscratch, hbefore, hafter⟩⟩ :=
    h.short_cases hw hshort
  · refine ⟨[], Nat.zero_le 1, fun x hx => absurd hx List.not_mem_nil, ?_, ?_⟩
    · intro s s₁ hexec
      rw [hbefore] at hexec
      obtain rfl : s₁ = s := hexec
      exact fun _ _ => rfl
    · intro s₂ s₃ hexec
      rw [hafter] at hexec
      obtain rfl : s₃ = s₂ := hexec
      exact ⟨fun _ _ => rfl, rfl, rfl⟩
  · obtain ⟨x, hthrough, hpc, hr12⟩ := through_of_expand hw he hok hr hrest
    obtain rfl := through_inj hr (hinst.symm.trans hthrough)
    have hfree := hscratch.of_rebase hr
    refine ⟨[.core n], Nat.le_refl 1, ?_, ?_, ?_⟩
    · intro x hx
      obtain rfl := List.mem_singleton.1 hx
      exact ⟨hfree, hpc, hr12⟩
    · intro s s₁ hexec c hc
      obtain ⟨m, hcells, -, hchain⟩ := hbefore s s₁ hexec
      obtain ⟨hlo, hhi⟩ := rebase_range hr
      rw [(Rebased.agreesOff_chain hlo hhi hrest hchain).1 c hc, hcells]
    · intro s₂ s₃ hexec
      rcases hafter s₂ s₃ hexec with rfl | ⟨ws, rfl⟩
      · exact ⟨fun _ _ => rfl, rfl, rfl⟩
      · exact ⟨State.agreesOff_assign s₂ _ ws, rfl, hfree.value_assign⟩

/-- What stands for an instruction accesses or computes what it should. -/
theorem performs_of_expand {rest : List Inst} {scavenging : Bool} {d : Int} (hw : t.wide? = some w)
    (he : t.expand p block i rest spAdj scavenging = e) (hok : e.failure = none)
    (hplace : i.frameIndexAt = some 1) (hindex : i.operands[1]? = some (.frameIndex index))
    (ho : p.frame.object? index = some o) (ha : t.address p index o spAdj = .ok a)
    (hop : i.op.IsAddressing) (hd : word a.offset = BitVec.ofInt 32 d)
    (hshort : e.after.length ≤ 1) (henabled : i.Enabled s) :
    t.Performs scavenging i
      (s.read a.base + BitVec.ofInt 32 (d + i.displacement.toInt) + i.indexValue s) e s := by
  have h := expands_of_expand hw he hok
  have hacts {s₁ s₂ : State} (hexec : ExecAll e.before s s₁) (heff : e.inst.Effect s₁ s₂) :=
    h.acts hw hplace hindex ho ha hop hd hshort henabled hexec heff
  obtain ⟨rs, hlen, hrs, hbefore, hafter⟩ := exists_scratch_of_expand hw he hok hshort
  refine ⟨exists_execAll h.stays s, fun s₁ s₂ => hacts, ?_, rs, hlen, hrs, ?_⟩
  · intro s₂ s₃ hexec
    exact (hafter s₂ s₃ hexec).2.2
  · intro s₁ s₂ s₃ hexec heff hrest
    have hfirst := hbefore s s₁ hexec
    have hflags := (h.forms hw hplace hindex ho ha hshort hexec).2.2
    obtain ⟨hlast, hkept, -⟩ := hafter s₂ s₃ hrest
    -- the instruction itself changes the register it is for
    have hmiddle : s₁.AgreesOff [i.register 0] s₂ ∧ s₂.flags = s₁.flags := by
      rcases hacts hexec heff with ⟨k, -, -, -, rfl⟩ | ⟨-, rfl⟩
      · exact k.agreesOff_result _ _ s₁
      · exact ⟨State.agreesOff_assign s₁ _ _, rfl⟩
    refine ⟨hfirst, fun c hc => ?_, hkept.trans (hmiddle.2.trans hflags)⟩
    have hout : ∀ r ∈ rs, c ∉ r.cells := fun r hr => hc r (List.mem_cons_of_mem _ hr)
    have hdst : ∀ r ∈ [i.register 0], c ∉ r.cells := by
      intro r hr
      obtain rfl := List.mem_singleton.1 hr
      exact hc _ List.mem_cons_self
    rw [hlast c hout, hmiddle.1 c hdst, hfirst c hout]

theorem after_expandDirect : (t.expandDirect w p block i spAdj).after = [] := by
  rw [expandDirect]
  split
  · rfl
  · split
    · rfl
    · split <;> rfl

end

/-- Eliminating one frame index is exact. What stands for a load, store or addition of an immediate
afterwards accesses or computes the address of the object, from the register it is addressed
from, with the immediate and the index register of the instruction added, in any state in which
the instruction is executed at all. If a register was borrowed for it, its load has to be a single
instruction; without a scavenger none is borrowed. -/
theorem exact_of_eliminateAt {t : Target} {p q : Procedure} {block place : Nat} {spAdj : Int64}
    {scavenging : Bool} {l : Line} {index : Int64} {o : FrameObject}
    (hwide : t.abi.thumb1Only = false) (hl : (p.lines block)[place]? = some l)
    (hplace : l.inst.frameIndexAt = some 1)
    (hindex : l.inst.operands[1]? = some (.frameIndex index))
    (ho : p.frame.object? index = some o) (hop : l.inst.op.IsAddressing)
    (hok : t.eliminateAt block place spAdj scavenging p = .ok () q) :
    let rest := ((p.lines block).drop (place + 1)).map Line.inst
    let e := t.expand p block l.inst rest spAdj scavenging
    (q.lines block).map Line.inst = ((p.lines block).take place).map Line.inst ++
        (e.before ++ e.inst :: e.after) ++ rest ∧
      (scavenging = false → e.after = []) ∧
      ∃ base d, t.Displaces p index o spAdj base d ∧
        (e.after.length ≤ 1 → ∀ s, l.inst.Enabled s → t.Performs scavenging l.inst
          (s.read base + BitVec.ofInt 32 (d + l.inst.displacement.toInt) + l.inst.indexValue s)
          e s) := by
  intro rest e
  obtain ⟨w, hw⟩ := exists_wide hwide
  have hdrop : (p.lines block).drop place = l :: (p.lines block).drop (place + 1) := by
    obtain ⟨hlt, rfl⟩ := List.getElem?_eq_some_iff.1 hl
    exact List.drop_eq_getElem_cons hlt
  have hblock : ∃ b, p.blocks[block]? = some b := by
    rw [Procedure.lines] at hl
    split at hl
    · next b hb => exact ⟨b, hb⟩
    · cases hl
  have hlines : q = p.setPieces block (((p.lines block).take place).map .line ++ e.pieces l ++
      ((p.lines block).drop (place + 1)).map .line) ∧ e.failure = none := by
    simp only [eliminateAt, hdrop] at hok
    split at hok
    · cases hok
    · next hfailure =>
      obtain ⟨-, rfl⟩ := EStateM.Result.ok.inj hok
      exact ⟨rfl, hfailure⟩
  obtain ⟨rfl, hfailure⟩ := hlines
  obtain ⟨r, hr⟩ := (expands_of_expand hw rfl hfailure).rebase
  obtain ⟨-, a, ha, -⟩ := rebase_folds hr hplace hindex ho
  obtain ⟨d, hdisplaces, hd⟩ := exists_displaces ha
  refine ⟨?_, ?_, a.base, d, hdisplaces, ?_⟩
  · obtain ⟨b, hb⟩ := hblock
    rw [Procedure.map_inst_setPieces hb]
    simp [Expansion.pieces, Piece.inst, Function.comp_def, rest]
  · rintro rfl
    show (t.expand p block l.inst rest spAdj false).after = []
    rw [expand, hw]
    exact after_expandDirect
  · intro hshort s henabled
    exact performs_of_expand hw rfl hfailure hplace hindex ho ha hop hd hshort henabled

/-- A store four bytes below an object, with an index register and under a condition. -/
def storeBelow : Inst :=
  .make .str [.use (.core 0), .frameIndex 0, .use (.core 1), .imm 4100, .cond ⟨1⟩, .use (.core 3)]

/-- A function with such a store, to an object far from the stack pointer. -/
def storesFar : Procedure where
  name := "f"
  blocks := [{ lines := Line.number 0 [
    .make .movr [.use (.core 1), .use (.core 2), .cond .al, .use .noreg], storeBelow,
    .make .bxRet [.cond .al, .use .noreg]] }]
  frame := { objects := [{ size := 4, align := 4, offset := -8 }], stackSize := 70000 }
  fresh := 3

theorem exact_of_eliminateAt_storesFar :
    ∃ q, plainDefault.eliminateAt 0 1 8 false storesFar = .ok () q ∧
      ∃ base d, plainDefault.Displaces storesFar 0 { size := 4, align := 4, offset := -8 } 8 base d ∧
        ∀ s, storeBelow.Enabled s → plainDefault.Performs false storeBelow
          (s.read base + BitVec.ofInt 32 (d + storeBelow.displacement.toInt) +
            storeBelow.indexValue s)
          (plainDefault.expand storesFar 0 storeBelow [.make .bxRet [.cond .al, .use .noreg]] 8 false)
          s := by
  have hok : ∃ q, plainDefault.eliminateAt 0 1 8 false storesFar = .ok () q := ⟨_, rfl⟩
  obtain ⟨q, hok⟩ := hok
  have hl : (storesFar.lines 0)[1]? = some ⟨1, storeBelow⟩ := rfl
  have hstore : storeBelow.op.IsAddressing := .inr (.inl rfl)
  obtain ⟨-, hafter, base, d, hdisplaces, hperforms⟩ :=
    exact_of_eliminateAt rfl hl rfl rfl rfl hstore hok
  refine ⟨q, hok, base, d, hdisplaces, fun s hs => hperforms ?_ s hs⟩
  rw [hafter rfl]
  exact Nat.zero_le 1

end Target

end FrameLowering
