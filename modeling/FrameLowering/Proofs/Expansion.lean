import FrameLowering.Proofs.OffsetFolding
import FrameLowering.Proofs.SavedRegisters

/-!
# Expansions of an instruction

What stands for an instruction once its frame index is eliminated: the instruction alone,
the instruction after an addition to a scratch register, or both between the store and the
load of a register that was borrowed for it. `expands_of_expand` says that an expansion is
one of them and what is known of the scratch register.
-/

namespace FrameLowering

theorem Inst.frameIndexAt_facts {i : Inst} {place : Nat} (h : i.frameIndexAt = some place) :
    ∃ index, i.operands[place]? = some (.frameIndex index) := by
  obtain ⟨hlt, hfi, -⟩ := List.findIdx?_eq_some_iff_getElem.1 h
  rw [List.getElem?_eq_getElem hlt]
  cases ho : i.operands[place] with
  | frameIndex index => exact ⟨index, rfl⟩
  | _ => simp [ho, Operand.isFrameIndex] at hfi

theorem ImmediateField.word_ne_zero {n : Int64} (hlo : -2 ^ 32 < n.toInt) (hhi : n.toInt < 2 ^ 32)
    (hn : n ≠ 0) : word n ≠ 0 := by
  intro h
  have hmod : n.toBitVec.toNat % 2 ^ 32 = 0 := by
    have := congrArg BitVec.toNat h
    rwa [word, BitVec.toNat_setWidth] at this
  have hint := BitVec.toInt_eq_toNat_cond n.toBitVec
  rw [Int64.toInt_toBitVec] at hint
  have hlt := n.toBitVec.isLt
  have hzero : n.toInt = 0 := by split at hint <;> omega
  exact hn (Int64.toInt_inj.1 hzero)

namespace Target

section
variable {t : Target} {w : WideSet} {p : Procedure} {block : Nat} {i : Inst} {spAdj : Int64}

theorem instrSet_of_wide (h : t.wide? = some w) : t.instrSet = w.set := by
  rw [wide?] at h
  rw [instrSet]
  split at h
  · cases h
  next hnot =>
  rw [if_neg hnot]
  split at h
  · next hthumb =>
    obtain rfl := Option.some.inj h
    rw [if_pos hthumb]
    rfl
  · next hthumb =>
    obtain rfl := Option.some.inj h
    rw [if_neg hthumb]
    rfl

/-- An instruction with a base register in the place of its frame index: the object has an
address, and the offset was folded in up to a rest that fits in a word. -/
theorem rebase_cases {r : Rebased} (h : t.rebase w p block i spAdj = .ok r) :
    ∃ index o a, i.frameIndexAt = some r.place ∧
      i.operands[r.place]? = some (.frameIndex index) ∧ p.frame.object? index = some o ∧
      t.address p index o spAdj = .ok a ∧ a.base = r.base ∧
      t.fold w i r.place a = ⟨r.inst, .ok r.rest⟩ ∧
      -2 ^ 32 < r.rest.toInt ∧ r.rest.toInt < 2 ^ 32 := by
  rw [rebase] at h
  cases hplace : i.frameIndexAt with
  | none => simp [hplace] at h
  | some place =>
    obtain ⟨index, hindex⟩ := Inst.frameIndexAt_facts hplace
    simp only [hplace, hindex, Option.map_some, Option.getD_some, Operand.value] at h
    cases hobject : p.frame.object? index with
    | none => simp [hobject] at h
    | some o =>
      simp only [hobject] at h
      cases haddress : t.address p index o spAdj with
      | error f => simp [haddress] at h
      | ok a =>
        simp only [haddress] at h
        cases hrest : (t.fold w i place a).rest with
        | error e => simp [hrest] at h
        | ok rest =>
          simp only [hrest] at h
          split at h
          · simp at h
          · next hrange =>
            obtain rfl := Except.ok.inj h
            simp only [Bool.or_eq_true, decide_eq_true_eq, not_or, Int64.lt_iff_toInt_lt] at hrange
            have hmax : maxWord.toInt = 2 ^ 32 - 1 := rfl
            have hmin : (-maxWord).toInt = -(2 ^ 32 - 1) := rfl
            refine ⟨index, o, a, rfl, hindex, hobject, haddress, rfl, ?_, ?_, ?_⟩
            · rw [← hrest]
            · show _ < rest.toInt
              omega
            · show rest.toInt < _
              omega

/-- A register that an instruction can be given as its base: a core register that the
instruction does not name, and neither the stack pointer nor the frame pointer. -/
structure IsScratch (t : Target) (i : Inst) (r : Reg) : Prop where
  core : ∃ n, r = .core n
  ne_sp : r ≠ Reg.sp
  ne_pointer : r ≠ t.framePointer
  unnamed : ¬ i.refers r

theorem isScratch_of_mem_candidates {r : Reg} (h : r ∈ t.candidates p i RegClass.coreOrder) :
    t.IsScratch i r := by
  simp only [candidates, List.mem_filter, Bool.not_eq_true', Bool.or_eq_false_iff,
    decide_eq_false_iff_not] at h
  obtain ⟨hmem, ⟨⟨hspecial, hpointer⟩, -⟩, hrefers⟩ := h
  have hcore : ∃ n, r = .core n := by
    have horder : r ∈ RegClass.coreOrder := by
      rw [scratchFirst] at hmem
      split at hmem
      · next hin =>
        rcases List.mem_cons.1 hmem with rfl | hmem
        · exact hin
        · exact (List.mem_filter.1 hmem).1
      · exact hmem
    simp only [RegClass.coreOrder, List.mem_cons, List.not_mem_nil, or_false] at horder
    rcases horder with rfl | rfl | rfl | rfl | rfl | rfl | rfl | rfl | rfl | rfl | rfl | rfl |
      rfl | rfl <;> exact ⟨_, rfl⟩
  refine ⟨hcore, ?_, hpointer, by simpa using hrefers⟩
  rintro rfl
  simp [Reg.isSpecial] at hspecial

theorem r12_ne_framePointer (t : Target) : Reg.r12 ≠ t.framePointer := by
  rw [framePointer, Abi.framePointer]
  split <;> decide

theorem isScratch_r12 (h : ¬ i.refers Reg.r12) : t.IsScratch i Reg.r12 :=
  ⟨⟨12, rfl⟩, by decide, t.r12_ne_framePointer, h⟩

/-- The ways to do without a frame index in one go: the offset fits, or a scratch register
takes the rest of it. The scratch register is not callee-saved, or the function saves it. -/
inductive Direct (t : Target) (w : WideSet) (p : Procedure) (block : Nat) (i : Inst)
    (spAdj : Int64) : Expansion → Prop
  | alone {r : Rebased} (hr : t.rebase w p block i spAdj = .ok r) (hrest : r.rest = 0) :
      Direct t w p block i spAdj { inst := r.inst }
  | through {r : Rebased} {scratch : Reg} (hr : t.rebase w p block i spAdj = .ok r)
      (hrest : r.rest ≠ 0) (hscratch : t.IsScratch r.inst scratch)
      (hfree : t.isCalleeSaved scratch → p.layout.isSpilled scratch) :
      Direct t w p block i spAdj { before := r.chain w scratch, inst := r.through scratch }

theorem Direct.failure_eq {e : Expansion} (h : Direct t w p block i spAdj e) :
    e.failure = none := by
  cases h <;> rfl

/-- The ways to do without a frame index. A scratch register that is not free is stored to
the scavenging slot before it is used, and loaded again. -/
inductive Expands (t : Target) (w : WideSet) (p : Procedure) (block : Nat) (i : Inst)
    (spAdj : Int64) : Expansion → Prop
  | direct {e : Expansion} (h : Direct t w p block i spAdj e) : Expands t w p block i spAdj e
  | borrowed {r : Rebased} {scratch : Reg} {spill reload : Expansion}
      (hr : t.rebase w p block i spAdj = .ok r) (hrest : r.rest ≠ 0)
      (hscratch : t.IsScratch r.inst scratch)
      (hspill : Direct t w p block (t.lend p scratch).spill spAdj spill)
      (hreload : Direct t w p block (t.lend p scratch).reload spAdj reload)
      (hfirst : t.expandDirect w p block (t.lend p scratch).spill spAdj = spill)
      (hlast : t.expandDirect w p block (t.lend p scratch).reload spAdj = reload) :
      Expands t w p block i spAdj
        ⟨spill.before ++ spill.inst :: r.chain w scratch, r.through scratch,
          reload.before ++ [reload.inst], none⟩

theorem Expands.rebase {block : Nat} {i : Inst} {spAdj : Int64} {e : Expansion}
    (h : Expands t w p block i spAdj e) : ∃ r, t.rebase w p block i spAdj = .ok r := by
  cases h with
  | direct h =>
    cases h with
    | alone hr => exact ⟨_, hr⟩
    | through hr => exact ⟨_, hr⟩
  | borrowed hr => exact ⟨_, hr⟩

theorem direct_of_expandDirect {e : Expansion} (h : t.expandDirect w p block i spAdj = e)
    (hok : e.failure = none) : Direct t w p block i spAdj e := by
  subst h
  rw [expandDirect] at hok ⊢
  cases hr : t.rebase w p block i spAdj with
  | error e => simp [hr] at hok
  | ok r =>
    simp only [hr] at hok ⊢
    split
    · next hrest => exact .alone hr hrest
    · next hrest =>
      rw [if_neg hrest] at hok
      split
      · next hrefers => simp [hrefers] at hok
      · next hrefers =>
        exact .through hr hrest (isScratch_r12 hrefers) fun h => absurd h t.not_isCalleeSaved_r12

theorem freeScratch?_cases {s : Site} {r : Reg} (h : t.freeScratch? p s = some r) :
    r ∈ t.candidates p s.inst RegClass.coreOrder ∧ (t.isCalleeSaved r → p.layout.isSpilled r) := by
  have hfound (allow : Bool) (hf : t.findUnused p s RegClass.coreOrder allow = some r) :
      r ∈ t.candidates p s.inst RegClass.coreOrder ∧
        (t.isCalleeSaved r → p.layout.isSpilled r) := by
    refine ⟨List.mem_of_find?_eq_some hf, fun hsaved => ?_⟩
    have hexpend := List.find?_some hf
    simp only [isExpendable, hsaved, Bool.not_true, Bool.false_or, Bool.and_eq_true] at hexpend
    exact hexpend.1.2
  rw [freeScratch?] at h
  rcases Option.or_eq_some_iff.1 h with h | ⟨-, h⟩
  · exact hfound false h
  · exact hfound true h

theorem freeScratch?_facts {s : Site} {r : Reg} (h : t.freeScratch? p s = some r) :
    t.IsScratch s.inst r ∧ (t.isCalleeSaved r → p.layout.isSpilled r) :=
  (freeScratch?_cases h).imp_left isScratch_of_mem_candidates

theorem furthest_mem (rest : List Inst) (best : Reg) (distance : Nat) (rs : List Reg) :
    furthest rest best distance rs = best ∨ furthest rest best distance rs ∈ rs := by
  induction rs generalizing best distance with
  | nil => exact .inl rfl
  | cons r rs ih =>
    rw [furthest]
    split
    · exact .inr List.mem_cons_self
    · split
      · rcases ih _ _ with h | h
        · exact .inr (h ▸ List.mem_cons_self)
        · exact .inr (List.mem_cons_of_mem _ h)
      · rcases ih _ _ with h | h
        · exact .inl h
        · exact .inr (List.mem_cons_of_mem _ h)

theorem borrow_cases {s : Site} {b : Borrow} (h : t.borrow p s .gpr = .ok b) :
    b = t.lend p b.reg ∧ b.reg ∈ t.candidates p s.inst RegClass.coreOrder := by
  rw [borrow] at h
  split at h
  · cases h
  have hinfo : RegClass.gpr.info = .ok ⟨4, 4, Reg.cores, RegClass.coreOrder⟩ := rfl
  simp only [hinfo] at h
  cases hrs : t.candidates p s.inst RegClass.coreOrder with
  | nil => simp [hrs] at h
  | cons r rs =>
    simp only [hrs, Except.ok.injEq] at h
    subst h
    refine ⟨rfl, ?_⟩
    rcases furthest_mem s.rest r 0 (r :: rs) with hf | hf
    · exact hf.symm ▸ List.mem_cons_self
    · exact hf

theorem borrow_facts {s : Site} {b : Borrow} (h : t.borrow p s .gpr = .ok b) :
    b = t.lend p b.reg ∧ t.IsScratch s.inst b.reg :=
  (borrow_cases h).imp_right isScratch_of_mem_candidates

theorem expands_of_expand {rest : List Inst} {scavenging : Bool} {e : Expansion}
    (hw : t.wide? = some w) (h : t.expand p block i rest spAdj scavenging = e)
    (hok : e.failure = none) : Expands t w p block i spAdj e := by
  rw [expand, hw] at h
  simp only at h
  split at h
  · subst h
    rw [expandScavenging] at hok ⊢
    cases hr : t.rebase w p block i spAdj with
    | error e => simp [hr] at hok
    | ok r =>
      simp only [hr] at hok ⊢
      split
      · next hrest => exact .direct (.alone hr hrest)
      · next hrest =>
        simp only [if_neg hrest] at hok
        cases hfree : t.freeScratch? p ⟨block, r.inst, rest⟩ with
        | some scratch =>
          obtain ⟨hscratch, hsaved⟩ := freeScratch?_facts hfree
          exact .direct (.through hr hrest hscratch hsaved)
        | none =>
          simp only [hfree] at hok ⊢
          -- no register is free, so that one is stored to the scavenging slot and loaded again
          cases hb : t.borrow p ⟨block, r.inst, rest⟩ .gpr with
          | error f => simp [hb] at hok
          | ok b =>
            obtain ⟨hlend, hscratch⟩ := borrow_facts hb
            simp only [hb] at hok ⊢
            have hspill : b.spill = (t.lend p b.reg).spill := congrArg Borrow.spill hlend
            have hreload : b.reload = (t.lend p b.reg).reload := congrArg Borrow.reload hlend
            rw [expandBorrowed, hspill, hreload] at hok ⊢
            cases hs : (t.expandDirect w p block (t.lend p b.reg).spill spAdj).failure with
            | some f => simp [hs] at hok
            | none =>
              simp only [hs] at hok ⊢
              rw [hok]
              exact .borrowed hr hrest hscratch (direct_of_expandDirect rfl hs)
                (direct_of_expandDirect rfl hok) rfl rfl
  · exact .direct (direct_of_expandDirect h hok)

end

end Target

end FrameLowering
