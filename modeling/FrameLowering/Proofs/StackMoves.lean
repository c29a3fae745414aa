import FrameLowering.Proofs.BodyPoints

/-!
# What moves the stack pointer

Of the lines in front of the elimination walk, some take the stack pointer down on purpose
(`Sinks`), and all others leave it alone (`Line.IsSteady`): those that were there before lowering
by assumption, and those that save, restore or set up a register because they write another one.
The walk adds two things. A call frame marker moves the stack pointer by what it opens or closes
(`Target.openFrame`), and what stands for a frame index spares it (`Expands.sparesStack`). So
wherever a call is met, the stack pointer is below that of the block's entry by what was sunk and
by the call frames that are open there (`piecewise_of_sinks`, `piecewise_of_steady`).
-/

namespace FrameLowering

open ImmediateField (word)

/-! ## Instructions that spare the stack pointer -/

theorem State.sp_assign {s : State} {r : Reg} (hr : r ≠ Reg.sp) (ws : List Word) :
    (s.assign r ws).sp = s.sp := by
  apply (State.agreesOff_assign s r ws).read_eq
  intro x hx hover
  obtain rfl := List.mem_singleton.1 hx
  exact hr (Reg.overlaps_core_iff.1 hover)

namespace Inst

/-- A load, store or sum with another register than the stack pointer. -/
structure SparesStack (i : Inst) : Prop where
  known : i.op.access?.isSome ∨ (i.op.addend? 0).isSome
  register : i.register 0 ≠ Reg.sp

section
variable {i : Inst} {s s' : State} {r : Reg}

theorem SparesStack.sp_eq (h : i.SparesStack) (heff : i.Effect s s') : s'.sp = s.sp := by
  rcases heff with ⟨-, hacts⟩ | ⟨-, rfl⟩
  · rcases h.known with haccess | hsum
    · obtain ⟨k, hk⟩ := Option.isSome_iff_exists.1 haccess
      simp only [Acts, hk] at hacts
      subst hacts
      cases k with
      | load n => exact State.sp_assign h.register _
      | loadSigned => exact State.sp_assign h.register _
      | loadWords n => exact State.sp_assign h.register _
      | store n => rfl
      | storeWords => rfl
    · rw [(acts_addend_iff hsum).1 hacts]
      exact State.sp_assign h.register _
  · rfl

theorem SparesStack.isCall (h : i.SparesStack) : i.info.flags.isCall = false := by
  obtain ⟨hknown, -⟩ := h
  show i.op.info.flags.isCall = false
  revert hknown
  cases i.op <;> decide

theorem SparesStack.isReturn (h : i.SparesStack) : i.isReturn = false := by
  obtain ⟨hknown, -⟩ := h
  show i.op.info.flags.isReturn = false
  revert hknown
  cases i.op <;> decide

theorem IsSum.sparesStack (h : i.IsSum r) (hr : r ≠ Reg.sp) : i.SparesStack :=
  ⟨.inr h.1, h.2 ▸ hr⟩

theorem IsSum.isCall (h : i.IsSum r) : i.info.flags.isCall = false := by
  obtain ⟨hsum, -⟩ := h
  show i.op.info.flags.isCall = false
  revert hsum
  cases i.op <;> decide

end

end Inst

theorem ExecAll.sp_eq {is : List Inst} {s s' : State} (his : ∀ i ∈ is, i.SparesStack)
    (h : ExecAll is s s') : s'.sp = s.sp := by
  induction is generalizing s with
  | nil =>
    obtain rfl : s' = s := h
    rfl
  | cons i is ih =>
    obtain ⟨m, heff, hrest⟩ := h
    obtain ⟨hi, his⟩ := List.forall_mem_cons.1 his
    rw [ih his hrest, hi.sp_eq heff]

/-- An element of two lists in a row is in the first or in the second. -/
theorem append_eq_append_cons {α : Type} {xs ys before after : List α} {x : α}
    (h : xs ++ ys = before ++ x :: after) :
    (∃ rest, xs = before ++ x :: rest ∧ after = rest ++ ys) ∨
      ∃ more, before = xs ++ more ∧ ys = more ++ x :: after := by
  rcases List.append_eq_append_iff.1 h with ⟨more, hbefore, hys⟩ | ⟨tail, hxs, hcons⟩
  · exact .inr ⟨more, hbefore, hys⟩
  · cases tail with
    | nil =>
      refine .inr ⟨[], ?_, hcons.symm⟩
      rw [hxs, List.append_nil, List.append_nil]
    | cons y rest =>
      obtain ⟨rfl, rfl⟩ := List.cons.inj hcons
      exact .inl ⟨rest, hxs, rfl⟩

namespace Target

section
variable {t : Target} {w : WideSet} {p : Procedure} {block : Nat} {i : Inst} {spAdj : Int64}
  {e : Expansion}

/-- The register that a load, store or sum writes or stores is kept with a base in the place of
the frame index. -/
theorem sparesStack_of_rebase {r : Rebased} (hr : t.rebase w p block i spAdj = .ok r)
    (hi : i.SparesStack) (hplace : i.frameIndexAt = some 1) :
    r.inst.SparesStack ∧ ∀ scratch, (r.through scratch).SparesStack := by
  obtain ⟨index, hindex⟩ := Inst.frameIndexAt_facts hplace
  obtain ⟨o, ho⟩ := object_of_rebase hr hplace hindex
  obtain ⟨hone, a, -, -, hfolds, -⟩ := rebase_folds hr hplace hindex ho
  have hknown : r.inst.op.access?.isSome ∨ (r.inst.op.addend? 0).isSome := by
    rw [hfolds.access, hfolds.addend]
    exact hi.known
  have hregister : r.inst.register 0 = i.register 0 := by
    rw [Inst.register, hfolds.dst, Inst.register]
  have hthrough (scratch : Reg) : (r.through scratch).register 0 = i.register 0 := by
    rw [Rebased.through, hone, Inst.register, Inst.getElem?_setOperand_one (by decide), hfolds.dst,
      Inst.register]
  refine ⟨⟨hknown, hregister ▸ hi.register⟩, fun scratch => ⟨hknown, ?_⟩⟩
  exact hthrough scratch ▸ hi.register

theorem Direct.sparesStack (h : Direct t w p block i spAdj e) (hi : i.SparesStack)
    (hplace : i.frameIndexAt = some 1) : e.inst.SparesStack := by
  cases h with
  | alone hr => exact (sparesStack_of_rebase hr hi hplace).1
  | through hr => exact (sparesStack_of_rebase hr hi hplace).2 _

theorem Direct.sparesStack_before (h : Direct t w p block i spAdj e) :
    ∀ j ∈ e.before, j.SparesStack := by
  obtain ⟨r, hsp, -, hsums⟩ := h.sums_before
  intro j hj
  exact (hsums j hj).sparesStack hsp

/-- A load or store of a slot spares the stack pointer unless it is the register. -/
theorem sparesStack_storeToSlot (w : WideSet) {r : Reg} (hr : r.HasSlot) (hne : r ≠ Reg.sp)
    (index : Int64) : (w.set.storeToSlot r index).SparesStack := by
  refine ⟨.inl ?_, ?_⟩
  · rcases hr with ⟨n, rfl⟩ | ⟨n, rfl⟩
    all_goals cases w <;> rfl
  · rw [(w.isSlotAccess_storeToSlot hr index).register_zero]
    exact hne

theorem sparesStack_loadFromSlot (w : WideSet) {r : Reg} (hr : r.HasSlot) (hne : r ≠ Reg.sp)
    (index : Int64) : (w.set.loadFromSlot r index).SparesStack := by
  refine ⟨.inl ?_, ?_⟩
  · rcases hr with ⟨n, rfl⟩ | ⟨n, rfl⟩
    all_goals cases w <;> rfl
  · rw [(w.isSlotAccess_loadFromSlot hr index).register_zero]
    exact hne

/-- What comes up around an instruction whose frame index was eliminated spares the stack
pointer. -/
theorem Expands.sparesStack (h : Expands t w p block i spAdj e) (hw : t.wide? = some w) :
    (∀ j ∈ e.before, j.SparesStack) ∧ ∀ j ∈ e.after, j.SparesStack := by
  cases h with
  | direct h =>
    refine ⟨h.sparesStack_before, ?_⟩
    intro j hj
    rw [h.stays.2.2] at hj
    exact absurd hj List.not_mem_nil
  | @borrowed r scratch spill reload hr hrest hscratch hspill hreload =>
    obtain ⟨n, rfl⟩ := hscratch.core
    have hslot : (Reg.core n).HasSlot := .inl ⟨n, rfl⟩
    rw [Target.lend, instrSet_of_wide hw] at hspill hreload
    constructor
    · intro j hj
      rcases List.mem_append.1 hj with hj | hj
      · exact hspill.sparesStack_before j hj
      rcases List.mem_cons.1 hj with rfl | hj
      · exact hspill.sparesStack (sparesStack_storeToSlot w hslot hscratch.ne_sp _)
          (w.isSlotAccess_storeToSlot hslot _).place
      · exact (WideSet.isSum_of_mem_addConstant hj).sparesStack hscratch.ne_sp
    · intro j hj
      rcases List.mem_append.1 hj with hj | hj
      · exact hreload.sparesStack_before j hj
      · obtain rfl := List.mem_singleton.1 hj
        exact hreload.sparesStack (sparesStack_loadFromSlot w hslot hscratch.ne_sp _)
          (w.isSlotAccess_loadFromSlot hslot _).place

theorem Expands.sparesStack_inst (h : Expands t w p block i spAdj e) (hi : i.SparesStack)
    (hplace : i.frameIndexAt = some 1) : e.inst.SparesStack := by
  cases h with
  | direct h => exact h.sparesStack hi hplace
  | borrowed hr => exact (sparesStack_of_rebase hr hi hplace).2 _

/-- No call has a frame index that can be eliminated. -/
theorem Expands.isCall (h : Expands t w p block i spAdj e) : e.inst.info.flags.isCall = false := by
  have hrebased {r : Rebased} (hr : t.rebase w p block i spAdj = .ok r) :
      r.inst.info.flags.isCall = false := by
    obtain ⟨_, _, _, -, -, -, -, -, hfold, -⟩ := rebase_cases hr
    rw [(fold_operands hfold).1]
    exact (flags_of_fold hfold).2
  cases h with
  | direct h =>
    cases h with
    | alone hr => exact hrebased hr
    | through hr => exact hrebased hr
  | borrowed hr => exact hrebased hr

/-- A call after the walk is a line that the walk has left as it was. -/
theorem Walks.mem_of_isCall {spAdj' : Int64} {ls : List Line} {ps : List Piece} {x : Piece}
    (h : Walks t w p block spAdj ls spAdj' ps) (hw : t.wide? = some w) (hx : x ∈ ps)
    (hcall : x.inst.info.flags.isCall) : ∃ l ∈ ls, x = .line l := by
  induction h with
  | nil => exact absurd hx List.not_mem_nil
  | @marker _ _ l _ m _ _ hm _ ih =>
    rcases List.mem_append.1 hx with hx | hx
    · obtain ⟨i, hi, rfl⟩ := List.mem_map.1 hx
      obtain ⟨v, hinsts, -⟩ := callFrame_facts hw hm
      rw [hinsts] at hi
      have hsum : i.IsSum Reg.sp := WideSet.isSum_of_mem_addConstant hi
      exact absurd hcall (Bool.eq_false_iff.1 hsum.isCall)
    · obtain ⟨l, hl, rfl⟩ := ih hx
      exact ⟨l, List.mem_cons_of_mem _ hl, rfl⟩
  | plain _ _ _ ih =>
    rcases List.mem_cons.1 hx with rfl | hx
    · exact ⟨_, List.mem_cons_self, rfl⟩
    · obtain ⟨l, hl, rfl⟩ := ih hx
      exact ⟨l, List.mem_cons_of_mem _ hl, rfl⟩
  | expand _ he _ ih =>
    rcases List.mem_append.1 hx with hx | hx
    · -- neither what is put around the line nor the line itself is a call
      exfalso
      obtain ⟨hbefore, hafter⟩ := he.sparesStack hw
      rcases List.mem_append.1 hx with hx | hx
      · obtain ⟨i, hi, rfl⟩ := List.mem_map.1 hx
        exact Bool.eq_false_iff.1 (hbefore i hi).isCall hcall
      rcases List.mem_cons.1 hx with rfl | hx
      · exact Bool.eq_false_iff.1 he.isCall hcall
      · obtain ⟨i, hi, rfl⟩ := List.mem_map.1 hx
        exact Bool.eq_false_iff.1 (hafter i hi).isCall hcall
    · obtain ⟨l, hl, rfl⟩ := ih hx
      exact ⟨l, List.mem_cons_of_mem _ hl, rfl⟩

end

/-! ## Open call frames -/

/-- Bytes of the call frames that are open after some lines of a block. -/
def openFrame (t : Target) (p : Procedure) (ls : List Line) : Int64 :=
  ((setupSizes ls).map (t.markerAmount p)).sum - ((destroySizes ls).map (t.markerAmount p)).sum

section
variable {t : Target} {w : WideSet} {p : Procedure} {block : Nat} {spAdj spAdj' : Int64}
  {ls ms : List Line} {l : Line} {ps : List Piece}

theorem openFrame_append : t.openFrame p (ls ++ ms) = t.openFrame p ls + t.openFrame p ms := by
  simp only [openFrame, setupSizes, destroySizes, List.filter_append, List.map_append,
    List.sum_append]
  grind

theorem openFrame_of_balanced (h : (setupSizes ls).Perm (destroySizes ls)) :
    t.openFrame p ls = 0 := by
  rw [openFrame, sum_eq_of_balanced h]
  exact Int64.sub_self _

/-- A walk counts the bytes of the call frames that it opens. -/
theorem Walks.spAdj_eq_openFrame (h : Walks t w p block spAdj ls spAdj' ps)
    (hw : t.wide? = some w) : spAdj' = spAdj + t.openFrame p ls := by
  rw [h.spAdj_eq hw, openFrame]
  grind

theorem openFrame_of_unmarked (h : ∀ l ∈ ls, l.inst.op.isMarker = false) :
    t.openFrame p ls = 0 := by
  have hnone (flag : OpcodeFlags → Bool)
      (hflag : ∀ op : Opcode, op.isMarker = false → flag op.info.flags = false) :
      ls.filter (fun l => flag l.inst.info.flags) = [] := by
    rw [List.filter_eq_nil_iff]
    intro l hl
    exact Bool.eq_false_iff.1 (hflag _ (h l hl))
  rw [openFrame, setupSizes, destroySizes, hnone OpcodeFlags.isSetup, hnone OpcodeFlags.isDestroy]
  · exact Int64.sub_self _
  · intro op hop
    exact (Bool.or_eq_false_iff.1 hop).2
  · intro op hop
    exact (Bool.or_eq_false_iff.1 hop).1

theorem openFrame_concat (h : l.inst.op.isMarker = false) :
    t.openFrame p (ls ++ [l]) = t.openFrame p ls := by
  have hnone : t.openFrame p [l] = 0 := openFrame_of_unmarked (by simpa using h)
  rw [openFrame_append, hnone, Int64.add_zero]

end

end Target

/-! ## Lines that leave the stack pointer alone -/

/-- A line that leaves the stack pointer where it is: it was there before lowering, with a label
below `first`, or it has a frame index and writes another register. -/
def Line.IsSteady (first : Nat) (l : Line) : Prop :=
  l.label < first ∨ l.inst.SparesStack ∧ l.inst.frameIndexAt = some 1

namespace Target

section
variable {t : Target} {w : WideSet} {p : Procedure} {block first : Nat} {spAdj spAdj' : Int64}
  {ls : List Line} {ps : List Piece} {base : Word} {s : State}
  {allowed : Line → State → State → Prop}

/-- New instructions among which there is no call, where something is to hold at calls only. -/
theorem piecewise_fresh_of_noCall {is : List Inst} {ps : List Piece} {met : Line → State → Prop}
    {post : State → Prop} (hcalls : ∀ i ∈ is, i.info.flags.isCall = false)
    (h : ∀ s', ExecAll is s s' →
      Piecewise allowed (fun l s => l.inst.info.flags.isCall → met l s) post ps s') :
    Piecewise allowed (fun l s => l.inst.info.flags.isCall → met l s) post
      (is.map .fresh ++ ps) s := by
  refine piecewise_fresh ?_ h
  intro done i rest s' hsplit _ _ hcall
  have hi : i ∈ is := hsplit ▸ List.mem_append_right _ List.mem_cons_self
  exact absurd hcall (Bool.eq_false_iff.1 (hcalls i hi))

/-- What a marker becomes takes the stack pointer down by the call frame that it opens. -/
theorem sp_of_callFrame {l : Line} {m : StackMove} {s' : State} (hw : t.wide? = some w)
    (hop : l.inst.op.isMarker) (hm : t.callFrame p block l.inst = .ok m)
    (halways : l.inst.predicate.1 = Cond.al) (hexec : ExecAll m.insts s s') :
    s'.sp = s.sp - word (t.openFrame p [l]) := by
  obtain ⟨v, hinsts, hdelta, -⟩ := callFrame_facts hw hm
  -- the walk through the marker alone counts what the marker opens
  have hwalk : Walks t w p block 0 [l] (0 + m.delta) (m.insts.map .fresh ++ []) :=
    .marker hop hm .nil
  have hopen : t.openFrame p [l] = -v := by
    have hcount := hwalk.spAdj_eq_openFrame hw
    rw [hdelta] at hcount
    grind
  rw [hinsts, halways] at hexec
  rw [hopen, ImmediateField.word_neg, WideSet.execAll_moveStack hexec]
  show (s.write (.core 13) (s.sp + word v)).read (.core 13) = _
  rw [State.read_write_core]
  bv_omega

/-- Where a call is met among such lines, the stack pointer is below `base` by the call frames
that are open there. -/
theorem piecewise_of_steady (done : List Line) (h : Walks t w p block spAdj ls spAdj' ps)
    (hw : t.wide? = some w)
    (hlines : ∀ l ∈ ls, l.IsSteady first ∧ (l.inst.op.isMarker → l.inst.predicate.1 = Cond.al))
    (hallowed : ∀ l s s', l.label < first → allowed l s s' → s'.sp = s.sp)
    (hs : s.sp = base - word (t.openFrame p done)) :
    Piecewise allowed
      (fun l s => l.inst.info.flags.isCall → ∃ xs ys, done ++ ls = xs ++ l :: ys ∧
        s.sp = base - word (t.openFrame p xs))
      (fun s => s.sp = base - word (t.openFrame p (done ++ ls))) ps s := by
  -- `done` grows by one line in every case but the first, and the stack pointer keeps up with it
  induction h generalizing done s with
  | nil =>
    apply piecewise_nil
    rw [List.append_nil]
    exact hs
  | @marker spAdj _ l ls m _ hop hm hwalk ih =>
    obtain ⟨hl, hrest⟩ := List.forall_mem_cons.1 hlines
    obtain ⟨v, hinsts, -⟩ := callFrame_facts hw hm
    rw [List.append_cons]
    apply piecewise_fresh_of_noCall
    · intro i hi
      rw [hinsts] at hi
      have hsum : i.IsSum Reg.sp := WideSet.isSum_of_mem_addConstant hi
      exact hsum.isCall
    · intro s' hexec
      apply ih (done ++ [l]) hrest
      rw [sp_of_callFrame hw hop hm (hl.2 hop) hexec, hs, openFrame_append,
        ImmediateField.word_add]
      bv_omega
  | @plain spAdj _ l ls _ hop hplace _ ih =>
    obtain ⟨hl, hrest⟩ := List.forall_mem_cons.1 hlines
    -- a line without a frame index is steady only if it was there before lowering
    have hold : l.label < first := by
      rcases hl.1 with hold | ⟨-, hindex⟩
      · exact hold
      · rw [hplace] at hindex
        cases hindex
    apply piecewise_line
    · intro _
      exact ⟨done, ls, rfl, hs⟩
    · intro s' _ hstep
      rw [List.append_cons]
      apply ih (done ++ [l]) hrest
      rw [openFrame_concat (Bool.eq_false_iff.2 hop), hallowed l s s' hold hstep, hs]
  | @expand spAdj _ l ls e ps hop he _ ih =>
    obtain ⟨hl, hrest⟩ := List.forall_mem_cons.1 hlines
    obtain ⟨hbefore, hafter⟩ := he.sparesStack hw
    rw [Expansion.pieces, List.append_assoc, List.cons_append, List.append_cons]
    apply piecewise_fresh_of_noCall fun i hi => (hbefore i hi).isCall
    intro s₁ hexec
    apply piecewise_line
    · intro hcall
      exact absurd hcall (Bool.eq_false_iff.1 he.isCall)
    intro s₂ heff hstep
    have hkept : s₂.sp = s₁.sp := by
      rcases hl.1 with hold | ⟨hspares, hindex⟩
      · exact hallowed { l with inst := e.inst } s₁ s₂ hold hstep
      · exact (he.sparesStack_inst hspares hindex).sp_eq heff
    apply piecewise_fresh_of_noCall fun i hi => (hafter i hi).isCall
    intro s₃ hexec'
    apply ih (done ++ [l]) hrest
    rw [openFrame_concat (Bool.eq_false_iff.2 hop), hexec'.sp_eq hafter, hkept,
      hexec.sp_eq hbefore, hs]

end

end Target

/-! ## Lines that take the stack pointer down -/

/-- An instruction that stores or adds. -/
def Inst.StoresOrAdds (i : Inst) : Prop :=
  i.info.flags.isStore ∨ (i.op.addend? 0).isSome

section
variable {i : Inst}

/-- Such an instruction is of no other kind. -/
theorem Inst.StoresOrAdds.facts (h : i.StoresOrAdds) :
    i.op.isMarker = false ∧ i.info.flags.isCall = false ∧ i.isReturn = false ∧
      i.info.flags.isLoad = false := by
  obtain ⟨op, os⟩ := i
  change op.info.flags.isStore ∨ (op.addend? 0).isSome at h
  show op.isMarker = false ∧ op.info.flags.isCall = false ∧ op.info.flags.isReturn = false ∧
    op.info.flags.isLoad = false
  revert h
  cases op <;> decide

end

/-- Lines that take the stack pointer down by `v` bytes: moves of it, and stores and sums between
them that leave it alone. -/
inductive Sinks (w : WideSet) (first : Nat) : Int64 → List Line → Prop
  | nil : Sinks w first 0 []
  | move {v u : Int64} {ls ms : List Line} (h : Sinks w first v ls)
      (hms : Line.IsNew first (w.moveStackAlways (-u)) ms) : Sinks w first (v + u) (ls ++ ms)
  | still {v : Int64} {ls ms : List Line} (h : Sinks w first v ls)
      (hms : ∀ l ∈ ms, l.IsSteady first ∧ l.inst.StoresOrAdds) : Sinks w first v (ls ++ ms)

theorem Sinks.storesOrAdds {w : WideSet} {first : Nat} {v : Int64} {ls : List Line} {l : Line}
    (h : Sinks w first v ls) (hl : l ∈ ls) : l.inst.StoresOrAdds := by
  induction h with
  | nil => exact absurd hl List.not_mem_nil
  | move _ hms ih =>
    rcases List.mem_append.1 hl with hl | hl
    · exact ih hl
    · have hsum : l.inst.IsSum Reg.sp := WideSet.isSum_of_mem_addConstant (hms.mem hl)
      exact .inr hsum.1
  | still _ hms ih =>
    rcases List.mem_append.1 hl with hl | hl
    · exact ih hl
    · exact (hms l hl).2

namespace Target

section
variable {t : Target} {w : WideSet} {p : Procedure} {block first : Nat} {v spAdj : Int64}
  {ls : List Line} {ps : List Piece} {s : State} {allowed : Line → State → State → Prop}

theorem piecewise_of_moveStack (hls : Line.IsNew first (w.moveStackAlways v) ls)
    (h : Walks t w p block 0 ls spAdj ps) :
    Piecewise allowed (fun _ _ => True) (fun s' => s'.sp = s.sp + word v) ps s := by
  have hmeets : Meets t w p (.idle allowed) first (w.moveStackAlways v) (fun m => m = s)
      (fun s' => s'.sp = s.sp + word v) := by
    refine meets_plain (Watch.passesNew_idle allowed first)
      (fun i hi => WideSet.plain_of_mem_addConstant hi) ?_
    rintro _ s' rfl hexec
    rw [WideSet.execAll_moveStackAlways hexec]
    exact State.read_write_core _ 13 _
  intro next
  have hlines := Watch.lines_number (Watch.passesNew_idle allowed 0) (Nat.zero_le next)
    (hmeets.pieces block ls spAdj ps s hls h rfl)
  exact throughout_of_lines hlines fun _ _ _ _ _ _ => trivial

/-- After such lines the stack pointer is where they take it. -/
theorem piecewise_of_sinks (hsinks : Sinks w first v ls) (h : Walks t w p block 0 ls spAdj ps)
    (hw : t.wide? = some w)
    (hallowed : ∀ l s s', l.label < first → allowed l s s' → s'.sp = s.sp) :
    Piecewise allowed (fun _ _ => True) (fun s' => s'.sp = s.sp - word v) ps s := by
  induction hsinks generalizing spAdj ps with
  | nil =>
    cases h
    apply piecewise_nil
    rw [ImmediateField.word_zero]
    bv_omega
  | @move v u ls ms hls hms ih =>
    obtain ⟨mid, qs, rs, hqs, hrs, rfl⟩ := h.append_inv
    -- none of these lines is a marker, so that the walk counts nothing
    obtain rfl := hqs.spAdj_of_unmarked fun l hl => (hls.storesOrAdds hl).facts.1
    apply Piecewise.append
    refine (ih hqs).mono (fun _ _ h => h) ?_
    intro s₁ hs₁
    refine (piecewise_of_moveStack hms hrs).mono (fun _ _ h => h) ?_
    intro s₂ hs₂
    rw [hs₂, hs₁, ImmediateField.word_neg, ImmediateField.word_add]
    bv_omega
  | @still v ls ms hls hms ih =>
    obtain ⟨mid, qs, rs, hqs, hrs, rfl⟩ := h.append_inv
    have hunmarked : ∀ l ∈ ms, l.inst.op.isMarker = false := fun l hl => (hms l hl).2.facts.1
    apply Piecewise.append
    refine (ih hqs).mono (fun _ _ h => h) ?_
    intro s₁ hs₁
    have hlines : ∀ l ∈ ms, l.IsSteady first ∧
        (l.inst.op.isMarker → l.inst.predicate.1 = Cond.al) := by
      intro l hl
      refine ⟨(hms l hl).1, fun hop => ?_⟩
      rw [hunmarked l hl] at hop
      cases hop
    have hzero : s₁.sp = s₁.sp - word (t.openFrame p []) := by
      rw [openFrame_of_unmarked fun l hl => absurd hl List.not_mem_nil, ImmediateField.word_zero]
      bv_omega
    refine (piecewise_of_steady [] hrs hw hlines hallowed hzero).mono (fun _ _ _ => trivial) ?_
    intro s₂ hs₂
    rw [List.nil_append, openFrame_of_unmarked hunmarked, ImmediateField.word_zero] at hs₂
    rw [hs₂, hs₁]
    bv_omega

end

end Target

end FrameLowering
