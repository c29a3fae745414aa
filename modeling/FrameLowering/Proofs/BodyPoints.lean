import FrameLowering.Proofs.LoweredExecution
import FrameLowering.Proofs.Throughout

/-!
# Between prologue and epilogue

The points of a run at which the frame stands: the prologue is behind, and the epilogue of a
block that returns is still ahead (`Target.IsBodyPoint`). There the frame pointer points at its
own slot and the slots of saved registers hold the caller's values (`Target.Chained`), also
between the instructions that stand for one line of the body.
-/

namespace FrameLowering

open ImmediateField (word)

namespace Procedure

/-- The slots of saved registers hold the values on entry. -/
def HoldsSaved (p : Procedure) (entry s : State) : Prop :=
  ∀ σ ∈ p.frame.saved, ∀ o, p.frame.object? σ.index = some o →
    s.mem.loadWords (p.home entry o) σ.reg.cells.length = entry.value σ.reg

/-- A step leaves the bytes of the slots of saved registers alone. -/
def KeepsSaved (p : Procedure) (entry s s' : State) : Prop :=
  ∀ σ ∈ p.frame.saved, ∀ o b, p.frame.object? σ.index = some o →
    Memory.Within (p.home entry o) o.size.toInt.toNat b → s'.mem b = s.mem b

/-- A return at the end of a block. -/
def IsExit (p : Procedure) (l : Line) : Prop :=
  ∃ b ∈ p.blocks, l ∈ b.exit

end Procedure

namespace Target

/-- The frame pointer points at its own slot, if it is set up, and the slots of saved registers
hold the values on entry. -/
structure Chained (t : Target) (p : Procedure) (entry s : State) : Prop where
  pointer : p.layout.hasStackFrame → t.setsPointer p →
    ∀ o, p.frame.object? p.layout.fpSpillIndex = some o → s.read t.framePointer = p.home entry o
  saved : p.HoldsSaved entry s

/-- What holds between the lines of a body. -/
structure Anchored (t : Target) (p : Procedure) (entry : State) (spAdj : Int64) (s : State) :
    Prop where
  located : t.Located p entry spAdj s
  saved : p.HoldsSaved entry s

/-- Steps in which the lines of `p` leave reserved registers and the slots alone that its lowered
form `q` has for saved registers, and that do not go past a return at the end of a block. -/
def LeavesSaved (t : Target) (p q : Procedure) (entry : State) (l : Line) (s s' : State) : Prop :=
  ¬ p.IsExit l ∧ (l.label < p.fresh → t.KeepsReserved p s s' ∧ q.KeepsSaved entry s s')

section
variable {t : Target} {w : WideSet} {p : Procedure} {entry s s' : State} {spAdj : Int64} {r : Reg}

theorem Anchored.chained (h : t.Anchored p entry spAdj s) : t.Chained p entry s :=
  ⟨h.located.pointer, h.saved⟩

theorem holdsSaved_congr (h : p.HoldsSaved entry s)
    (hmem : ∀ σ ∈ p.frame.saved, ∀ o, p.frame.object? σ.index = some o → ∀ b,
      Memory.Within (p.home entry o) (4 * σ.reg.cells.length) b → s'.mem b = s.mem b) :
    p.HoldsSaved entry s' := by
  intro σ hσ o ho
  have hlen := length_cells_le σ.reg
  rw [Memory.loadWords_congr (by omega) (hmem σ hσ o ho)]
  exact h σ hσ o ho

theorem Chained.of_sum (h : t.Chained p entry s) (hr : r ≠ t.framePointer)
    (hstep : s.AgreesOff [r] s' ∧ s'.mem = s.mem) : t.Chained p entry s' := by
  obtain ⟨hagrees, hmem⟩ := hstep
  constructor
  · intro hframe hsets o ho
    rw [← h.pointer hframe hsets o ho]
    apply hagrees.read_eq
    intro x hx hover
    obtain rfl := List.mem_singleton.1 hx
    obtain ⟨n, hn⟩ := t.framePointer_core
    rw [hn] at hover hr
    exact hr (Reg.overlaps_core_iff.1 hover)
  · apply holdsSaved_congr h.saved
    intro σ _ o _ b _
    rw [hmem]

theorem Anchored.of_sum (h : t.Anchored p entry spAdj s) (hsp : r ≠ Reg.sp)
    (hpointer : r ≠ t.framePointer) (hstep : s.AgreesOff [r] s' ∧ s'.mem = s.mem) :
    t.Anchored p entry spAdj s' := by
  constructor
  · refine h.located.of_free ?_ hstep.1
    intro x hx
    obtain rfl := List.mem_singleton.1 hx
    exact ⟨hsp, hpointer⟩
  · exact (h.chained.of_sum hpointer hstep).saved

/-- A line of the body, or what became of it. -/
theorem Anchored.step (h : t.Anchored p entry spAdj s) (hslots : t.HasSlots p entry)
    (hreserved : t.KeepsReserved p s s') (hkeeps : p.KeepsSaved entry s s') :
    t.Anchored p entry spAdj s' := by
  refine ⟨h.located.step hreserved, ?_⟩
  apply holdsSaved_congr h.saved
  intro σ hσ o ho b hb
  apply hkeeps σ hσ o b ho
  rw [hslots.saved σ hσ o ho]
  exact hb

/-- The stack pointer moves down by the bytes that are counted. -/
theorem Anchored.moveStack {v : Int64} {pred : Reg} (h : t.Anchored p entry spAdj s)
    (hexec : ExecAll (w.moveStack v Cond.al pred) s s') : t.Anchored p entry (spAdj + -v) s' := by
  have hsteady : t.Steady p entry False [] spAdj s := ⟨h.located, False.elim⟩
  have hsum := ExecAll.of_sums (fun i hi => WideSet.isSum_of_mem_addConstant hi) hexec
  refine ⟨(hsteady.moveStack hexec).located, ?_⟩
  exact (h.chained.of_sum (Ne.symm t.framePointer_ne_sp) hsum).saved

/-- The store of a register that is borrowed goes to the scavenging slot. -/
theorem Anchored.lend {block : Nat} {n : Fin 16} {e : Expansion} (h : t.Anchored p entry spAdj s)
    (hw : t.wide? = some w) (hlaid : t.IsLaidOut p) (hslots : t.HasSlots p entry)
    (he : Direct t w p block (t.lend p (.core n)).spill spAdj e)
    (hexec : ExecAll (e.before ++ [e.inst]) s s') : t.Anchored p entry spAdj s' := by
  have hspill : (t.lend p (.core n)).spill =
      w.set.storeToSlot (.core n) p.frame.scavengingIndex := by
    rw [Target.lend, instrSet_of_wide hw]
  rw [hspill] at he
  obtain ⟨o, rs, ho, hfree, hagrees, hmem⟩ :=
    he.execAll_store (h.located.finds hlaid hlaid.scavenging) hexec
  constructor
  · refine h.located.of_free ?_ hagrees
    intro x hx
    exact ⟨(hfree x hx).1.ne_sp, (hfree x hx).1.ne_pointer⟩
  · exact holdsSaved_congr h.saved (mem_of_storeWords hslots ho hmem)

/-- The load of a register that was borrowed changes nothing else. -/
theorem Anchored.giveBack {block : Nat} {n : Fin 16} {e : Expansion}
    (h : t.Anchored p entry spAdj s) (hw : t.wide? = some w) (hlaid : t.IsLaidOut p)
    (hpointers : Reg.core n ≠ Reg.sp ∧ Reg.core n ≠ t.framePointer)
    (he : Direct t w p block (t.lend p (.core n)).reload spAdj e)
    (hexec : ExecAll (e.before ++ [e.inst]) s s') : t.Anchored p entry spAdj s' := by
  have hreload : (t.lend p (.core n)).reload =
      w.set.loadFromSlot (.core n) p.frame.scavengingIndex := by
    rw [Target.lend, instrSet_of_wide hw]
  rw [hreload] at he
  obtain ⟨o, rs, ho, hfree, hagrees, hmem, -⟩ :=
    he.execAll_load (h.located.finds hlaid hlaid.scavenging) hexec
  constructor
  · refine h.located.of_free ?_ hagrees
    intro x hx
    rcases List.mem_cons.1 hx with rfl | hx
    · exact hpointers
    · exact ⟨(hfree x hx).1.ne_sp, (hfree x hx).1.ne_pointer⟩
  · apply holdsSaved_congr h.saved
    intro σ _ o _ b _
    rw [hmem]

end

/-! ## The lines of a body -/

section
variable {t : Target} {w : WideSet} {p : Procedure} {block : Nat} {entry s s' : State}
  {spAdj spAdj' : Int64} {allowed : Line → State → State → Prop} {l : Line} {e : Expansion}

/-- Instructions before an access form its base in a register that is neither pointer. -/
theorem Direct.sums_before {i : Inst} (h : Direct t w p block i spAdj e) :
    ∃ r, r ≠ Reg.sp ∧ r ≠ t.framePointer ∧ ∀ j ∈ e.before, j.IsSum r := by
  cases h with
  | alone =>
    exact ⟨Reg.r12, by decide, t.r12_ne_framePointer, fun j hj => absurd hj List.not_mem_nil⟩
  | through _ _ hscratch =>
    exact ⟨_, hscratch.ne_sp, hscratch.ne_pointer, fun j hj => WideSet.isSum_of_mem_addConstant hj⟩

/-- The instructions before a line leave the frame as it is, wherever they are interrupted. -/
theorem Anchored.before {i : Inst} (hs : t.Anchored p entry spAdj s)
    (he : Expands t w p block i spAdj e) (hw : t.wide? = some w) (hlaid : t.IsLaidOut p)
    (hslots : t.HasSlots p entry) {done rest : List Inst} (hsplit : e.before = done ++ rest)
    (hexec : ExecAll done s s') : t.Anchored p entry spAdj s' := by
  cases he with
  | direct he =>
    obtain ⟨r, hsp, hpointer, hbefore⟩ := he.sums_before
    refine hs.of_sum hsp hpointer (ExecAll.of_sums ?_ hexec)
    intro j hj
    exact hbefore j (hsplit ▸ List.mem_append_left _ hj)
  | @borrowed r scratch spill reload hr hrest hscratch hspill =>
    obtain ⟨x, hsp, hpointer, hbefore⟩ := hspill.sums_before
    -- either the store is still ahead, or the base is being formed in the borrowed register
    rcases List.append_eq_append_iff.1 hsplit with ⟨more, hmore, hend⟩ | ⟨ahead, hahead, -⟩
    · cases more with
      | nil =>
        rw [List.append_nil] at hmore
        exact hs.of_sum hsp hpointer (ExecAll.of_sums (hmore ▸ hbefore) hexec)
      | cons j more =>
        obtain ⟨rfl, hchain⟩ := List.cons.inj hend
        rw [hmore] at hexec
        obtain ⟨m, hstore, hafter⟩ := execAll_append_cons.1 hexec
        obtain ⟨n, rfl⟩ := hscratch.core
        have hlent := hs.lend hw hlaid hslots hspill hstore
        refine hlent.of_sum hscratch.ne_sp hscratch.ne_pointer (ExecAll.of_sums ?_ hafter)
        intro j hj
        have hin : j ∈ r.chain w (.core n) := hchain ▸ List.mem_append_left _ hj
        exact WideSet.isSum_of_mem_addConstant hin
    · refine hs.of_sum hsp hpointer (ExecAll.of_sums ?_ hexec)
      intro j hj
      exact hbefore j (hahead ▸ List.mem_append_left _ hj)

/-- So do the instructions after a line. -/
theorem Anchored.after {i : Inst} (hs : t.Anchored p entry spAdj s)
    (he : Expands t w p block i spAdj e) (hw : t.wide? = some w) (hlaid : t.IsLaidOut p)
    {done rest : List Inst} (hsplit : e.after = done ++ rest) (hexec : ExecAll done s s') :
    t.Anchored p entry spAdj s' := by
  cases he with
  | direct he =>
    have hnil : done = [] := (List.append_eq_nil_iff.1 (hsplit.symm.trans he.stays.2.2)).1
    subst hnil
    obtain rfl : s' = s := hexec
    exact hs
  | borrowed hr hrest hscratch _ hreload =>
    obtain ⟨x, hsp, hpointer, hbefore⟩ := hreload.sums_before
    cases rest with
    | nil =>
      rw [List.append_nil] at hsplit
      subst hsplit
      obtain ⟨n, rfl⟩ := hscratch.core
      exact hs.giveBack hw hlaid ⟨hscratch.ne_sp, hscratch.ne_pointer⟩ hreload hexec
    | cons j rest =>
      -- the load is the last of these instructions, so it is still ahead
      refine hs.of_sum hsp hpointer (ExecAll.of_sums ?_ hexec)
      intro k hk
      have hinit := congrArg List.dropLast hsplit
      rw [List.dropLast_concat, List.dropLast_append_cons] at hinit
      exact hbefore k (hinit ▸ List.mem_append_left _ hk)

/-- What is allowed of the lines of a body. -/
def KeepsFrame (t : Target) (p : Procedure) (entry : State)
    (allowed : Line → State → State → Prop) (first : Nat) : Prop :=
  ∀ l s s', l.label < first → allowed l s s' → t.KeepsReserved p s s' ∧ p.KeepsSaved entry s s'

/-- The frame stands throughout a body. -/
theorem piecewise_of_walks {first : Nat} {ls : List Line} {ps : List Piece}
    (hw : t.wide? = some w) (h : Walks t w p block spAdj ls spAdj' ps)
    (hold : ∀ l ∈ ls, l.label < first ∧ (l.inst.op.isMarker → l.inst.predicate.1 = Cond.al))
    (hallowed : t.KeepsFrame p entry allowed first) (hlaid : t.IsLaidOut p)
    (hslots : t.HasSlots p entry) (hs : t.Anchored p entry spAdj s) :
    Piecewise allowed (fun _ => t.Chained p entry) (t.Anchored p entry spAdj') ps s := by
  induction h generalizing s with
  | nil => exact piecewise_nil hs
  | @marker spAdj _ l _ m _ hop hm _ ih =>
    obtain ⟨v, hinsts, hdelta, -⟩ := callFrame_facts hw hm
    -- while the stack pointer moves, the frame pointer keeps the frame in place
    apply piecewise_fresh
    · intro done i rest s' hsplit hexec _
      refine hs.chained.of_sum (Ne.symm t.framePointer_ne_sp) (ExecAll.of_sums ?_ hexec)
      intro j hj
      have hin : j ∈ m.insts := hsplit ▸ List.mem_append_left _ hj
      rw [hinsts] at hin
      exact WideSet.isSum_of_mem_addConstant hin
    · intro s' hexec
      rw [hinsts, (hold l List.mem_cons_self).2 hop] at hexec
      refine ih (fun x hx => hold x (List.mem_cons_of_mem _ hx)) ?_
      rw [hdelta]
      exact hs.moveStack hexec
  | @plain spAdj _ l _ _ _ _ _ ih =>
    apply piecewise_line hs.chained
    intro s' _ hstep
    refine ih (fun x hx => hold x (List.mem_cons_of_mem _ hx)) ?_
    obtain ⟨hreserved, hkeeps⟩ := hallowed l s s' (hold l List.mem_cons_self).1 hstep
    exact hs.step hslots hreserved hkeeps
  | @expand spAdj _ l _ e ps _ he _ ih =>
    rw [Expansion.pieces, List.append_assoc, List.cons_append]
    apply piecewise_fresh
    · intro done i rest s' hsplit hexec _
      exact (hs.before he hw hlaid hslots hsplit hexec).chained
    · -- the line itself, between what is put before it and after it
      intro s₁ hbefore
      have hs₁ := hs.before he hw hlaid hslots (List.append_nil _).symm hbefore
      apply piecewise_line hs₁.chained
      intro s₂ _ hstep
      have hlabel : ({ l with inst := e.inst } : Line).label < first := (hold l List.mem_cons_self).1
      obtain ⟨hreserved, hkeeps⟩ := hallowed _ s₁ s₂ hlabel hstep
      have hs₂ := hs₁.step hslots hreserved hkeeps
      apply piecewise_fresh
      · intro done i rest s' hsplit hexec _
        exact (hs₂.after he hw hlaid hsplit hexec).chained
      · intro s₃ hafter
        refine ih (fun x hx => hold x (List.mem_cons_of_mem _ hx)) ?_
        exact hs₂.after he hw hlaid (List.append_nil _).symm hafter

end

/-! ## The code around a body -/

section
variable {t : Target} {w : WideSet} {p : Procedure} {block : Nat} {r : Rebased} {i : Inst} {a : Area}

theorem rest_of_unindexed (hplain : i.frameIndexAt = none)
    (hr : t.rebase w p block i 0 = .ok r) : r.rest = 0 := by
  obtain ⟨_, _, _, hplace, -⟩ := rebase_cases hr
  rw [hplain] at hplace
  cases hplace

theorem rest_of_mem_savesIn (hw : t.wide? = some w) (hareas : t.HasAreas p)
    (hi : i ∈ t.savesIn p a) (hr : t.rebase w p block i 0 = .ok r) : r.rest = 0 := by
  obtain ⟨σ, hσ, rfl⟩ := List.mem_map.1 hi
  have hmem := (mem_inArea.1 hσ).1
  have hreg := hareas.row.hasSlot hmem
  rw [instrSet_of_wide hw] at hr
  have hslot := w.isSlotAccess_storeToSlot hreg σ.index
  exact hareas.rest_eq_zero hmem hslot.place hslot.index (fun b v => fold_storeToSlot hreg) hr

theorem rest_of_mem_restoresIn (hw : t.wide? = some w) (hareas : t.HasAreas p)
    (hi : i ∈ t.restoresIn p a) (hr : t.rebase w p block i 0 = .ok r) : r.rest = 0 := by
  obtain ⟨σ, hσ, rfl⟩ := List.mem_map.1 hi
  have hmem := (mem_inArea.1 (List.mem_reverse.1 hσ)).1
  have hreg := hareas.row.hasSlot hmem
  rw [instrSet_of_wide hw] at hr
  have hslot := w.isSlotAccess_loadFromSlot hreg σ.index
  exact hareas.rest_eq_zero hmem hslot.place hslot.index (fun b v => fold_loadFromSlot hreg) hr

theorem rest_of_pointAtSaved (hareas : t.HasAreas p) (hsets : t.setsPointer p)
    (hr : t.rebase w p block (t.pointAtSaved w p) 0 = .ok r) : r.rest = 0 := by
  obtain ⟨σ, hσ, -, hindex, -⟩ := hareas.grouped.pointer hsets
  refine hareas.rest_eq_zero hσ (by cases w <;> rfl) ?_ (fun b v => fold_pointAtSaved) hr
  rw [hindex]
  cases w <;> rfl

/-- What a prologue is made of. -/
theorem mem_prologueCode (hi : i ∈ t.prologueCode w p) :
    (∃ v, i ∈ w.moveStackAlways v) ∨ p.layout.hasStackFrame ∧
      ((∃ a, i ∈ t.savesIn p a) ∨ t.setsPointer p ∧ i = t.pointAtSaved w p) := by
  rw [prologueCode] at hi
  rcases List.mem_append.1 hi with hi | hi
  · exact .inl ⟨_, hi⟩
  split at hi
  · next hstack =>
    simp only [List.mem_append] at hi
    rcases hi with ((((((hi | hi) | hi) | hi) | hi) | hi) | hi) | hi
    · exact .inl ⟨_, hi⟩
    · exact .inr ⟨hstack, .inl ⟨_, hi⟩⟩
    · split at hi
      · next hsets => exact .inr ⟨hstack, .inr ⟨hsets, List.mem_singleton.1 hi⟩⟩
      · exact absurd hi List.not_mem_nil
    · exact .inl ⟨_, hi⟩
    · exact .inr ⟨hstack, .inl ⟨_, hi⟩⟩
    · exact .inl ⟨_, hi⟩
    · exact .inr ⟨hstack, .inl ⟨_, hi⟩⟩
    · exact .inl ⟨_, hi⟩
  · exact .inl ⟨_, hi⟩

/-- What an epilogue is made of. -/
theorem mem_epilogueCode (hi : i ∈ t.epilogueCode w p) :
    (∃ v, i ∈ w.moveStackAlways v) ∨ p.layout.hasStackFrame ∧
      (i ∈ t.unwindLocals w p ∨ ∃ a, i ∈ t.restoresIn p a) := by
  rw [epilogueCode] at hi
  rcases List.mem_append.1 hi with hi | hi
  · split at hi
    · next hstack =>
      simp only [List.mem_append] at hi
      rcases hi with (((((hi | hi) | hi) | hi) | hi) | hi) | hi
      · exact .inr ⟨hstack, .inl hi⟩
      · exact .inr ⟨hstack, .inr ⟨_, hi⟩⟩
      · exact .inl ⟨_, hi⟩
      · exact .inr ⟨hstack, .inr ⟨_, hi⟩⟩
      · exact .inl ⟨_, hi⟩
      · exact .inr ⟨hstack, .inr ⟨_, hi⟩⟩
      · exact .inl ⟨_, hi⟩
    · exact .inl ⟨_, hi⟩
  · exact .inl ⟨_, hi⟩

/-- Every instruction of a prologue encodes its whole offset. -/
theorem rest_of_mem_prologueCode (hw : t.wide? = some w) (hframe : t.HasFrame p)
    (hi : i ∈ t.prologueCode w p) (hr : t.rebase w p block i 0 = .ok r) : r.rest = 0 := by
  rcases mem_prologueCode hi with ⟨v, hmove⟩ | ⟨hstack, ⟨a, hsave⟩ | ⟨hsets, rfl⟩⟩
  · exact rest_of_unindexed (WideSet.plain_of_mem_addConstant hmove).2.2 hr
  · exact rest_of_mem_savesIn hw (hframe.areas hstack) hsave hr
  · exact rest_of_pointAtSaved (hframe.areas hstack) hsets hr

/-- So does every instruction of an epilogue. -/
theorem rest_of_mem_epilogueCode (hw : t.wide? = some w) (hframe : t.HasFrame p)
    (hi : i ∈ t.epilogueCode w p) (hr : t.rebase w p block i 0 = .ok r) : r.rest = 0 := by
  rcases mem_epilogueCode hi with ⟨v, hmove⟩ | ⟨hstack, hunwind | ⟨a, hrestore⟩⟩
  · exact rest_of_unindexed (WideSet.plain_of_mem_addConstant hmove).2.2 hr
  · exact rest_of_unindexed (plain_of_mem_unwindLocals hunwind).2.2 hr
  · exact rest_of_mem_restoresIn hw (hframe.areas hstack) hrestore hr

/-- A line that needed no help: it is still one line, with its frame index replaced if it had
one. -/
def StaysLine (t : Target) (w : WideSet) (p : Procedure) (block : Nat) (l : Line) (q : Piece) :
    Prop :=
  ∃ i, q = .line { l with inst := i } ∧
    (i = l.inst ∨ ∃ r, t.rebase w p block l.inst 0 = .ok r ∧ r.inst = i)

/-- A walk through lines that need no help. -/
theorem Walks.forall₂_staysLine {spAdj : Int64} {ls : List Line} {ps : List Piece}
    (h : Walks t w p block 0 ls spAdj ps) (hmarker : ∀ l ∈ ls, l.inst.op.isMarker = false)
    (hrest : ∀ l ∈ ls, ∀ r, t.rebase w p block l.inst 0 = .ok r → r.rest = 0) :
    List.Forall₂ (t.StaysLine w p block) ls ps := by
  generalize hzero : (0 : Int64) = start at h
  induction h with
  | nil => exact .nil
  | marker hop =>
    rw [hmarker _ List.mem_cons_self] at hop
    cases hop
  | plain _ _ _ ih =>
    refine .cons ⟨_, rfl, .inl rfl⟩ ?_
    exact ih (fun l hl => hmarker l (List.mem_cons_of_mem _ hl))
      (fun l hl => hrest l (List.mem_cons_of_mem _ hl)) hzero
  | expand _ he _ ih =>
    obtain ⟨r, hr⟩ := he.rebase
    rw [← hzero] at hr he
    obtain rfl := he.eq_alone hr (hrest _ List.mem_cons_self r hr)
    refine .cons ⟨r.inst, rfl, .inr ⟨r, hr, rfl⟩⟩ ?_
    exact ih (fun l hl => hmarker l (List.mem_cons_of_mem _ hl))
      (fun l hl => hrest l (List.mem_cons_of_mem _ hl)) hzero

theorem unmarked_of_mem_prologueCode (hw : t.wide? = some w) (hframe : t.HasFrame p)
    (hi : i ∈ t.prologueCode w p) : i.op.isMarker = false := by
  have hmeets : Meets t w p (.idle fun _ _ _ => True) 0 (t.prologueCode w p) (fun s => s = counted)
      (fun s => t.Located p counted 0 s ∧ t.Preserves p counted [] s) :=
    meets_prologue hw (Watch.passesNew_idle _ 0) hframe
  exact hmeets.unmarked i hi

theorem unmarked_of_mem_epilogueCode (hw : t.wide? = some w) (hframe : t.HasFrame p)
    (hi : i ∈ t.epilogueCode w p) : i.op.isMarker = false := by
  have hmeets : Meets t w p (.idle fun _ _ _ => True) 0 (t.epilogueCode w p)
      (t.Steady p counted False [] 0) (fun s => False → t.Restores counted s) :=
    meets_epilogue hw (Watch.passesNew_idle _ 0) hframe
  exact hmeets.unmarked i hi

end

/-! ## Points of a run -/

/-- Number of instructions of the prologue. -/
def prologueLength (t : Target) (p : Procedure) : Nat :=
  (t.wide?.map fun w => (t.prologueCode w p).length).getD 0

/-- Number of instructions of an epilogue. -/
def epilogueLength (t : Target) (p : Procedure) : Nat :=
  (t.wide?.map fun w => (t.epilogueCode w p).length).getD 0

/-- A place between prologue and epilogue, with lines left of a block of `q`, to which `p` was
lowered: in the entry block the prologue is behind, and in a block that returns the epilogue and
the return are ahead. -/
structure IsBodyPoint (t : Target) (p q : Procedure) (block : Nat) (rest : List Line) : Prop where
  behind : block = 0 → rest.length + t.prologueLength q ≤ (q.lines 0).length
  ahead : ∀ b, p.blocks[block]? = some b → b.isReturn → t.epilogueLength q < rest.length

section
variable {t : Target} {w : WideSet} {p q : Procedure} {entry s : State} {k : Nat} {b : Block}
  {allowed : Line → State → State → Prop}

/-- A block of a lowered function in three parts. -/
structure IsSplit (t : Target) (w : WideSet) (p q : Procedure) (k : Nat) (b : Block)
    (head body tail : List Piece) : Prop where
  head : ∃ as, Line.IsNew p.fresh (if k = 0 then t.prologueCode w q else []) as ∧
    Walks t w q k 0 as 0 head
  body : Walks t w q k 0 b.body 0 body
  tail : ∃ es, Line.IsNew p.fresh (if b.isReturn then t.epilogueCode w q else []) es ∧
    ∃ spAdj, Walks t w q k 0 (es ++ b.exit) spAdj tail

theorem Lowers.isSplit (h : t.Lowers w p q) (hw : t.wide? = some w) (hp : p.IsFresh)
    (hb : p.blocks[k]? = some b) :
    ∃ head body tail n, t.IsSplit w p q k b head body tail ∧ p.fresh ≤ n ∧
      q.blocks[k]? = some { b with lines := (Piece.number n (head ++ (body ++ tail))).1 } := by
  obtain ⟨as, es, n, spAdj, ps, has, hes, hn, hwalk, hblock⟩ := h.block k b hb
  rw [List.append_assoc, List.append_assoc] at hwalk
  obtain ⟨mid, head, rest, hhead, hrest, rfl⟩ := hwalk.append_inv
  obtain ⟨mid', body, tail, hbody, htail, rfl⟩ := hrest.append_inv
  have hmid : mid = 0 := by
    refine hhead.spAdj_of_unmarked fun l hl => ?_
    exact unmarked_of_mem_prologueCode hw h.frame (has.mem_of_ite hl)
  subst hmid
  -- markers are in balance, so that the body hands over the stack pointer as it found it
  have hmid' := hbody.spAdj_of_balanced hw (balanced_body (hp.balanced b (List.mem_of_getElem? hb)))
  subst hmid'
  exact ⟨head, body, tail, n, ⟨⟨as, has, hhead⟩, hbody, ⟨es, hes, spAdj, htail⟩⟩, hn, hblock⟩

theorem IsSplit.length_head {head body tail : List Piece} (h : t.IsSplit w p q k b head body tail)
    (hw : t.wide? = some w) (hframe : t.HasFrame q) :
    head.length = if k = 0 then t.prologueLength q else 0 := by
  obtain ⟨as, has, hwalk⟩ := h.head
  have hstays : List.Forall₂ (t.StaysLine w q k) as head := by
    apply hwalk.forall₂_staysLine
    · intro l hl
      exact unmarked_of_mem_prologueCode hw hframe (has.mem_of_ite hl)
    · intro l hl r hr
      exact rest_of_mem_prologueCode hw hframe (has.mem_of_ite hl) hr
  rw [← hstays.length_eq, ← List.length_map Line.inst, has.1, prologueLength, hw]
  split <;> rfl

/-- The end of a block that returns: the epilogue, and the return at last. -/
theorem IsSplit.tail_of_isReturn {head body tail : List Piece}
    (h : t.IsSplit w p q k b head body tail) (hw : t.wide? = some w) (hframe : t.HasFrame q)
    (hreturn : b.isReturn) :
    ∃ ps l, tail = ps ++ [.line l] ∧ l ∈ b.exit ∧ ps.length = t.epilogueLength q := by
  obtain ⟨es, hes, spAdj, hwalk⟩ := h.tail
  rw [if_pos hreturn] at hes
  obtain ⟨mid, ps, last, hps, hlast, rfl⟩ := hwalk.append_inv
  have hstays : List.Forall₂ (t.StaysLine w q k) es ps := by
    apply hps.forall₂_staysLine
    · intro l hl
      exact unmarked_of_mem_epilogueCode hw hframe (hes.mem hl)
    · intro l hl r hr
      exact rest_of_mem_epilogueCode hw hframe (hes.mem hl) hr
  have hlen : ps.length = t.epilogueLength q := by
    rw [← hstays.length_eq, ← List.length_map Line.inst, hes.1, epilogueLength, hw]
    rfl
  obtain ⟨l, -, hexit, -, -, rfl⟩ := hlast.of_exit hreturn
  exact ⟨ps, l, rfl, by rw [hexit]; exact List.mem_singleton_self l, hlen⟩

/-- The state in which a block is entered. -/
def EntersBody (t : Target) (q : Procedure) (entry : State) (k : Nat) (s : State) : Prop :=
  if k = 0 then s = entry else t.Anchored q entry 0 s

/-- The prologue leads to the state in which bodies run, and its own lines are no body points. -/
theorem IsSplit.throughout_head {head body tail : List Piece} {n : Nat} {rest : List Line}
    (h : t.IsSplit w p q k b head body tail) (hw : t.wide? = some w) (hframe : t.HasFrame q)
    (hn : p.fresh ≤ n) (hlength : (q.lines k).length = head.length + rest.length)
    (hs : t.EntersBody q entry k s) :
    Throughout allowed (fun r s => t.IsBodyPoint p q k (r ++ rest) → t.Chained q entry s)
      (t.Anchored q entry 0) (Piece.number n head).1 s := by
  have hhead := h.length_head hw hframe
  rw [EntersBody] at hs
  obtain ⟨as, has, hwalk⟩ := h.head
  by_cases hk : k = 0
  · rw [if_pos hk] at has hs hhead
    have hmeets : Meets t w q (.idle allowed) p.fresh (t.prologueCode w q) (fun s => s = entry)
        (fun s => t.Located q entry 0 s ∧ t.Preserves q entry [] s) :=
      meets_prologue hw (Watch.passesNew_idle allowed p.fresh) hframe
    have hpieces := hmeets.pieces k as 0 head s has hwalk hs
    have hpost := Watch.lines_number (Watch.passesNew_idle allowed p.fresh) hn hpieces
    refine (throughout_of_lines hpost ?_).mono (fun _ _ _ _ hr => hr) ?_
    · intro r _ hne hr hpoint
      have hbehind := hpoint.behind hk
      subst hk
      have hpos := List.length_pos_of_ne_nil hne
      rw [hlength, List.length_append] at hbehind
      omega
    · intro s' hs'
      exact ⟨hs'.1, hs'.2.slots⟩
  · -- no other block has a prologue
    rw [if_neg hk] at has hs
    obtain rfl := List.map_eq_nil_iff.1 has.1
    cases hwalk
    exact hs

/-- The epilogue starts where the body ends, and no run goes past the return. A block that does not
return ends with its body. -/
theorem IsSplit.throughout_tail {head body tail : List Piece}
    (h : t.IsSplit w p q k b head body tail) (hw : t.wide? = some w) (hframe : t.HasFrame q)
    (hb : p.blocks[k]? = some b) (hstop : ∀ l s s', p.IsExit l → ¬ allowed l s s') (n : Nat)
    (hs : t.Anchored q entry 0 s) :
    Throughout allowed (fun r s => t.IsBodyPoint p q k r → t.Chained q entry s)
      (t.Anchored q entry 0) (Piece.number n tail).1 s := by
  by_cases hreturn : b.isReturn
  · obtain ⟨ps, l, rfl, hexit, hlen⟩ := h.tail_of_isReturn hw hframe hreturn
    have hlast : (Piece.number n (ps ++ [.line l])).1 = (Piece.number n ps).1 ++ [l] := by
      rw [Piece.number_append]
      rfl
    rw [hlast]
    apply throughout_of_stop
    · intro _
      exact hs.chained
    · intro r _ _ _ hr hpoint
      have hahead := hpoint.ahead b hb hreturn
      rw [Piece.length_number] at hr
      omega
    · intro s s'
      exact hstop l s s' ⟨b, List.mem_of_getElem? hb, hexit⟩
  · obtain ⟨es, hes, spAdj, hwalk⟩ := h.tail
    rw [if_neg hreturn] at hes
    obtain rfl := List.map_eq_nil_iff.1 hes.1
    rw [Block.exit, if_neg hreturn] at hwalk
    cases hwalk
    exact hs

/-- The frame stands throughout the body of each block. -/
theorem Lowers.throughout (h : t.Lowers w p q) (hw : t.wide? = some w) (hp : p.IsFresh)
    (hslots : t.HasSlots q entry) (hallowed : t.KeepsFrame q entry allowed p.fresh)
    (hstop : ∀ l s s', p.IsExit l → ¬ allowed l s s') (hb : p.blocks[k]? = some b)
    (hs : t.EntersBody q entry k s) :
    ∃ c, q.blocks[k]? = some c ∧ c.successors = b.successors ∧
      Throughout allowed (fun r s => t.IsBodyPoint p q k r → t.Chained q entry s)
        (t.Anchored q entry 0) c.lines s := by
  obtain ⟨head, body, tail, n, hsplit, hn, hblock⟩ := h.isSplit hw hp hb
  refine ⟨_, hblock, rfl, ?_⟩
  have hlines : q.lines k = (Piece.number n (head ++ (body ++ tail))).1 := by
    rw [Procedure.lines, hblock]
  have hlength := congrArg List.length hlines
  show Throughout _ _ _ (Piece.number n (head ++ (body ++ tail))).1 s
  rw [Piece.number_append, Piece.number_append] at hlength ⊢
  rw [List.length_append, Piece.length_number] at hlength
  generalize (Piece.number n head).2 = n₁ at hlength ⊢
  generalize (Piece.number n₁ body).2 = n₂ at hlength ⊢
  have hhead : Throughout allowed _ _ _ s := hsplit.throughout_head hw h.frame hn hlength hs
  refine Throughout.append (hhead.mono (fun _ _ _ _ hr => hr) fun s₁ hs₁ => Throughout.append ?_)
  have hold : ∀ l ∈ b.body,
      l.label < p.fresh ∧ (l.inst.op.isMarker → l.inst.predicate.1 = Cond.al) := by
    intro l hl
    have hmem := List.mem_of_getElem? hb
    exact ⟨hp.old b hmem l (Block.mem_body hl), hp.markers b hmem l (Block.mem_body hl)⟩
  have hbody := piecewise_of_walks hw hsplit.body hold hallowed h.frame.laid hslots hs₁
  refine (hbody n₁).mono ?_ fun s₂ hs₂ => hsplit.throughout_tail hw h.frame hb hstop n₂ hs₂
  intro r s' hne _ hr _
  cases r with
  | nil => exact absurd rfl hne
  | cons l r => exact hr l rfl

/-- At every body point that a run reaches the frame stands. -/
theorem Lowers.chained_of_reaches (h : t.Lowers w p q) (hw : t.wide? = some w) (hp : p.IsFresh)
    (hblocks : p.blocks ≠ []) (hslots : t.HasSlots q entry) {c : Point}
    (hreach : Reaches q (t.LeavesSaved p q entry) entry c)
    (hbody : t.IsBodyPoint p q c.block c.rest) : t.Chained q entry c.state := by
  have hallowed : t.KeepsFrame q entry (t.LeavesSaved p q entry) p.fresh := by
    intro l s s' hold hleaves
    obtain ⟨hreserved, hkeeps⟩ := hleaves.2 hold
    exact ⟨hreserved.congr h.pointer, hkeeps⟩
  have hstop (l : Line) (s s' : State) (hl : p.IsExit l) : ¬ t.LeavesSaved p q entry l s s' :=
    fun hleaves => hleaves.1 hl
  have hrun := throughout_of_reaches (fun k r s => t.IsBodyPoint p q k r → t.Chained q entry s)
    (fun _ => t.Anchored q entry 0) ?_ ?_ hreach
  · cases hrest : c.rest with
    | nil =>
      rw [hrest] at hrun
      have hend : t.Anchored q entry 0 c.state := hrun
      exact hend.chained
    | cons l ls =>
      rw [hrest] at hrun hbody
      exact hrun.1 hbody
  · obtain ⟨b, bs, hcons⟩ := List.exists_cons_of_ne_nil hblocks
    have hb : p.blocks[0]? = some b := by rw [hcons]; rfl
    obtain ⟨m, hm, -, hlines⟩ := h.throughout hw hp hslots hallowed hstop hb
      (show t.EntersBody q entry 0 entry by rw [EntersBody, if_pos rfl])
    rw [Procedure.lines, hm]
    exact hlines
  · intro i m k n s hm hs hk hn
    obtain ⟨b, hb⟩ := h.exists_block hn
    -- the entry block is nobody's successor
    have hne : k ≠ 0 := by
      rintro rfl
      exact h.zero_notMem hp (List.mem_of_getElem? hm) hk
    obtain ⟨n', hn', -, hlines⟩ := h.throughout hw hp hslots hallowed hstop hb
      (show t.EntersBody q entry k s by rw [EntersBody, if_neg hne]; exact hs)
    obtain rfl := Option.some.inj (hn.symm.trans hn')
    exact hlines

end

/-! ## Runs of known instructions -/

section
variable {t : Target} {p q : Procedure} {entry s : State} {l : Line}

/-- Loads, stores and sums do not return. -/
theorem IsKnown.isReturn {i : Inst} (h : IsKnown i) : i.isReturn = false := by
  obtain ⟨-, hkind⟩ := h
  show i.op.info.flags.isReturn = false
  revert hkind
  cases i.op <;> decide

theorem Passes.leavesSaved (h : t.Passes p l) :
    t.LeavesSaved p q entry l s (outcome l.inst s) := by
  constructor
  · rintro ⟨b, -, hexit⟩
    have hreturns := Block.isReturn_of_mem_exit hexit
    rw [h.1.isReturn] at hreturns
    cases hreturns
  · intro hold
    obtain ⟨hnone, -⟩ := h.2.resolve_left (by omega)
    have hleaves : t.LeavesFrame p q entry l s (outcome l.inst s) := h.leavesFrame
    refine ⟨(hleaves hold).1, ?_⟩
    intro σ _ o b _ _
    rw [outcome, hnone]
    rfl

/-- The first block is run from its start up to a line. -/
theorem leavesSaved_of_take {rest : List Line} (entry : State) (n : Nat)
    (hls : ∀ l ∈ (q.lines 0).take n, t.Passes p l) (hrest : (q.lines 0).drop n = rest) :
    Reaches q (t.LeavesSaved p q entry) entry
      ⟨0, rest, runLines ((q.lines 0).take n) entry⟩ := by
  subst hrest
  apply reaches_of_known
  · rw [List.take_append_drop]
    exact .refl
  · intro l hl
    exact ⟨(hls l hl).1, fun _ => (hls l hl).leavesSaved⟩

end

end Target

end FrameLowering
