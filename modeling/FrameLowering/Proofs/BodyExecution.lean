import FrameLowering.Proofs.Overwriting

/-!
# Execution of a lowered body

The lines of a body are watched from the state that the prologue leaves. What holds in between
(`Target.Steady`) is kept by each of the ways to expand a line (`pieces_of_expands`), by
call frame markers and by all other lines (`pieces_of_walks`).
-/

namespace FrameLowering

open ImmediateField (word)

namespace Target

/-- The caller's state is back. -/
def Restores (t : Target) (entry s : State) : Prop :=
  s.sp = entry.sp ∧ ∀ cs ∈ t.calleeSaved, s.value cs.reg = entry.value cs.reg

/-- The watch on a function. Lines with labels below `first` were there before lowering. They leave
reserved registers alone, and if `guarded` also the slots that lowering keeps for itself; then the
caller's state is to be back at each return. -/
def watch (t : Target) (p : Procedure) (entry : State) (first : Nat) (guarded : Prop) : Watch where
  allowed l s s' := l.label < first →
    t.KeepsReserved p s s' ∧ (guarded → p.KeepsSlots entry s s')
  expected l s := guarded → l.inst.isReturn → t.Restores entry s

/-- What holds while a body runs. -/
structure Steady (t : Target) (p : Procedure) (entry : State) (guarded : Prop) (apart : List Reg)
    (spAdj : Int64) (s : State) : Prop where
  located : t.Located p entry spAdj s
  preserves : guarded → t.Preserves p entry apart s

/-- A line of a body before it is lowered. -/
structure IsBodyLine (t : Target) (p : Procedure) (first : Nat) (l : Line) : Prop where
  old : l.label < first
  stays : l.inst.isReturn = false
  spares : t.Spares p [] l.inst.reach
  always : l.inst.op.isMarker → l.inst.predicate.1 = Cond.al

section
variable {t : Target} {w : WideSet} {p : Procedure} {block first : Nat} {spAdj : Int64}
  {entry s s' : State} {guarded : Prop} {apart apart' rs : List Reg} {l : Line}

theorem Steady.congr (h : t.Steady p entry guarded apart spAdj s) (hagrees : s.AgreesOff rs s')
    (hpointers : ∀ x ∈ rs, x ≠ Reg.sp ∧ x ≠ t.framePointer) (hspares : t.Spares p apart' rs)
    (hsub : apart ⊆ apart')
    (hmem : guarded → ∀ σ ∈ p.frame.saved, ∀ o, p.frame.object? σ.index = some o → ∀ b,
      Memory.Within (p.home entry o) (4 * σ.reg.cells.length) b → s'.mem b = s.mem b) :
    t.Steady p entry guarded apart' spAdj s' :=
  ⟨h.located.of_free hpointers hagrees,
    fun hg => (h.preserves hg).congr hagrees hspares hsub (hmem hg)⟩

theorem Steady.of_free (h : t.Steady p entry guarded apart spAdj s) (hagrees : s.AgreesOff rs s')
    (hfree : ∀ x ∈ rs, t.IsFree p x) (hmem : s'.mem = s.mem) :
    t.Steady p entry guarded apart spAdj s' := by
  refine h.congr hagrees (fun x hx => ⟨(hfree x hx).ne_sp, (hfree x hx).ne_pointer⟩)
    (spares_of_free hfree) (List.Subset.refl _) fun _ σ _ o _ b _ => ?_
  rw [hmem]

/-- A line of the body, or what became of it, keeps what holds. -/
theorem Steady.step {i : Inst} (h : t.Steady p entry guarded apart spAdj s)
    (hold : l.label < first) (hslots : guarded → t.HasSlots p entry)
    (hspares : t.Spares p apart i.reach) (heff : i.Effect s s')
    (hallowed : (t.watch p entry first guarded).allowed { l with inst := i } s s') :
    t.Steady p entry guarded apart spAdj s' := by
  obtain ⟨hreserved, hkeeps⟩ := hallowed hold
  refine ⟨h.located.step hreserved, fun hg => ?_⟩
  exact (h.preserves hg).congr heff.agreesOff hspares (List.Subset.refl _)
    (mem_of_keepsSlots (hslots hg) (hkeeps hg))

/-- The registers of an instruction after its frame index was eliminated are still none
that the caller needs. -/
theorem spares_of_rebase {r : Rebased} {i : Inst} (hlaid : t.IsLaidOut p)
    (hspares : t.Spares p [] i.reach) (hr : t.rebase w p block i spAdj = .ok r) :
    t.Spares p [] r.inst.reach := by
  intro cs hcs hspilled hout x hx hover
  rcases reach_of_rebase hr hx with hx | rfl | ⟨rfl, hp⟩ | rfl
  · exact hspares cs hcs hspilled hout x hx hover
  · exact ne_sp_of_mem_calleeSaved hcs (Reg.eq_of_core_overlaps hover)
  · obtain ⟨n, hn⟩ := t.framePointer_core
    rw [hn] at hover
    refine hspilled ?_
    rw [Reg.eq_of_core_overlaps hover, ← hn]
    exact hlaid.spilled (hlaid.framed hp) (setsPointer_of_hasPointer hp)
  · exact Reg.not_overlaps_noreg (hasSlot_of_mem_calleeSaved hcs) hover

theorem spares_of_through {r : Rebased} {scratch : Reg} (h : t.Spares p [] r.inst.reach)
    (hscratch : t.Spares p apart [scratch]) : t.Spares p apart (r.through scratch).reach := by
  intro cs hcs hspilled hout x hx
  rcases reach_of_through hx with hx | rfl
  · exact h cs hcs hspilled List.not_mem_nil x hx
  · exact hscratch cs hcs hspilled hout x List.mem_cons_self

/-- The expansion of a line, from what its instructions do before it and after it. -/
theorem pieces_of_expansion {k : Watch} {post : State → Prop} {e : Expansion}
    (hbefore : ∀ j ∈ e.before, j.isReturn = false) (hafter : ∀ j ∈ e.after, j.isReturn = false)
    (h : ∀ s₁, ExecAll e.before s s₁ → k.expected { l with inst := e.inst } s₁ ∧
      ∀ s₂, e.inst.Effect s₁ s₂ → k.allowed { l with inst := e.inst } s₁ s₂ →
        ∀ s₃, ExecAll e.after s₂ s₃ → post s₃) :
    k.Pieces post (e.pieces l) s := by
  refine Watch.Pieces.append (Watch.pieces_fresh hbefore fun s₁ hs₁ => ?_)
  obtain ⟨hexpected, hrest⟩ := h s₁ hs₁
  refine ⟨hexpected, fun s₂ heff hallowed => ?_⟩
  exact Watch.pieces_fresh hafter (hrest s₂ heff hallowed)

theorem Direct.spares {e : Expansion} {i : Inst} (h : Direct t w p block i spAdj e)
    (hlaid : t.IsLaidOut p) (hspares : t.Spares p [] i.reach) : t.Spares p [] e.inst.reach := by
  cases h with
  | alone hr => exact spares_of_rebase hlaid hspares hr
  | through hr hrest hscratch hfree =>
    refine spares_of_through (spares_of_rebase hlaid hspares hr) (spares_of_free fun x hx => ?_)
    obtain rfl := List.mem_singleton.1 hx
    exact ⟨hscratch.core, hscratch.ne_sp, hscratch.ne_pointer, hfree⟩

/-- A line whose frame index was eliminated in one go. -/
theorem pieces_of_direct {e : Expansion} (he : Direct t w p block l.inst spAdj e)
    (hl : t.IsBodyLine p first l) (hlaid : t.IsLaidOut p) (hslots : guarded → t.HasSlots p entry)
    (hs : t.Steady p entry guarded [] spAdj s) :
    (t.watch p entry first guarded).Pieces (t.Steady p entry guarded [] spAdj) (e.pieces l) s := by
  obtain ⟨hreturn, hbefore, hafter⟩ := he.stays
  refine pieces_of_expansion hbefore (by simp [hafter]) fun s₁ hs₁ => ⟨?_, ?_⟩
  · exact fun _ hret => absurd (hreturn.symm.trans hret) Bool.false_ne_true
  intro s₂ heff hallowed s₃ hs₃
  obtain ⟨hkept, -, r, rs, -, hfree, hagrees⟩ := he.execAll_before hs₁
  have hsteady := hs.of_free hagrees (fun x hx => (hfree x hx).1) hkept
  rw [hafter] at hs₃
  obtain rfl : s₃ = s₂ := hs₃
  exact hsteady.step hl.old hslots (he.spares hlaid hl.spares) heff hallowed

/-! ## Borrowed registers -/

/-- The scavenging slot holds the value of a core register. -/
def Lends (p : Procedure) (entry : State) (v : List Word) (s : State) : Prop :=
  ∀ o, p.frame.object? p.frame.scavengingIndex = some o →
    s.mem.loadWords (p.home entry o) 1 = v

section
variable {n : Fin 16} {e : Expansion}

theorem spares_self : t.Spares p [.core n] [.core n] := by
  intro cs _ _ hout x hx hover
  obtain rfl := List.mem_singleton.1 hx
  exact hout (List.mem_singleton.2 (Reg.eq_of_core_overlaps hover))

/-- The value of a register is stored before the register is borrowed. -/
theorem Steady.lend (hs : t.Steady p entry guarded [] spAdj s) (hw : t.wide? = some w)
    (hlaid : t.IsLaidOut p) (hslots : guarded → t.HasSlots p entry)
    (he : Direct t w p block (t.lend p (.core n)).spill spAdj e)
    (hexec : ExecAll (e.before ++ [e.inst]) s s') :
    t.Steady p entry guarded [] spAdj s' ∧ Lends p entry (s.value (.core n)) s' := by
  have hspill : (t.lend p (.core n)).spill =
      w.set.storeToSlot (.core n) p.frame.scavengingIndex := by
    rw [Target.lend, instrSet_of_wide hw]
  rw [hspill] at he
  obtain ⟨o, rs, ho, hfree, hagrees, hmem⟩ :=
    he.execAll_store (hs.located.finds hlaid hlaid.scavenging) hexec
  have hpointers : ∀ x ∈ rs, x ≠ Reg.sp ∧ x ≠ t.framePointer :=
    fun x hx => ⟨(hfree x hx).1.ne_sp, (hfree x hx).1.ne_pointer⟩
  refine ⟨?_, fun q hq => ?_⟩
  · exact hs.congr hagrees hpointers (spares_of_free fun x hx => (hfree x hx).1)
      (List.Subset.refl _) fun hg => mem_of_storeWords (hslots hg) ho hmem
  · obtain rfl : o = q := Option.some.inj (ho.symm.trans hq)
    rw [hmem]
    exact Memory.loadWords_storeWords (by simp [State.value, Reg.cells])

/-- The register is stored, then the rest of an offset is added in it. -/
theorem Steady.borrow {r : Rebased} {i : Inst} (hs : t.Steady p entry guarded [] spAdj s)
    (hw : t.wide? = some w) (hlaid : t.IsLaidOut p) (hslots : guarded → t.HasSlots p entry)
    (hr : t.rebase w p block i spAdj = .ok r) (hrest : r.rest ≠ 0)
    (hscratch : t.IsScratch r.inst (.core n))
    (he : Direct t w p block (t.lend p (.core n)).spill spAdj e)
    (hexec : ExecAll (e.before ++ e.inst :: r.chain w (.core n)) s s') :
    t.Steady p entry guarded [.core n] spAdj s' ∧ Lends p entry (s.value (.core n)) s' := by
  obtain ⟨m, hm, hchain⟩ := execAll_append_cons.1 hexec
  obtain ⟨hlent, hvalue⟩ := hs.lend hw hlaid hslots he hm
  obtain ⟨hlo, hhi⟩ := rebase_range hr
  obtain ⟨hagrees, hkept, -⟩ := Rebased.agreesOff_chain hlo hhi hrest hchain
  constructor
  · refine hlent.congr hagrees (fun x hx => ?_) spares_self (List.nil_subset _)
      fun _ σ _ o _ b _ => ?_
    · obtain rfl := List.mem_singleton.1 hx
      exact ⟨hscratch.ne_sp, hscratch.ne_pointer⟩
    · rw [hkept]
  · intro o ho
    rw [hkept]
    exact hvalue o ho

/-- The scavenging slot keeps its value as long as the body leaves it alone. -/
theorem Lends.step {v : List Word} (h : Lends p entry v s) (hslots : t.HasSlots p entry)
    (hkeeps : p.KeepsSlots entry s s') : Lends p entry v s' := by
  intro o ho
  rw [← h o ho]
  refine Memory.loadWords_congr (by decide) fun b hb => ?_
  refine hkeeps _ o b (.inl rfl) ho ?_
  rw [hslots.scavenging o ho]
  exact hb

/-- The value of a borrowed register is loaded again. -/
theorem Steady.giveBack {v : List Word} (hs : t.Steady p entry guarded [.core n] spAdj s)
    (hw : t.wide? = some w) (hlaid : t.IsLaidOut p)
    (hpointers : Reg.core n ≠ Reg.sp ∧ Reg.core n ≠ t.framePointer)
    (hlends : guarded → Lends p entry v s)
    (hv : guarded → ∀ cs ∈ t.calleeSaved, ¬ p.layout.isSpilled cs.reg → cs.reg = .core n →
      v = entry.value cs.reg)
    (he : Direct t w p block (t.lend p (.core n)).reload spAdj e)
    (hexec : ExecAll (e.before ++ [e.inst]) s s') : t.Steady p entry guarded [] spAdj s' := by
  have hreload : (t.lend p (.core n)).reload =
      w.set.loadFromSlot (.core n) p.frame.scavengingIndex := by
    rw [Target.lend, instrSet_of_wide hw]
  rw [hreload] at he
  obtain ⟨o, rs, ho, hfree, hagrees, hmem, hvalue⟩ :=
    he.execAll_load (hs.located.finds hlaid hlaid.scavenging) hexec
  have hothers : ∀ x ∈ Reg.core n :: rs, x ≠ Reg.sp ∧ x ≠ t.framePointer := by
    intro x hx
    rcases List.mem_cons.1 hx with rfl | hx
    · exact hpointers
    · exact ⟨(hfree x hx).1.ne_sp, (hfree x hx).1.ne_pointer⟩
  have hspares : t.Spares p [.core n] (.core n :: rs) := by
    intro cs hcs hspilled hout x hx
    rcases List.mem_cons.1 hx with rfl | hx
    · intro hover
      exact hout (List.mem_singleton.2 (Reg.eq_of_core_overlaps hover))
    · exact spares_of_free (fun x hx => (hfree x hx).1) cs hcs hspilled hout x hx
  have hsteady : t.Steady p entry guarded [.core n] spAdj s' := by
    refine hs.congr hagrees hothers hspares (List.Subset.refl _) fun _ σ _ o _ b _ => ?_
    rw [hmem]
  refine ⟨hsteady.located, fun hg => ⟨(hsteady.preserves hg).slots, ?_⟩⟩
  intro cs hcs hspilled _
  by_cases hreg : cs.reg = .core n
  · rw [hreg, hvalue, hlends hg o ho, hv hg cs hcs hspilled hreg, hreg]
  · exact (hsteady.preserves hg).regs cs hcs hspilled (by simpa using hreg)

end

/-- A line whose frame index was eliminated in any way. -/
theorem pieces_of_expands {e : Expansion} (hw : t.wide? = some w)
    (he : Expands t w p block l.inst spAdj e) (hl : t.IsBodyLine p first l)
    (hlaid : t.IsLaidOut p) (hslots : guarded → t.HasSlots p entry)
    (hs : t.Steady p entry guarded [] spAdj s) :
    (t.watch p entry first guarded).Pieces (t.Steady p entry guarded [] spAdj) (e.pieces l) s := by
  cases he with
  | direct he => exact pieces_of_direct he hl hlaid hslots hs
  | @borrowed r scratch spill reload hr hrest hscratch hspill hreload =>
    obtain ⟨n, rfl⟩ := hscratch.core
    obtain ⟨hstore, hbefore, -⟩ := hspill.stays
    obtain ⟨hload, hbefore', -⟩ := hreload.stays
    have hreturn : (r.through (.core n)).isReturn = false := rebase_flags hr
    refine pieces_of_expansion ?_ ?_ fun s₁ hs₁ => ⟨?_, fun s₂ heff hallowed s₃ hs₃ => ?_⟩
    · intro j hj
      rcases List.mem_append.1 hj with hj | hj
      · exact hbefore j hj
      · rcases List.mem_cons.1 hj with rfl | hj
        · exact hstore
        · exact (WideSet.plain_of_mem_addConstant hj).1
    · intro j hj
      rcases List.mem_append.1 hj with hj | hj
      · exact hbefore' j hj
      · obtain rfl := List.mem_singleton.1 hj
        exact hload
    · exact fun _ hret => absurd (hreturn.symm.trans hret) Bool.false_ne_true
    · obtain ⟨hborrowed, hlends⟩ := hs.borrow hw hlaid hslots hr hrest hscratch hspill hs₁
      have hspares : t.Spares p [.core n] (r.through (.core n)).reach :=
        spares_of_through (spares_of_rebase hlaid hl.spares hr) spares_self
      have hstep := hborrowed.step hl.old hslots hspares heff hallowed
      -- the line leaves the slot alone, so that the value of the register is still in it
      have hkept : guarded → Lends p entry (s.value (.core n)) s₂ :=
        fun hg => hlends.step (hslots hg) ((hallowed hl.old).2 hg)
      refine hstep.giveBack hw hlaid ⟨hscratch.ne_sp, hscratch.ne_pointer⟩ hkept ?_ hreload hs₃
      intro hg cs hcs hspilled hreg
      rw [← hreg]
      exact (hs.preserves hg).regs cs hcs hspilled List.not_mem_nil

end

/-! ## Call frames -/

/-- Bytes by which the stack pointer moves at a marker with a size. -/
def markerAmount (t : Target) (p : Procedure) (size : Option Int64) : Int64 :=
  match size with
  | some n => if t.reservesCallFrame p then 0 else alignTo n t.abi.stackAlignment
  | none => 0

/-- Sizes at the markers that start a call sequence. -/
def setupSizes (ls : List Line) : List (Option Int64) :=
  (ls.filter fun l => l.inst.info.flags.isSetup).map fun l => markerSize? l.inst

/-- Sizes at the markers that end a call sequence. -/
def destroySizes (ls : List Line) : List (Option Int64) :=
  (ls.filter fun l => l.inst.info.flags.isDestroy).map fun l => markerSize? l.inst

section
variable {t : Target} {w : WideSet} {p : Procedure} {block : Nat} {spAdj : Int64}
  {entry s s' : State} {guarded : Prop} {apart : List Reg} {i : Inst} {m : StackMove}

/-- What stands for a marker. -/
theorem callFrame_facts (hw : t.wide? = some w) (h : t.callFrame p block i = .ok m) :
    ∃ v, m.insts = w.moveStack v i.predicate.1 i.predicate.2 ∧ m.delta = -v ∧
      v = if i.info.flags.isSetup then -t.markerAmount p (markerSize? i)
        else t.markerAmount p (markerSize? i) := by
  rw [callFrame, hw] at h
  simp only at h
  split at h
  · cases h
  cases hsize : markerSize? i with
  | none => simp [hsize] at h
  | some size =>
    simp only [hsize] at h
    obtain rfl := Except.ok.inj h
    have hnone (c : Cond) (pred : Reg) : w.moveStack 0 c pred = [] := by
      rw [WideSet.moveStack, WideSet.addConstant]
      rfl
    simp only [stackMove, markerAmount]
    by_cases hreserves : t.reservesCallFrame p
    · refine ⟨0, ?_, ?_, ?_⟩
      · simp [hreserves, hnone]
      · simp [hreserves]
      · simp [hreserves]
    by_cases hzero : alignTo size t.abi.stackAlignment = 0
    · refine ⟨0, ?_, ?_, ?_⟩
      · simp [hzero, hnone]
      · simp [hzero]
      · simp [hzero]
    by_cases hsetup : i.info.flags.isSetup
    · exact ⟨-alignTo size t.abi.stackAlignment, by simp [hreserves, hzero, hsetup]⟩
    · exact ⟨alignTo size t.abi.stackAlignment, by simp [hreserves, hzero, hsetup]⟩

/-- The stack pointer moves down by the bytes that are counted. -/
theorem Steady.moveStack {v : Int64} {pred : Reg} (h : t.Steady p entry guarded apart spAdj s)
    (hexec : ExecAll (w.moveStack v Cond.al pred) s s') :
    t.Steady p entry guarded apart (spAdj + -v) s' := by
  have hsp : s' = s.write Reg.sp (s.sp + word v) := WideSet.execAll_moveStack hexec
  have hagrees : s.AgreesOff [Reg.sp] s' := by
    rw [hsp]
    exact State.agreesOff_assign s _ _
  refine ⟨⟨fun hp => ?_, fun hframe hsets o ho => ?_⟩, fun hg => ?_⟩
  · rw [hsp, State.sp, Reg.sp, State.read_write_core]
    show s.sp + word v = _
    rw [h.located.stack hp, ImmediateField.word_add, ImmediateField.word_neg]
    bv_omega
  · rw [← h.located.pointer hframe hsets o ho]
    refine hagrees.read_eq fun x hx hover => ?_
    obtain rfl := List.mem_singleton.1 hx
    exact t.framePointer_ne_sp (Reg.eq_of_core_overlaps hover)
  · refine (h.preserves hg).congr hagrees ?_ (List.Subset.refl _) fun σ _ o _ b _ => ?_
    · intro cs hcs _ _ x hx hover
      obtain rfl := List.mem_singleton.1 hx
      exact ne_sp_of_mem_calleeSaved hcs (Reg.eq_of_core_overlaps hover)
    · rw [hsp, State.write_mem]

end

/-! ## The walk through a body -/

/-- A walk through lines that was not stopped: how far the markers had moved the stack
pointer before it and after it, and its pieces. -/
inductive Walks (t : Target) (w : WideSet) (p : Procedure) (block : Nat) :
    Int64 → List Line → Int64 → List Piece → Prop
  | nil {spAdj : Int64} : Walks t w p block spAdj [] spAdj []
  | marker {spAdj spAdj' : Int64} {l : Line} {ls : List Line} {m : StackMove} {ps : List Piece}
      (hop : l.inst.op.isMarker) (hm : t.callFrame p block l.inst = .ok m)
      (h : Walks t w p block (spAdj + m.delta) ls spAdj' ps) :
      Walks t w p block spAdj (l :: ls) spAdj' (m.insts.map .fresh ++ ps)
  | plain {spAdj spAdj' : Int64} {l : Line} {ls : List Line} {ps : List Piece}
      (hop : ¬ l.inst.op.isMarker) (hplace : l.inst.frameIndexAt = none)
      (h : Walks t w p block spAdj ls spAdj' ps) :
      Walks t w p block spAdj (l :: ls) spAdj' (.line l :: ps)
  | expand {spAdj spAdj' : Int64} {l : Line} {ls : List Line} {e : Expansion} {ps : List Piece}
      (hop : ¬ l.inst.op.isMarker) (he : Expands t w p block l.inst spAdj e)
      (h : Walks t w p block spAdj ls spAdj' ps) :
      Walks t w p block spAdj (l :: ls) spAdj' (e.pieces l ++ ps)

section
variable {t : Target} {w : WideSet} {p : Procedure} {block first : Nat} {spAdj spAdj' : Int64}
  {entry s : State} {ls ls' : List Line} {guarded : Prop} {ps : List Piece}

theorem walks_of_walkLines (hw : t.wide? = some w)
    (hok : (t.walkLines p block spAdj ls).failure = none) :
    ∃ spAdj', Walks t w p block spAdj ls spAdj' (t.walkLines p block spAdj ls).pieces := by
  induction ls generalizing spAdj with
  | nil => exact ⟨spAdj, .nil⟩
  | cons l ls ih =>
    rw [walkLines] at hok ⊢
    split
    · next hop =>
      rw [if_pos hop] at hok
      cases hm : t.callFrame p block l.inst with
      | error f => simp [hm] at hok
      | ok m =>
        simp only [hm] at hok ⊢
        obtain ⟨spAdj', h⟩ := ih hok
        exact ⟨spAdj', .marker hop hm h⟩
    · next hop =>
      rw [if_neg hop] at hok
      split
      · next hplace =>
        rw [if_pos hplace] at hok
        obtain ⟨spAdj', h⟩ := ih hok
        exact ⟨spAdj', .plain hop (by simpa using hplace) h⟩
      · next hplace =>
        rw [if_neg hplace] at hok
        cases hf : (t.expand p block l.inst (ls.map Line.inst) spAdj t.config.scavenging).failure with
        | some f => simp [hf] at hok
        | none =>
          simp only [hf] at hok ⊢
          obtain ⟨spAdj', h⟩ := ih hok
          exact ⟨spAdj', .expand hop (expands_of_expand hw rfl hf) h⟩

theorem Walks.append_inv (h : Walks t w p block spAdj (ls ++ ls') spAdj' ps) :
    ∃ mid qs rs, Walks t w p block spAdj ls mid qs ∧ Walks t w p block mid ls' spAdj' rs ∧
      ps = qs ++ rs := by
  induction ls generalizing spAdj ps with
  | nil => exact ⟨spAdj, [], ps, .nil, h, rfl⟩
  | cons l ls ih =>
    cases h with
    | marker hop hm h =>
      obtain ⟨mid, qs, rs, hqs, hrs, rfl⟩ := ih h
      exact ⟨mid, _, rs, .marker hop hm hqs, hrs, (List.append_assoc _ _ _).symm⟩
    | plain hop hplace h =>
      obtain ⟨mid, qs, rs, hqs, hrs, rfl⟩ := ih h
      exact ⟨mid, _, rs, .plain hop hplace hqs, hrs, rfl⟩
    | expand hop he h =>
      obtain ⟨mid, qs, rs, hqs, hrs, rfl⟩ := ih h
      exact ⟨mid, _, rs, .expand hop he hqs, hrs, (List.append_assoc _ _ _).symm⟩

/-- A body keeps what holds between its lines. -/
theorem pieces_of_walks (hw : t.wide? = some w) (h : Walks t w p block spAdj ls spAdj' ps)
    (hbody : ∀ l ∈ ls, t.IsBodyLine p first l) (hlaid : t.IsLaidOut p)
    (hslots : guarded → t.HasSlots p entry) (hs : t.Steady p entry guarded [] spAdj s) :
    (t.watch p entry first guarded).Pieces (t.Steady p entry guarded [] spAdj') ps s := by
  induction h generalizing s with
  | nil => exact hs
  | @marker spAdj _ l _ m _ hop hm _ ih =>
    have hl := hbody l List.mem_cons_self
    obtain ⟨v, hinsts, hdelta, -⟩ := callFrame_facts hw hm
    refine Watch.Pieces.append (Watch.pieces_fresh (fun j hj => ?_) fun s' hs' => ?_)
    · rw [hinsts] at hj
      exact (WideSet.plain_of_mem_addConstant hj).1
    · rw [hinsts, hl.always hop] at hs'
      refine ih (fun x hx => hbody x (List.mem_cons_of_mem _ hx)) ?_
      rw [hdelta]
      exact hs.moveStack hs'
  | @plain spAdj _ l _ ps hop hplace _ ih =>
    have hl := hbody l List.mem_cons_self
    refine ⟨fun _ hret => absurd hret (by simp [hl.stays]), fun s' heff hallowed => ?_⟩
    refine ih (fun x hx => hbody x (List.mem_cons_of_mem _ hx)) ?_
    exact hs.step hl.old hslots hl.spares heff hallowed
  | expand hop he _ ih =>
    refine Watch.Pieces.append ?_
    have hline := hbody _ List.mem_cons_self
    refine (pieces_of_expands hw he hline hlaid hslots hs).mono fun s' hs' => ?_
    exact ih (fun x hx => hbody x (List.mem_cons_of_mem _ hx)) hs'

/-- The markers of a body move the stack pointer by the difference of their sizes. -/
theorem Walks.spAdj_eq (hw : t.wide? = some w) (h : Walks t w p block spAdj ls spAdj' ps) :
    spAdj' = spAdj + ((setupSizes ls).map (t.markerAmount p)).sum -
      ((destroySizes ls).map (t.markerAmount p)).sum := by
  induction h with
  | nil => simp [setupSizes, destroySizes]
  | @marker spAdj _ l _ m _ hop hm _ ih =>
    obtain ⟨v, -, hdelta, hv⟩ := callFrame_facts hw hm
    rw [ih, hdelta, hv]
    cases hsetup : l.inst.info.flags.isSetup with
    | true =>
      have hdestroy : l.inst.info.flags.isDestroy = false := by
        revert hsetup
        show l.inst.op.info.flags.isSetup = true → l.inst.op.info.flags.isDestroy = false
        cases l.inst.op <;> decide
      simp only [setupSizes, destroySizes, List.filter_cons, hsetup, hdestroy, if_true,
        Bool.false_eq_true, if_false, List.map_cons, List.sum_cons]
      grind
    | false =>
      have hdestroy : l.inst.info.flags.isDestroy = true := by
        have hor : (l.inst.info.flags.isSetup || l.inst.info.flags.isDestroy) = true := hop
        rwa [hsetup, Bool.false_or] at hor
      simp only [setupSizes, destroySizes, List.filter_cons, hsetup, hdestroy, if_true,
        Bool.false_eq_true, if_false, List.map_cons, List.sum_cons]
      grind
  | @plain spAdj _ l _ _ hop _ _ ih | @expand spAdj _ l _ _ _ hop _ _ ih =>
    obtain ⟨hsetup, hdestroy⟩ := Bool.or_eq_false_iff.1 (Bool.not_eq_true _ ▸ hop)
    have hsetup : l.inst.info.flags.isSetup = false := hsetup
    have hdestroy : l.inst.info.flags.isDestroy = false := hdestroy
    simpa [setupSizes, destroySizes, List.filter_cons, hsetup, hdestroy] using ih

/-- Markers in balance open as much as they close. -/
theorem sum_eq_of_balanced (h : (setupSizes ls).Perm (destroySizes ls)) :
    ((setupSizes ls).map (t.markerAmount p)).sum =
      ((destroySizes ls).map (t.markerAmount p)).sum := by
  have hsum : ∀ {xs ys : List Int64}, xs.Perm ys → xs.sum = ys.sum := by
    intro xs ys hperm
    induction hperm with
    | nil => rfl
    | cons x _ ih => rw [List.sum_cons, List.sum_cons, ih]
    | swap x y l =>
      simp only [List.sum_cons]
      grind
    | trans _ _ ih ih' => exact ih.trans ih'
  exact hsum (h.map (t.markerAmount p))

/-- After a body whose markers are in balance the stack pointer is back. -/
theorem Walks.spAdj_of_balanced (hw : t.wide? = some w)
    (h : Walks t w p block spAdj ls spAdj' ps) (hbalanced : (setupSizes ls).Perm (destroySizes ls)) :
    spAdj' = spAdj := by
  rw [h.spAdj_eq hw, sum_eq_of_balanced hbalanced]
  grind

end

end Target

end FrameLowering
