import FrameLowering.Proofs.AreaAccess
import FrameLowering.Proofs.PrologueCode

/-!
# Execution of prologue and epilogue

The prologue moves the stack pointer down area by area and stores the registers of each area
once the stack pointer is at its bottom. `Target.Saving` says how far it has come. From the
entry of a function it leads to the state in which bodies run (`meets_prologue`). The epilogue
goes the same way back, and before a return the caller's state is restored
(`meets_epilogue`).
-/

namespace FrameLowering

open ImmediateField (word)

/-- Registers with slots share storage only with themselves. -/
theorem Reg.not_overlaps_of_hasSlot {a b : Reg} (ha : a.HasSlot) (hb : b.HasSlot) (h : a ≠ b) :
    ¬ a.overlaps b := by
  intro hover
  rcases hb with ⟨n, rfl⟩ | ⟨n, rfl⟩
  · exact h (Reg.overlaps_core_iff.1 hover)
  · rcases ha with ⟨m, rfl⟩ | ⟨m, rfl⟩
    · exact h (Reg.eq_of_core_overlaps hover).symm
    · simp only [overlaps, aliases] at hover
      split at hover <;> simp_all

namespace Target

/-- The frame of a function fits together, and every spilled register has a slot. -/
structure HasFrame (t : Target) (p : Procedure) : Prop where
  laid : t.IsLaidOut p
  areas : p.layout.hasStackFrame → t.HasAreas p
  bare : p.layout.hasStackFrame = false → p.frame.saved = []
  spilled : ∀ cs ∈ t.calleeSaved, p.layout.isSpilled cs.reg ↔ ∃ σ ∈ p.frame.saved, σ.reg = cs.reg

section
variable {t : Target} {w : WideSet} {p : Procedure} {k : Watch} {first : Nat} {entry : State}
  {pre post : State → Prop}

/-- The stack pointer is moved. -/
theorem meets_moveStack (hnew : k.PassesNew first) (v : Int64)
    (h : ∀ s, pre s → post (s.write Reg.sp (s.sp + word v))) :
    Meets t w p k first (w.moveStackAlways v) pre post := by
  refine meets_plain hnew (fun i hi => WideSet.plain_of_mem_addConstant hi) ?_
  intro s s' hs hexec
  rw [WideSet.execAll_moveStackAlways hexec]
  exact h s hs

/-- Moves between the bottoms of areas. -/
theorem AtArea.move {a b : Area} {x y v : Int64} {s : State} (hs : p.AtArea entry a s)
    (ha : p.layout.areaOffset a = .ok x) (hb : p.layout.areaOffset b = .ok y) (hv : y = x + v) :
    p.AtArea entry b (s.write Reg.sp (s.sp + word v)) := by
  intro bottom hbottom
  obtain rfl := Except.ok.inj (hb.symm.trans hbottom)
  rw [State.sp, Reg.sp, State.read_write_core, hs x ha, hv, ImmediateField.word_add]
  bv_omega

/-! ## Prologue -/

/-- Registers that a prologue has changed. -/
def changedBy (t : Target) (pointed : Bool) : List Reg :=
  if pointed then [Reg.sp, t.framePointer] else [Reg.sp]

/-- Some slots hold the values that their registers had on entry, the frame pointer points at
its slot if it was set, and every other register has its value. -/
structure Saving (t : Target) (p : Procedure) (entry : State) (done : List SavedSlot)
    (pointed : Bool) (s : State) : Prop where
  slots : ∀ σ ∈ done, ∀ o, p.frame.object? σ.index = some o →
    s.mem.loadWords (p.home entry o) σ.reg.cells.length = entry.value σ.reg
  regs : entry.AgreesOff (t.changedBy pointed) s
  pointer : pointed → ∀ o, p.frame.object? p.layout.fpSpillIndex = some o →
    s.read t.framePointer = p.home entry o

/-- A prologue has come to an area. -/
def SavingAt (t : Target) (p : Procedure) (entry : State) (done : List SavedSlot) (pointed : Bool)
    (a : Area) (s : State) : Prop :=
  t.Saving p entry done pointed s ∧ p.AtArea entry a s

section
variable {done σs rest : List SavedSlot} {pointed : Bool} {s : State} {σ : SavedSlot} {a : Area}
  {o : FrameObject}

theorem Saving.moveStack {v : Word} (h : t.Saving p entry done pointed s) :
    t.Saving p entry done pointed (s.write Reg.sp v) := by
  have hsp : Reg.sp ∈ t.changedBy pointed := by
    rw [changedBy]
    split <;> exact List.mem_cons_self
  refine ⟨h.slots, ?_, ?_⟩
  · intro c hc
    rw [State.write, State.cells_assign_of_notMem (hc _ hsp)]
    exact h.regs c hc
  · intro hp q hq
    have hne : ¬ Reg.sp.overlaps t.framePointer :=
      fun hover => t.framePointer_ne_sp (Reg.eq_of_core_overlaps hover)
    rw [State.read_write_of_ne hne]
    exact h.pointer hp q hq

/-- The frame pointer is set. -/
theorem Saving.point (h : t.Saving p entry done false s)
    (ho : p.frame.object? p.layout.fpSpillIndex = some o) :
    t.Saving p entry done true (s.write t.framePointer (p.home entry o)) := by
  refine ⟨h.slots, ?_, ?_⟩
  · intro c hc
    have hfp := hc t.framePointer (List.mem_cons_of_mem _ List.mem_cons_self)
    rw [State.write, State.cells_assign_of_notMem hfp]
    refine h.regs c fun r hr => hc r ?_
    obtain rfl := List.mem_singleton.1 hr
    exact List.mem_cons_self
  · intro _ q hq
    obtain rfl := Option.some.inj (ho.symm.trans hq)
    obtain ⟨n, hn⟩ := t.framePointer_core
    rw [hn, State.read_write_core]

/-- A slot in a row does not reach into those before it. -/
theorem HasAreas.apart (hareas : t.HasAreas p) (hsplit : p.frame.saved = done ++ σ :: rest)
    {τ : SavedSlot} (hτ : τ ∈ done) {q : FrameObject} (ho : p.frame.object? σ.index = some o)
    (hq : p.frame.object? τ.index = some q) {b : Word}
    (hb : Memory.Within (p.home entry q) (4 * τ.reg.cells.length) b) :
    ¬ Memory.Within (p.home entry o) (4 * σ.reg.cells.length) b := by
  have hbytes := hareas.row.savedBytes_le
  have htiles := hareas.tiles
  rw [hsplit, Frame.tiles_append] at htiles
  rw [hsplit, savedBytes_append, savedBytes_cons] at hbytes
  obtain ⟨hdone, ⟨o', ho', -, hoffset⟩, -⟩ := htiles
  obtain rfl := Option.some.inj (ho.symm.trans ho')
  obtain ⟨q', hq', -, hlo, hhi⟩ := hdone.mem hτ
  obtain rfl := Option.some.inj (hq.symm.trans hq')
  rw [SavedSlot.bytes] at hoffset hhi hbytes
  exact Memory.not_within_of_apart (by omega) (by omega) hb

/-- One more register is stored. -/
theorem Saving.store (h : t.Saving p entry done pointed s) (hareas : t.HasAreas p)
    (hsplit : p.frame.saved = done ++ σ :: rest)
    (hreg : ∀ r ∈ t.changedBy pointed, ¬ r.overlaps σ.reg)
    (ho : p.frame.object? σ.index = some o) :
    t.Saving p entry (done ++ [σ]) pointed
      { s with mem := s.mem.storeWords (p.home entry o) (s.value σ.reg) } := by
  have hvalue : s.value σ.reg = entry.value σ.reg := h.regs.value_eq hreg
  have hlen : (s.value σ.reg).length = σ.reg.cells.length := List.length_map _
  have hcells := length_cells_le σ.reg
  refine ⟨?_, h.regs, h.pointer⟩
  intro τ hτ q hq
  rcases List.mem_append.1 hτ with hτ | hτ
  · -- the slots that were filled before are apart from the new one
    rw [← h.slots τ hτ q hq]
    have hτcells := length_cells_le τ.reg
    refine Memory.loadWords_congr (by omega) fun b hb => ?_
    refine Memory.storeWords_of_not_within ?_ (by omega)
    rw [hlen]
    exact hareas.apart hsplit hτ ho hq hb
  · obtain rfl := List.mem_singleton.1 hτ
    obtain rfl := Option.some.inj (ho.symm.trans hq)
    rw [← hvalue, ← hlen]
    exact Memory.loadWords_storeWords (by omega)

/-- The registers of an area are stored one after another. -/
theorem meets_saves (hw : t.wide? = some w) (hnew : k.PassesNew first) (hareas : t.HasAreas p)
    (hsplit : p.frame.saved = done ++ (σs ++ rest)) (harea : ∀ σ ∈ σs, σ.area = a)
    (hreg : ∀ σ ∈ σs, ∀ r ∈ t.changedBy pointed, ¬ r.overlaps σ.reg) :
    Meets t w p k first (σs.map fun σ => t.instrSet.storeToSlot σ.reg σ.index)
      (t.SavingAt p entry done pointed a) (t.SavingAt p entry (done ++ σs) pointed a) := by
  rw [instrSet_of_wide hw]
  induction σs generalizing done with
  | nil =>
    rw [List.append_nil]
    exact meets_nil fun s hs => hs
  | cons σ σs ih =>
    have hσ : σ ∈ p.frame.saved := by
      rw [hsplit]
      exact List.mem_append_right _ List.mem_cons_self
    have hfirst : Meets t w p k first [w.set.storeToSlot σ.reg σ.index]
        (t.SavingAt p entry done pointed a) (t.SavingAt p entry (done ++ [σ]) pointed a) := by
      refine meets_store entry hnew hareas hσ (fun s hs => ?_) fun s o hs ho => ?_
      · rw [harea σ List.mem_cons_self]
        exact hs.2
      · exact ⟨hs.1.store hareas hsplit (hreg σ List.mem_cons_self) ho, hs.2⟩
    have hthen := @ih (done ++ [σ]) (by rw [hsplit]; simp)
      (fun τ hτ => harea τ (List.mem_cons_of_mem _ hτ))
      (fun τ hτ => hreg τ (List.mem_cons_of_mem _ hτ))
    rw [List.append_assoc] at hthen
    exact hfirst.append hthen

theorem meets_moveArea {b : Area} {x y v : Int64} (hnew : k.PassesNew first)
    (ha : p.layout.areaOffset a = .ok x) (hb : p.layout.areaOffset b = .ok y) (hv : y = x + v) :
    Meets t w p k first (w.moveStackAlways v) (t.SavingAt p entry done pointed a)
      (t.SavingAt p entry done pointed b) :=
  meets_moveStack hnew v fun _ hs => ⟨hs.1.moveStack, AtArea.move hs.2 ha hb hv⟩

/-- Saved registers are none of those that were changed, the frame pointer apart. -/
theorem not_overlaps_changedBy (hrow : t.IsSavedRow p.frame.saved) (hσ : σ ∈ p.frame.saved)
    (hpointer : pointed → σ.reg ≠ t.framePointer) :
    ∀ r ∈ t.changedBy pointed, ¬ r.overlaps σ.reg := by
  obtain ⟨cs, hcs, hreg, -⟩ := hrow.mem σ hσ
  have hsp : ¬ Reg.sp.overlaps σ.reg := by
    intro hover
    exact ne_sp_of_mem_calleeSaved hcs (hreg.trans (Reg.eq_of_core_overlaps hover))
  intro r hr
  rw [changedBy] at hr
  split at hr
  · next hp =>
    rcases List.mem_cons.1 hr with rfl | hr
    · exact hsp
    · obtain rfl := List.mem_singleton.1 hr
      obtain ⟨n, hn⟩ := t.framePointer_core
      intro hover
      rw [hn] at hover
      exact hpointer hp ((Reg.eq_of_core_overlaps hover).trans hn.symm)
  · obtain rfl := List.mem_singleton.1 hr
    exact hsp

theorem ne_framePointer_of_area (hrow : t.IsSavedRow p.frame.saved) (hσ : σ ∈ p.frame.saved)
    (harea : σ.area ≠ .gpr1) : σ.reg ≠ t.framePointer := by
  intro hreg
  refine harea ?_
  rw [hrow.area hσ, hreg]
  exact t.abi.area_framePointer

/-- After a prologue a body can run. -/
theorem Saving.located (h : t.Saving p entry p.frame.saved pointed s)
    (hspilled : pointed → p.layout.isSpilled t.framePointer)
    (hsets : p.layout.hasStackFrame → t.setsPointer p → pointed)
    (hsp : s.sp = entry.sp - word p.frame.varArgsSaveSize - word p.frame.stackSize) :
    t.Located p entry 0 s ∧ t.Preserves p entry [] s := by
  refine ⟨⟨fun _ => ?_, fun hframed hp => h.pointer (hsets hframed hp)⟩, h.slots, ?_⟩
  · rw [hsp, ImmediateField.word_zero]
    grind
  · intro cs hcs hout _
    refine h.regs.value_eq fun r hr hover => ?_
    rw [changedBy] at hr
    split at hr
    · next hp =>
      rcases List.mem_cons.1 hr with rfl | hr
      · exact ne_sp_of_mem_calleeSaved hcs (Reg.eq_of_core_overlaps hover)
      · -- a frame pointer that is set has a slot
        obtain rfl := List.mem_singleton.1 hr
        obtain ⟨n, hn⟩ := t.framePointer_core
        rw [hn] at hover
        refine hout ?_
        rw [Reg.eq_of_core_overlaps hover, ← hn]
        exact hspilled hp
    · obtain rfl := List.mem_singleton.1 hr
      exact ne_sp_of_mem_calleeSaved hcs (Reg.eq_of_core_overlaps hover)

end

/-- The registers of an area are stored, those of the first before the frame pointer is set. -/
theorem meets_savesIn {done rest : List SavedSlot} {pointed : Bool} {a : Area}
    (hw : t.wide? = some w) (hnew : k.PassesNew first) (hareas : t.HasAreas p)
    (hsplit : p.frame.saved = done ++ (inArea a p.frame.saved ++ rest))
    (hpointed : pointed → a ≠ .gpr1) :
    Meets t w p k first (t.savesIn p a) (t.SavingAt p entry done pointed a)
      (t.SavingAt p entry (done ++ inArea a p.frame.saved) pointed a) := by
  refine meets_saves hw hnew hareas hsplit (fun σ hσ => (mem_inArea.1 hσ).2) ?_
  intro σ hσ
  obtain ⟨hsaved, harea⟩ := mem_inArea.1 hσ
  refine not_overlaps_changedBy hareas.row hsaved fun hp => ?_
  exact ne_framePointer_of_area hareas.row hsaved (harea ▸ hpointed hp)

/-- The frame pointer is set with the stack pointer at the bottom of the first area. -/
theorem meets_setPointer {done : List SavedSlot} (hnew : k.PassesNew first)
    (hareas : t.HasAreas p) :
    Meets t w p k first (if t.setsPointer p then [t.pointAtSaved w p] else [])
      (t.SavingAt p entry done false .gpr1) (t.SavingAt p entry done (t.setsPointer p) .gpr1) := by
  cases hsets : t.setsPointer p with
  | false => exact meets_nil fun s hs => hs
  | true =>
    refine meets_pointAtSaved entry hnew hareas hsets (fun s hs => hs.2) ?_
    intro s o hs ho
    refine ⟨hs.1.point ho, ?_⟩
    intro bottom hbottom
    have hne : ¬ t.framePointer.overlaps Reg.sp := by
      intro hover
      exact t.framePointer_ne_sp (Reg.overlaps_core_iff.1 hover)
    rw [State.sp, State.read_write_of_ne hne]
    exact hs.2 bottom hbottom

/-- The prologue of a function with a stack frame, from the caller's arguments on. -/
theorem meets_prologueAreas (hw : t.wide? = some w) (hnew : k.PassesNew first)
    (hareas : t.HasAreas p) :
    Meets t w p k first
      (w.moveStackAlways (-p.layout.gpr1Size) ++ t.savesIn p .gpr1 ++
        (if t.setsPointer p then [t.pointAtSaved w p] else []) ++
        w.moveStackAlways (-p.layout.gpr2Size) ++ t.savesIn p .gpr2 ++
        w.moveStackAlways (-p.layout.dprSize) ++ t.savesIn p .dpr ++
        w.moveStackAlways (-p.layout.dprOffset))
      (fun s => t.Saving p entry [] false s ∧ s.sp = entry.sp - word p.frame.varArgsSaveSize)
      (fun s => t.Saving p entry p.frame.saved (t.setsPointer p) s ∧
        s.sp = entry.sp - word p.frame.varArgsSaveSize - word p.frame.stackSize) := by
  obtain ⟨-, -, -, hoff3, hoff2, hoff1, -, -⟩ := hareas.grouped
  have hsplit := hareas.row.eq_append
  rw [Layout.savedSize] at hoff3
  have hmove : Meets t w p k first (w.moveStackAlways (-p.layout.gpr1Size))
      (fun s => t.Saving p entry [] false s ∧ s.sp = entry.sp - word p.frame.varArgsSaveSize)
      (t.SavingAt p entry [] false .gpr1) := by
    refine meets_moveStack hnew _ fun s hs => ⟨hs.1.moveStack, ?_⟩
    intro bottom hbottom
    obtain rfl := Except.ok.inj hbottom
    rw [State.sp, Reg.sp, State.read_write_core, hs.2, hoff1, hoff2, hoff3]
    simp only [ImmediateField.word_add, ImmediateField.word_sub, ImmediateField.word_neg]
    grind
  have hsaves1 : Meets t w p k first (t.savesIn p .gpr1) (t.SavingAt p entry [] false .gpr1)
      (t.SavingAt p entry (inArea .gpr1 p.frame.saved) false .gpr1) :=
    meets_savesIn hw hnew hareas (hsplit.trans (List.append_assoc _ _ _))
      fun h => absurd h Bool.false_ne_true
  have hsaves2 : Meets t w p k first (t.savesIn p .gpr2)
      (t.SavingAt p entry (inArea .gpr1 p.frame.saved) (t.setsPointer p) .gpr2)
      (t.SavingAt p entry (inArea .gpr1 p.frame.saved ++ inArea .gpr2 p.frame.saved)
        (t.setsPointer p) .gpr2) :=
    meets_savesIn hw hnew hareas (hsplit.trans (List.append_assoc _ _ _)) fun _ => by decide
  have hsaves3 : Meets t w p k first (t.savesIn p .dpr)
      (t.SavingAt p entry (inArea .gpr1 p.frame.saved ++ inArea .gpr2 p.frame.saved)
        (t.setsPointer p) .dpr)
      (t.SavingAt p entry p.frame.saved (t.setsPointer p) .dpr) := by
    have hlast := @meets_savesIn t w p k first entry _ [] (t.setsPointer p) .dpr hw hnew hareas
      (hsplit.trans (by rw [List.append_nil])) fun _ => by decide
    rwa [← hsplit] at hlast
  have hlocals : Meets t w p k first (w.moveStackAlways (-p.layout.dprOffset))
      (t.SavingAt p entry p.frame.saved (t.setsPointer p) .dpr)
      (fun s => t.Saving p entry p.frame.saved (t.setsPointer p) s ∧
        s.sp = entry.sp - word p.frame.varArgsSaveSize - word p.frame.stackSize) := by
    refine meets_moveStack hnew _ fun s hs => ⟨hs.1.moveStack, ?_⟩
    rw [State.sp, Reg.sp, State.read_write_core, hs.2 _ rfl, ImmediateField.word_neg]
    grind
  have hmove2 (done : List SavedSlot) : Meets t w p k first (w.moveStackAlways (-p.layout.gpr2Size))
      (t.SavingAt p entry done (t.setsPointer p) .gpr1)
      (t.SavingAt p entry done (t.setsPointer p) .gpr2) :=
    meets_moveArea hnew rfl rfl (by rw [hoff1]; grind)
  have hmove3 (done : List SavedSlot) : Meets t w p k first (w.moveStackAlways (-p.layout.dprSize))
      (t.SavingAt p entry done (t.setsPointer p) .gpr2)
      (t.SavingAt p entry done (t.setsPointer p) .dpr) :=
    meets_moveArea hnew rfl rfl (by rw [hoff2]; grind)
  -- the frame pointer is in the first area, so that it is stored before it is set
  have hfirst := (hmove.append hsaves1).append (meets_setPointer hnew hareas)
  have hsecond := (hfirst.append (hmove2 _)).append hsaves2
  exact ((hsecond.append (hmove3 _)).append hsaves3).append hlocals

/-- The prologue leads from the entry of a function to the state in which bodies run. -/
theorem meets_prologue (hw : t.wide? = some w) (hnew : k.PassesNew first) (hframe : t.HasFrame p) :
    Meets t w p k first (t.prologueCode w p) (fun s => s = entry)
      (fun s => t.Located p entry 0 s ∧ t.Preserves p entry [] s) := by
  have hargs : Meets t w p k first (w.moveStackAlways (-p.frame.varArgsSaveSize))
      (fun s => s = entry)
      (fun s => t.Saving p entry [] false s ∧ s.sp = entry.sp - word p.frame.varArgsSaveSize) := by
    refine meets_moveStack hnew _ ?_
    rintro s rfl
    refine ⟨⟨fun σ hσ => absurd hσ List.not_mem_nil, ?_, fun h => absurd h Bool.false_ne_true⟩, ?_⟩
    · exact State.agreesOff_assign s _ _
    · rw [State.sp, Reg.sp, State.read_write_core, ImmediateField.word_neg]
      exact (BitVec.sub_eq_add_neg _ _).symm
  rw [prologueCode]
  refine hargs.append ?_
  cases hframed : p.layout.hasStackFrame with
  | true =>
    refine (meets_prologueAreas hw hnew (hframe.areas hframed)).mono (fun s hs => hs) fun s hs => ?_
    exact hs.1.located (hframe.laid.spilled hframed) (fun _ hsets => hsets) hs.2
  | false =>
    refine meets_moveStack hnew _ fun s hs => ?_
    have hsaving := hs.1.moveStack (v := s.sp + word (-p.frame.stackSize))
    rw [← hframe.bare hframed] at hsaving
    refine hsaving.located (fun h => absurd h Bool.false_ne_true) (fun h => ?_) ?_
    · rw [hframed] at h
      cases h
    · rw [State.sp, Reg.sp, State.read_write_core, hs.2, ImmediateField.word_neg]
      exact (BitVec.sub_eq_add_neg _ _).symm

/-! ## Epilogue -/

/-- The slots hold the caller's values, and so does every register that has no slot or was
restored. -/
structure Restoring (t : Target) (p : Procedure) (entry : State) (done : List SavedSlot)
    (s : State) : Prop where
  slots : ∀ σ ∈ p.frame.saved, ∀ o, p.frame.object? σ.index = some o →
    s.mem.loadWords (p.home entry o) σ.reg.cells.length = entry.value σ.reg
  regs : ∀ cs ∈ t.calleeSaved, (p.layout.isSpilled cs.reg → ∃ σ ∈ done, σ.reg = cs.reg) →
    s.value cs.reg = entry.value cs.reg

/-- An epilogue has come to an area. -/
def RestoringAt (t : Target) (p : Procedure) (entry : State) (guarded : Prop)
    (done : List SavedSlot) (a : Area) (s : State) : Prop :=
  (guarded → t.Restoring p entry done s) ∧ p.AtArea entry a s

section
variable {done σs : List SavedSlot} {guarded : Prop} {s : State} {σ : SavedSlot} {a : Area}
  {o : FrameObject}

theorem Restoring.moveStack {v : Word} (h : t.Restoring p entry done s) :
    t.Restoring p entry done (s.write Reg.sp v) := by
  refine ⟨h.slots, ?_⟩
  intro cs hcs hdone
  have hne : ¬ Reg.sp.overlaps cs.reg :=
    fun hover => ne_sp_of_mem_calleeSaved hcs (Reg.eq_of_core_overlaps hover)
  rw [State.write, State.value_assign_of_ne hne]
  exact h.regs cs hcs hdone

/-- One more register is loaded. -/
theorem Restoring.load (h : t.Restoring p entry done s) (hrow : t.IsSavedRow p.frame.saved)
    (hσ : σ ∈ p.frame.saved) (ho : p.frame.object? σ.index = some o) :
    t.Restoring p entry (σ :: done)
      (s.assign σ.reg (s.mem.loadWords (p.home entry o) σ.reg.cells.length)) := by
  have hslot := h.slots σ hσ o ho
  refine ⟨h.slots, ?_⟩
  intro cs hcs hdone
  by_cases hreg : σ.reg = cs.reg
  · rw [← hreg, hslot]
    exact State.value_assign (List.length_map _)
  · -- the value of another register is still the caller's
    have hne := Reg.not_overlaps_of_hasSlot (hrow.hasSlot hσ) (hasSlot_of_mem_calleeSaved hcs) hreg
    rw [State.value_assign_of_ne hne]
    refine h.regs cs hcs fun hspilled => ?_
    obtain ⟨τ, hτ, hτreg⟩ := hdone hspilled
    rcases List.mem_cons.1 hτ with rfl | hτ
    · exact absurd hτreg hreg
    · exact ⟨τ, hτ, hτreg⟩

/-- The registers of an area are loaded one after another. -/
theorem meets_restores (hw : t.wide? = some w) (hnew : k.PassesNew first) (hareas : t.HasAreas p)
    (hσs : ∀ σ ∈ σs, σ ∈ p.frame.saved ∧ σ.area = a) :
    Meets t w p k first (σs.map fun σ => t.instrSet.loadFromSlot σ.reg σ.index)
      (t.RestoringAt p entry guarded done a)
      (t.RestoringAt p entry guarded (σs.reverse ++ done) a) := by
  rw [instrSet_of_wide hw]
  induction σs generalizing done with
  | nil => exact meets_nil fun s hs => hs
  | cons σ σs ih =>
    obtain ⟨hσ, harea⟩ := hσs σ List.mem_cons_self
    have hfirst : Meets t w p k first [w.set.loadFromSlot σ.reg σ.index]
        (t.RestoringAt p entry guarded done a) (t.RestoringAt p entry guarded (σ :: done) a) := by
      refine meets_load entry hnew hareas hσ (fun s hs => harea ▸ hs.2) fun s o hs ho => ?_
      refine ⟨fun hg => (hs.1 hg).load hareas.row hσ ho, ?_⟩
      intro bottom hbottom
      obtain ⟨cs, hcs, hreg, -⟩ := hareas.row.mem σ hσ
      have hne : ¬ σ.reg.overlaps Reg.sp := by
        intro hover
        exact ne_sp_of_mem_calleeSaved hcs (hreg.trans (Reg.overlaps_core_iff.1 hover))
      rw [State.sp, State.read, State.value_assign_of_ne hne]
      exact hs.2 bottom hbottom
    have hthen := @ih (σ :: done) fun τ hτ => hσs τ (List.mem_cons_of_mem _ hτ)
    rw [List.reverse_cons, List.append_assoc]
    exact hfirst.append hthen

theorem meets_moveBack {b : Area} {x y v : Int64} (hnew : k.PassesNew first)
    (ha : p.layout.areaOffset a = .ok x) (hb : p.layout.areaOffset b = .ok y) (hv : y = x + v) :
    Meets t w p k first (w.moveStackAlways v) (t.RestoringAt p entry guarded done a)
      (t.RestoringAt p entry guarded done b) :=
  meets_moveStack hnew v fun _ hs =>
    ⟨fun hg => (hs.1 hg).moveStack, AtArea.move hs.2 ha hb hv⟩

/-- The distance from the frame pointer down to the bottom of the areas. -/
theorem HasAreas.pointer_range (h : t.HasAreas p) (hsets : t.setsPointer p) :
    ∃ o, p.frame.object? p.layout.fpSpillIndex = some o ∧
      p.layout.fpSpillOffset = o.offset + p.frame.stackSize ∧
      0 ≤ (p.layout.fpSpillOffset - p.layout.dprOffset).toInt ∧
      (p.layout.fpSpillOffset - p.layout.dprOffset).toInt ≤ 136 := by
  obtain ⟨σ, hσ, -, hindex, o, ho, hoffset⟩ := h.grouped.pointer hsets
  obtain ⟨q, hq, -, hlo, hhi⟩ := h.tiles.mem hσ
  obtain rfl := Option.some.inj (ho.symm.trans hq)
  have hle := h.row.savedBytes_le
  have hbytes : p.layout.savedSize = Int64.ofNat (savedBytes p.frame.saved) := by
    obtain ⟨hb1, hb2, hb3, -⟩ := h.row.savedBytes_inArea
    rw [h.row.eq_append, savedBytes_append, savedBytes_append, hb1, hb2, hb3, Int64.ofNat_add,
      Int64.ofNat_add, ← h.grouped.gpr1, ← h.grouped.gpr2, ← h.grouped.dpr]
    rfl
  have heq : p.layout.fpSpillOffset - p.layout.dprOffset =
      o.offset + Int64.ofNat (savedBytes p.frame.saved) := by
    rw [hoffset, h.grouped.dprOffset, ← hbytes]
    grind
  have hint := Int64.toInt_ofNat_of_lt (n := savedBytes p.frame.saved) (by omega)
  refine ⟨o, hindex ▸ ho, hoffset, ?_⟩
  rw [heq, toInt_add_of_range (by omega) (by omega), hint]
  omega

theorem plain_of_mem_unwindLocals {i : Inst} (hi : i ∈ t.unwindLocals w p) :
    i.isReturn = false ∧ i.op.isMarker = false ∧ i.frameIndexAt = none := by
  rw [unwindLocals] at hi
  simp only at hi
  split at hi
  · split at hi
    · exact WideSet.plain_of_mem_addConstant hi
    · obtain rfl := List.mem_singleton.1 hi
      cases w <;> exact ⟨rfl, rfl, rfl⟩
  · exact WideSet.plain_of_mem_addConstant hi

/-- The stack pointer comes to the bottom of the areas, from either pointer. -/
theorem execAll_unwindLocals {s' : State} (hareas : t.HasAreas p) (hframed : p.layout.hasStackFrame)
    (hs : t.Located p entry 0 s) (hexec : ExecAll (t.unwindLocals w p) s s') :
    ∃ v, s' = s.write Reg.sp v ∧
      v = entry.sp - word p.frame.varArgsSaveSize - word p.frame.stackSize +
        word p.layout.dprOffset := by
  rw [unwindLocals] at hexec
  simp only at hexec
  split at hexec
  · next hpointer =>
    -- the frame pointer is at its own slot, so that the distance to the areas is known
    have hsets : t.setsPointer p := by
      rw [setsPointer]
      revert hpointer
      cases t.abi.darwin <;> simp
    obtain ⟨o, ho, hoffset, hlo, hhi⟩ := hareas.pointer_range hsets
    have hread := hs.pointer hframed hsets o ho
    split at hexec
    · next hne =>
      have hword : word (-(p.layout.fpSpillOffset - p.layout.dprOffset)) ≠ 0 := by
        rw [ImmediateField.word_neg]
        have := ImmediateField.word_ne_zero (by omega) (by omega) hne
        grind
      have hs' := WideSet.execAll_addConstant hexec
      rw [if_pos ⟨.inl rfl, hword⟩] at hs'
      refine ⟨_, hs', ?_⟩
      rw [hread, hoffset, Procedure.home]
      simp only [ImmediateField.word_add, ImmediateField.word_sub, ImmediateField.word_neg]
      grind
    · next hzero =>
      obtain ⟨m, heff, rfl⟩ := hexec
      have hacts : s' = s.write Reg.sp (s.read t.framePointer) := by
        cases w <;> exact (Inst.effect_iff_acts rfl).1 heff
      refine ⟨_, hacts, ?_⟩
      have heq : p.layout.dprOffset = o.offset + p.frame.stackSize := by
        rw [← hoffset]
        grind
      rw [hread, heq, Procedure.home, ImmediateField.word_add]
      grind
  · next hpointer =>
    -- without a frame pointer the stack pointer is where the prologue left it
    have hnone : ¬ t.hasPointer p := by
      intro hp
      simp [hp] at hpointer
    refine ⟨_, WideSet.execAll_moveStackAlways hexec, ?_⟩
    rw [hs.stack hnone, ImmediateField.word_zero]
    grind

end

/-- The epilogue of a function with a stack frame, up to the caller's arguments. -/
theorem meets_epilogueAreas {guarded : Prop} (hw : t.wide? = some w) (hnew : k.PassesNew first)
    (hareas : t.HasAreas p) (hframed : p.layout.hasStackFrame) :
    Meets t w p k first
      (t.unwindLocals w p ++ t.restoresIn p .dpr ++
        w.moveStackAlways p.layout.dprSize ++ t.restoresIn p .gpr2 ++
        w.moveStackAlways p.layout.gpr2Size ++ t.restoresIn p .gpr1 ++
        w.moveStackAlways p.layout.gpr1Size)
      (t.Steady p entry guarded [] 0)
      (fun s => (guarded → t.Restoring p entry p.frame.saved s) ∧
        s.sp = entry.sp - word p.frame.varArgsSaveSize) := by
  obtain ⟨-, -, -, hoff3, hoff2, hoff1, -, -⟩ := hareas.grouped
  rw [Layout.savedSize] at hoff3
  have hunwind : Meets t w p k first (t.unwindLocals w p) (t.Steady p entry guarded [] 0)
      (t.RestoringAt p entry guarded [] .dpr) := by
    refine meets_plain hnew (fun i hi => plain_of_mem_unwindLocals hi) fun s s' hs hexec => ?_
    obtain ⟨v, rfl, hv⟩ := execAll_unwindLocals hareas hframed hs.located hexec
    refine ⟨fun hg => Restoring.moveStack ⟨(hs.preserves hg).slots, ?_⟩, ?_⟩
    · intro cs hcs hnone
      refine (hs.preserves hg).regs cs hcs (fun hspilled => ?_) List.not_mem_nil
      obtain ⟨σ, hσ, -⟩ := hnone hspilled
      exact absurd hσ List.not_mem_nil
    · intro bottom hbottom
      obtain rfl := Except.ok.inj hbottom
      rw [State.sp, Reg.sp, State.read_write_core, hv]
  have hrestores (a : Area) (done : List SavedSlot) : Meets t w p k first (t.restoresIn p a)
      (t.RestoringAt p entry guarded done a)
      (t.RestoringAt p entry guarded (inArea a p.frame.saved ++ done) a) := by
    have h := @meets_restores t w p k first entry done (inArea a p.frame.saved).reverse guarded a
      hw hnew hareas fun σ hσ => mem_inArea.1 (List.mem_reverse.1 hσ)
    rwa [List.reverse_reverse] at h
  have hmove3 (done : List SavedSlot) : Meets t w p k first (w.moveStackAlways p.layout.dprSize)
      (t.RestoringAt p entry guarded done .dpr) (t.RestoringAt p entry guarded done .gpr2) :=
    meets_moveBack hnew rfl rfl hoff2
  have hmove2 (done : List SavedSlot) : Meets t w p k first (w.moveStackAlways p.layout.gpr2Size)
      (t.RestoringAt p entry guarded done .gpr2) (t.RestoringAt p entry guarded done .gpr1) :=
    meets_moveBack hnew rfl rfl hoff1
  have hmove1 : Meets t w p k first (w.moveStackAlways p.layout.gpr1Size)
      (t.RestoringAt p entry guarded (inArea .gpr1 p.frame.saved ++
        (inArea .gpr2 p.frame.saved ++ (inArea .dpr p.frame.saved ++ []))) .gpr1)
      (fun s => (guarded → t.Restoring p entry p.frame.saved s) ∧
        s.sp = entry.sp - word p.frame.varArgsSaveSize) := by
    rw [List.append_nil, ← List.append_assoc, ← hareas.row.eq_append]
    refine meets_moveStack hnew _ fun s hs => ⟨fun hg => (hs.1 hg).moveStack, ?_⟩
    rw [State.sp, Reg.sp, State.read_write_core, hs.2 _ rfl, hoff1, hoff2, hoff3]
    simp only [ImmediateField.word_add, ImmediateField.word_sub]
    grind
  exact (((((hunwind.append (hrestores _ _)).append (hmove3 _)).append (hrestores _ _)).append
    (hmove2 _)).append (hrestores _ _)).append hmove1

/-- The epilogue gives the caller's state back. -/
theorem meets_epilogue {guarded : Prop} (hw : t.wide? = some w) (hnew : k.PassesNew first)
    (hframe : t.HasFrame p) :
    Meets t w p k first (t.epilogueCode w p) (t.Steady p entry guarded [] 0)
      (fun s => guarded → t.Restores entry s) := by
  have hargs : Meets t w p k first (w.moveStackAlways p.frame.varArgsSaveSize)
      (fun s => (guarded → t.Restoring p entry p.frame.saved s) ∧
        s.sp = entry.sp - word p.frame.varArgsSaveSize)
      (fun s => guarded → t.Restores entry s) := by
    refine meets_moveStack hnew _ fun s hs hg => ⟨?_, ?_⟩
    · rw [State.sp, Reg.sp, State.read_write_core, hs.2]
      grind
    · intro cs hcs
      exact (hs.1 hg).moveStack.regs cs hcs (hframe.spilled cs hcs).1
  rw [epilogueCode]
  refine Meets.append ?_ hargs
  cases hframed : p.layout.hasStackFrame with
  | true => exact meets_epilogueAreas hw hnew (hframe.areas hframed) hframed
  | false =>
    have hsaved := hframe.bare hframed
    -- without a stack frame there is no frame pointer, and nothing was saved
    have hpointer : ¬ t.hasPointer p := by
      intro hp
      have := hframe.laid.framed hp
      rw [hframed] at this
      cases this
    refine meets_moveStack hnew _ fun s hs => ⟨fun hg => Restoring.moveStack ⟨?_, ?_⟩, ?_⟩
    · exact (hs.preserves hg).slots
    · intro cs hcs hnone
      refine (hs.preserves hg).regs cs hcs (fun hspilled => ?_) List.not_mem_nil
      obtain ⟨σ, hσ, -⟩ := hnone hspilled
      rw [hsaved] at hσ
      exact absurd hσ List.not_mem_nil
    · rw [State.sp, Reg.sp, State.read_write_core]
      show s.sp + _ = _
      rw [hs.located.stack hpointer, ImmediateField.word_zero]
      grind

end

end Target

end FrameLowering
