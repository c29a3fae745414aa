import FrameLowering.Proofs.FrameCode

/-!
# The code of prologue and epilogue

The prologue and the epilogue are put together around the stores and loads of the saved
registers that are already there. As these come area by area, and no other line is taken for
one of them, the code is what `prologueCode` and `epilogueCode` say.
-/

namespace FrameLowering

/-- A stage after another succeeds from where the first ended. -/
theorem Lowering.of_bind {α β : Type} {x : Lowering α} {f : α → Lowering β} {b : β}
    {p q : Procedure} (h : (x >>= f) p = .ok b q) : ∃ a m, x p = .ok a m ∧ f a m = .ok b q := by
  cases hx : x p with
  | error e m => simp [bind, EStateM.bind, hx] at h
  | ok a m =>
    simp only [bind, EStateM.bind, hx] at h
    exact ⟨a, m, rfl, h⟩

/-- A cursor that has passed some lines, and then new ones with the instructions `is`, and
has the lines `ys` ahead. -/
structure Cursor.Passed (first : Nat) (xs : List Line) (is : List Inst) (ys : List Line)
    (c : Cursor) : Prop where
  passed : ∃ es, Line.IsNew first is es ∧ c.passed = xs ++ es
  rest : c.rest = ys
  fresh : first ≤ c.fresh

namespace Cursor.Passed

variable {first : Nat} {xs ys zs : List Line} {is js : List Inst} {c : Cursor}

theorem emit (h : Passed first xs is ys c) (js : List Inst) :
    Passed first xs (is ++ js) ys (c.emit js) := by
  obtain ⟨es, hes, hpassed⟩ := h.passed
  refine ⟨⟨es ++ Line.number c.fresh js, hes.append (Line.isNew_number h.fresh js), ?_⟩, h.rest,
    Nat.le_add_right_of_le h.fresh⟩
  show c.passed ++ _ = _
  rw [hpassed, List.append_assoc]

theorem skip (h : Passed first xs is (zs ++ ys) c) (test : Inst → Bool)
    (hzs : Line.IsNew first js zs) (hpos : ∀ i ∈ js, test i) (hneg : ∀ l ∈ ys, ¬ test l.inst) :
    Passed first xs (is ++ js) ys (c.skip test) := by
  obtain ⟨es, hes, hpassed⟩ := h.passed
  have hall : ∀ l ∈ zs, test l.inst := fun l hl => hpos _ (hzs.mem hl)
  have htake : ys.takeWhile (fun l => test l.inst) = [] := by
    cases ys with
    | nil => rfl
    | cons y ys => rw [List.takeWhile_cons, if_neg (hneg y List.mem_cons_self)]
  have hdrop : ys.dropWhile (fun l => test l.inst) = ys := by
    cases ys with
    | nil => rfl
    | cons y ys => rw [List.dropWhile_cons, if_neg (hneg y List.mem_cons_self)]
  refine ⟨⟨es ++ zs, hes.append hzs, ?_⟩, ?_, h.fresh⟩
  · show c.passed ++ c.rest.takeWhile _ = _
    rw [h.rest, hpassed, List.takeWhile_append_of_pos hall, htake, List.append_nil,
      List.append_assoc]
  · show c.rest.dropWhile _ = _
    rw [h.rest, List.dropWhile_append_of_pos hall, hdrop]

end Cursor.Passed

namespace Target

/-- Stores of the registers that are saved in an area. -/
def savesIn (t : Target) (p : Procedure) (a : Area) : List Inst :=
  (inArea a p.frame.saved).map fun σ => t.instrSet.storeToSlot σ.reg σ.index

/-- Loads of the registers that are saved in an area, in the reverse order. -/
def restoresIn (t : Target) (p : Procedure) (a : Area) : List Inst :=
  (inArea a p.frame.saved).reverse.map fun σ => t.instrSet.loadFromSlot σ.reg σ.index

/-- The code in front of a function. -/
def prologueCode (t : Target) (w : WideSet) (p : Procedure) : List Inst :=
  w.moveStackAlways (-p.frame.varArgsSaveSize) ++
    if p.layout.hasStackFrame then
      w.moveStackAlways (-p.layout.gpr1Size) ++ t.savesIn p .gpr1 ++
        (if t.setsPointer p then [t.pointAtSaved w p] else []) ++
        w.moveStackAlways (-p.layout.gpr2Size) ++ t.savesIn p .gpr2 ++
        w.moveStackAlways (-p.layout.dprSize) ++ t.savesIn p .dpr ++
        w.moveStackAlways (-p.layout.dprOffset)
    else w.moveStackAlways (-p.frame.stackSize)

/-- The code before a return. -/
def epilogueCode (t : Target) (w : WideSet) (p : Procedure) : List Inst :=
  (if p.layout.hasStackFrame then
      t.unwindLocals w p ++ t.restoresIn p .dpr ++
        w.moveStackAlways p.layout.dprSize ++ t.restoresIn p .gpr2 ++
        w.moveStackAlways p.layout.gpr2Size ++ t.restoresIn p .gpr1 ++
        w.moveStackAlways p.layout.gpr1Size
    else w.moveStackAlways p.frame.stackSize) ++
    w.moveStackAlways p.frame.varArgsSaveSize

section
variable {t : Target} {w : WideSet} {p : Procedure} {σ : SavedSlot} {a : Area}

theorem saves_eq (hrow : t.IsSavedRow p.frame.saved) :
    t.saves p = t.savesIn p .gpr1 ++ t.savesIn p .gpr2 ++ t.savesIn p .dpr := by
  simp only [savesIn, ← List.map_append]
  rw [← hrow.eq_append]
  rfl

theorem restores_eq (hrow : t.IsSavedRow p.frame.saved) :
    t.restores p = t.restoresIn p .dpr ++ t.restoresIn p .gpr2 ++ t.restoresIn p .gpr1 := by
  simp only [restoresIn, ← List.map_append, ← List.reverse_append, ← List.append_assoc]
  rw [← hrow.eq_append]
  rfl

/-! ## Which lines access slots of saved registers -/

/-- An instruction that accesses no slot of a saved register. -/
def LeavesSlots (p : Procedure) (i : Inst) : Prop :=
  ∀ index, .frameIndex index ∈ i.operands → index ∉ p.frame.saved.map SavedSlot.index

/-- What the stages that insert the frame's code find: the old lines of `p` are still there and
stay clear of the slots of saved registers. -/
structure TakesFrame (t : Target) (p q : Procedure) : Prop where
  row : t.IsSavedRow q.frame.saved
  bare : q.layout.hasStackFrame = false → q.frame.saved = []
  clear : ∀ b ∈ p.blocks, ∀ l ∈ b.lines, LeavesSlots q l.inst

theorem inSpillSlot_of_leavesSlots {i : Inst} (h : LeavesSlots p i) : p.inSpillSlot i = false := by
  rw [Procedure.inSpillSlot]
  split
  · next o index rest hoperands =>
    rw [List.any_eq_false]
    intro σ hσ hboth
    simp only [Bool.and_eq_true, decide_eq_true_eq] at hboth
    refine h index (hoperands ▸ List.mem_cons_of_mem _ List.mem_cons_self) ?_
    exact hboth.2 ▸ List.mem_map_of_mem hσ
  · rfl

theorem not_isSavedAccess_of_leavesSlots {i : Inst} {op : Opcode} (h : LeavesSlots p i) :
    ¬ t.isSavedAccess p op a i := by
  rw [isSavedAccess, inSpillSlot_of_leavesSlots h, Bool.and_false, Bool.false_and]
  simp

theorem not_isSavedAccess_of_op {i : Inst} {op : Opcode} (h : i.op ≠ op) :
    ¬ t.isSavedAccess p op a i := by
  rw [isSavedAccess, decide_eq_false h, Bool.false_and, Bool.false_and]
  simp

/-- An access to a slot belongs to the area of the slot. -/
theorem isSavedAccess_iff {i : Inst} {d k : Bool} {rest : List Operand}
    (hrow : t.IsSavedRow p.frame.saved) (hσ : σ ∈ p.frame.saved)
    (hi : i.operands = .reg σ.reg d k :: .frameIndex σ.index :: rest) :
    t.isSavedAccess p i.op a i ↔ σ.area = a := by
  have hslot : p.inSpillSlot i = true := by
    rw [Procedure.inSpillSlot, hi]
    refine List.any_eq_true.2 ⟨σ, hσ, ?_⟩
    simp [Operand.register]
  rw [isSavedAccess, hslot, hi, hrow.area hσ, decide_eq_true rfl, Bool.and_self, Bool.true_and]
  exact decide_eq_true_iff

theorem operands_storeToSlot (w : WideSet) {r : Reg} (hr : r.HasSlot) (index : Int64) :
    ∃ rest, (w.set.storeToSlot r index).operands = .reg r false true :: .frameIndex index :: rest := by
  rcases hr with ⟨n, rfl⟩ | ⟨n, rfl⟩
  all_goals cases w <;> exact ⟨_, rfl⟩

theorem operands_loadFromSlot (w : WideSet) {r : Reg} (hr : r.HasSlot) (index : Int64) :
    ∃ rest, (w.set.loadFromSlot r index).operands = .reg r true false :: .frameIndex index :: rest := by
  rcases hr with ⟨n, rfl⟩ | ⟨n, rfl⟩
  all_goals cases w <;> exact ⟨_, rfl⟩

/-- A store or load of a saved register is taken for one of its own area only. -/
theorem not_isSavedAccess_of_area {i : Inst} {d k : Bool} {rest : List Operand} {op : Opcode}
    (hrow : t.IsSavedRow p.frame.saved) (hσ : σ ∈ p.frame.saved)
    (hi : i.operands = .reg σ.reg d k :: .frameIndex σ.index :: rest) (ha : σ.area ≠ a) :
    ¬ t.isSavedAccess p op a i := by
  by_cases hop : i.op = op
  · rw [← hop, isSavedAccess_iff hrow hσ hi]
    exact ha
  · exact not_isSavedAccess_of_op hop

/-- The opcodes that store and load a saved register. -/
theorem op_of_area (w : WideSet) (hrow : t.IsSavedRow p.frame.saved) (hσ : σ ∈ p.frame.saved) :
    w.set.storeOf σ.reg = (if σ.area = .dpr then .fstd else w.set.store) ∧
      w.set.loadOf σ.reg = if σ.area = .dpr then .fldd else w.set.load := by
  have hcore : ∀ r ∈ Abi.savableCores, ∃ n, r = .core n := by decide
  have hdouble : ∀ r ∈ Abi.savableDoubles, ∃ n, r = .double n := by decide
  rcases hrow.cases hσ with ⟨hmem, harea⟩ | ⟨hmem, harea⟩
  · obtain ⟨n, hn⟩ := hcore _ hmem
    have hne : σ.area ≠ .dpr := by rcases harea with h | h <;> simp [h]
    rw [if_neg hne, if_neg hne, hn]
    exact ⟨rfl, rfl⟩
  · obtain ⟨n, hn⟩ := hdouble _ hmem
    rw [if_pos harea, if_pos harea, hn]
    exact ⟨rfl, rfl⟩

theorem savesIn_facts (hw : t.wide? = some w) (hrow : t.IsSavedRow p.frame.saved) {i : Inst}
    (hi : i ∈ t.savesIn p a) :
    t.isSavedAccess p (if a = .dpr then .fstd else t.instrSet.store) a i ∧
      (∀ op a', a ≠ a' → ¬ t.isSavedAccess p op a' i) ∧ i.isReturn = false ∧
      ¬ t.isRestore p i := by
  obtain ⟨σ, hin, rfl⟩ := List.mem_map.1 hi
  obtain ⟨hσ, rfl⟩ := mem_inArea.1 hin
  rw [isRestore, instrSet_of_wide hw]
  obtain ⟨rest, hoperands⟩ := operands_storeToSlot w (hrow.hasSlot hσ) σ.index
  have hop : (w.set.storeToSlot σ.reg σ.index).op =
      if σ.area = .dpr then .fstd else w.set.store := (op_of_area w hrow hσ).1
  refine ⟨?_, fun op a' ha => not_isSavedAccess_of_area hrow hσ hoperands ha, ?_, ?_⟩
  · rw [← hop]
    exact (isSavedAccess_iff hrow hσ hoperands).2 rfl
  · exact (w.isSlotAccess_storeToSlot (hrow.hasSlot hσ) σ.index).flags.1
  · rw [hop]
    split
    · cases w <;> simp [WideSet.set, InstrSet.load]
    · cases w <;> simp [WideSet.set, InstrSet.load, InstrSet.store]

theorem restoresIn_facts (hw : t.wide? = some w) (hrow : t.IsSavedRow p.frame.saved) {i : Inst}
    (hi : i ∈ t.restoresIn p a) :
    t.isSavedAccess p (if a = .dpr then .fldd else t.instrSet.load) a i ∧
      (∀ op a', a ≠ a' → ¬ t.isSavedAccess p op a' i) ∧ i.isReturn = false ∧
      t.isRestore p i ∧ i.op ≠ t.instrSet.store ∧ i.op ≠ .fstd := by
  obtain ⟨σ, hin, rfl⟩ := List.mem_map.1 hi
  obtain ⟨hσ, rfl⟩ := mem_inArea.1 (List.mem_reverse.1 hin)
  rw [isRestore, instrSet_of_wide hw]
  obtain ⟨rest, hoperands⟩ := operands_loadFromSlot w (hrow.hasSlot hσ) σ.index
  have hop : (w.set.loadFromSlot σ.reg σ.index).op =
      if σ.area = .dpr then .fldd else w.set.load := (op_of_area w hrow hσ).2
  have hslot : p.inSpillSlot (w.set.loadFromSlot σ.reg σ.index) = true := by
    rw [Procedure.inSpillSlot, hoperands]
    exact List.any_eq_true.2 ⟨σ, hσ, by simp [Operand.register]⟩
  refine ⟨?_, fun op a' ha => not_isSavedAccess_of_area hrow hσ hoperands ha, ?_, ?_, ?_, ?_⟩
  · rw [← hop]
    exact (isSavedAccess_iff hrow hσ hoperands).2 rfl
  · exact (w.isSlotAccess_loadFromSlot (hrow.hasSlot hσ) σ.index).flags.1
  · rw [hslot, hop, Bool.and_true]
    split <;> simp
  · rw [hop]
    split <;> cases w <;> simp [WideSet.set, InstrSet.load, InstrSet.store]
  · rw [hop]
    split <;> cases w <;> simp [WideSet.set, InstrSet.load]

/-! ## Prologue -/

/-- The cursor of a prologue with a stack frame passes the stores area by area. -/
theorem passed_prologue {first : Nat} {is : List Inst} {as ys : List Line} {c : Cursor}
    (hw : t.wide? = some w) (hrow : t.IsSavedRow p.frame.saved)
    (has : Line.IsNew first (t.saves p) as) (hc : c.Passed first [] is (as ++ ys))
    (hys : ∀ l ∈ ys, ∀ a, ¬ t.isSavedAccess p t.instrSet.store a l.inst ∧
      ¬ t.isSavedAccess p .fstd a l.inst) :
    ∃ as', Line.IsNew first (is ++ (w.moveStackAlways (-p.layout.gpr1Size) ++ t.savesIn p .gpr1 ++
        (if t.setsPointer p then [t.pointAtSaved w p] else []) ++
        w.moveStackAlways (-p.layout.gpr2Size) ++ t.savesIn p .gpr2 ++
        w.moveStackAlways (-p.layout.dprSize) ++ t.savesIn p .dpr ++
        w.moveStackAlways (-p.layout.dprOffset))) as' ∧
      (t.prologueTail w p (t.prologueHead w p c)).passed ++
        (t.prologueTail w p (t.prologueHead w p c)).rest = as' ++ ys ∧
      first ≤ (t.prologueTail w p (t.prologueHead w p c)).fresh := by
  rw [saves_eq hrow] at has
  obtain ⟨as12, as3, rfl, has12, has3⟩ := has.append_inv
  obtain ⟨as1, as2, rfl, has1, has2⟩ := has12.append_inv
  have hskip1 : (t.prologueHead w p c).Passed first []
      (is ++ w.moveStackAlways (-p.layout.gpr1Size) ++ t.savesIn p .gpr1) (as2 ++ (as3 ++ ys)) := by
    have hemit := hc.emit (w.moveStackAlways (-p.layout.gpr1Size))
    rw [List.append_assoc, List.append_assoc] at hemit
    refine hemit.skip _ has1 (fun i hi => (savesIn_facts hw hrow hi).1) fun l hl => ?_
    rcases List.mem_append.1 hl with hl | hl
    · exact (savesIn_facts hw hrow (has2.mem hl)).2.1 _ _ (by decide)
    · rcases List.mem_append.1 hl with hl | hl
      · exact (savesIn_facts hw hrow (has3.mem hl)).2.1 _ _ (by decide)
      · exact (hys l hl _).1
  have hpointer : (if t.setsPointer p then (t.prologueHead w p c).emit [t.pointAtSaved w p]
      else t.prologueHead w p c).Passed first []
      (is ++ w.moveStackAlways (-p.layout.gpr1Size) ++ t.savesIn p .gpr1 ++
        if t.setsPointer p then [t.pointAtSaved w p] else []) (as2 ++ (as3 ++ ys)) := by
    split
    · exact hskip1.emit _
    · rw [List.append_nil]
      exact hskip1
  have hskip2 := (hpointer.emit (w.moveStackAlways (-p.layout.gpr2Size))).skip
    (t.isSavedAccess p t.instrSet.store .gpr2) has2
    (fun i hi => (savesIn_facts hw hrow hi).1) fun l hl => by
      rcases List.mem_append.1 hl with hl | hl
      · exact (savesIn_facts hw hrow (has3.mem hl)).2.1 _ _ (by decide)
      · exact (hys l hl _).1
  have hmove := hskip2.emit (w.moveStackAlways (-p.layout.dprSize))
  rw [prologueTail]
  by_cases hzero : p.layout.dprOffset ≠ 0
  · rw [if_pos hzero]
    have hskip3 := (hmove.skip (t.isSavedAccess p .fstd .dpr) has3
      (fun i hi => (savesIn_facts hw hrow hi).1) fun l hl => (hys l hl _).2).emit
      (w.moveStackAlways (-p.layout.dprOffset))
    obtain ⟨es, hes, hpassed⟩ := hskip3.passed
    refine ⟨es, ?_, ?_, hskip3.fresh⟩
    · simpa only [List.append_assoc] using hes
    · rw [hpassed, hskip3.rest, List.nil_append]
  · rw [if_neg hzero]
    obtain ⟨es, hes, hpassed⟩ := hmove.passed
    have hnone : w.moveStackAlways (-p.layout.dprOffset) = [] := by
      rw [not_not.1 hzero]
      cases w <;> rfl
    refine ⟨es ++ as3, ?_, ?_, hmove.fresh⟩
    · rw [hnone, List.append_nil]
      simpa only [List.append_assoc] using hes.append has3
    · rw [hpassed, hmove.rest, List.nil_append, List.append_assoc]

/-- Lines that were there, or are loads of saved registers, are not taken for stores. -/
theorem not_isSave {first : Nat} {b : Block} {es : List Line} {q : Procedure}
    (hw : t.wide? = some w) (htakes : t.TakesFrame p q) (hb : b ∈ p.blocks)
    (hes : Line.IsNew first (if b.isReturn then t.restores q else []) es) :
    ∀ l ∈ b.body ++ es ++ b.exit, ∀ a, ¬ t.isSavedAccess q t.instrSet.store a l.inst ∧
      ¬ t.isSavedAccess q .fstd a l.inst := by
  intro l hl a
  have hblock (hin : l ∈ b.body ++ b.exit) : ¬ t.isSavedAccess q t.instrSet.store a l.inst ∧
      ¬ t.isSavedAccess q .fstd a l.inst := by
    rw [b.body_append_exit] at hin
    exact ⟨not_isSavedAccess_of_leavesSlots (htakes.clear b hb l hin),
      not_isSavedAccess_of_leavesSlots (htakes.clear b hb l hin)⟩
  rcases List.mem_append.1 hl with hl | hl
  · rcases List.mem_append.1 hl with hl | hl
    · exact hblock (List.mem_append_left _ hl)
    · have hmem := hes.mem hl
      split at hmem
      · simp only [restores_eq htakes.row, List.mem_append] at hmem
        have hops : l.inst.op ≠ t.instrSet.store ∧ l.inst.op ≠ .fstd := by
          rcases hmem with (hmem | hmem) | hmem
          all_goals exact (restoresIn_facts hw htakes.row hmem).2.2.2.2
        exact ⟨not_isSavedAccess_of_op hops.1, not_isSavedAccess_of_op hops.2⟩
      · exact absurd hmem List.not_mem_nil
  · exact hblock (List.mem_append_right _ hl)

/-- The cursor of a prologue after the save area of the arguments. -/
def prologueStart (w : WideSet) (p : Procedure) : Cursor :=
  Cursor.emit ⟨[], p.lines 0, p.fresh⟩ (w.moveStackAlways (-p.frame.varArgsSaveSize))

/-- The cursor at the end of a prologue. -/
def prologueEnd (t : Target) (w : WideSet) (p : Procedure) : Cursor :=
  if p.layout.hasStackFrame then t.prologueTail w p (t.prologueHead w p (prologueStart w p))
  else (prologueStart w p).emit (w.moveStackAlways (-p.frame.stackSize))

/-- A prologue is written into the first block by one run of a cursor. Other than that, only the
debug offsets may change. -/
theorem of_emitPrologue {q : Procedure} (h : t.emitPrologue p = .ok () q) :
    ∃ w, t.wide? = some w ∧ p.blocks ≠ [] ∧ ∃ offsetAdjustment,
      q = { p.setCursor 0 (t.prologueEnd w p) with
        frame := { p.frame with offsetAdjustment } } := by
  rw [emitPrologue] at h
  split at h
  · cases h
  · cases h
  next w entry others hw hblocks =>
  have hlines : entry.lines = p.lines 0 := by rw [Procedure.lines, hblocks]; rfl
  rw [hlines] at h
  refine ⟨w, hw, by simp [hblocks], ?_⟩
  rw [prologueEnd]
  simp only at h
  split at h
  · next hframe =>
    obtain ⟨-, rfl⟩ := EStateM.Result.ok.inj h
    rw [if_neg (by simpa using hframe)]
    exact ⟨_, rfl⟩
  · next hframe =>
    split at h
    · cases h
    obtain ⟨-, rfl⟩ := EStateM.Result.ok.inj h
    rw [if_pos (by simpa using hframe), adjustOffsets]
    split
    · exact ⟨_, rfl⟩
    · exact ⟨_, rfl⟩

theorem shape_of_emitPrologue {q : Procedure} (hw : t.wide? = some w)
    (h : t.emitPrologue p = .ok () q) :
    p.blocks ≠ [] ∧ ∃ offsetAdjustment, q = { p.setCursor 0 (t.prologueEnd w p) with
      frame := { p.frame with offsetAdjustment } } := by
  obtain ⟨w', hw', hshape⟩ := of_emitPrologue h
  obtain rfl := Option.some.inj (hw.symm.trans hw')
  exact hshape

/-- In front of the first block the stores of the saved registers are made into a prologue. -/
theorem passed_prologueEnd {first : Nat} {q : Procedure} {b : Block} {as es : List Line}
    (hw : t.wide? = some w) (htakes : t.TakesFrame p q) (hfresh : first ≤ q.fresh)
    (hb : b ∈ p.blocks) (has : Line.IsNew first (t.saves q) as)
    (hes : Line.IsNew first (if b.isReturn then t.restores q else []) es)
    (hq : q.lines 0 = as ++ (b.body ++ es ++ b.exit)) :
    ∃ as', Line.IsNew first (t.prologueCode w q) as' ∧
      (t.prologueEnd w q).passed ++ (t.prologueEnd w q).rest = as' ++ (b.body ++ es ++ b.exit) ∧
      first ≤ (t.prologueEnd w q).fresh := by
  have hstart : (prologueStart w q).Passed first [] (w.moveStackAlways (-q.frame.varArgsSaveSize))
      (q.lines 0) := by
    have hfirst : (⟨[], q.lines 0, q.fresh⟩ : Cursor).Passed first [] [] (q.lines 0) :=
      ⟨⟨[], Line.isNew_nil first, rfl⟩, rfl, hfresh⟩
    exact hfirst.emit _
  rw [prologueEnd, prologueCode]
  split
  · rw [hq] at hstart
    exact passed_prologue hw htakes.row has hstart (not_isSave hw htakes hb hes)
  · next hframe =>
    -- without a stack frame nothing is saved
    rw [saves, htakes.bare (by simpa using hframe)] at has
    obtain rfl := List.map_eq_nil_iff.1 has.1
    have hmove := hstart.emit (w.moveStackAlways (-q.frame.stackSize))
    obtain ⟨as', has', hpassed⟩ := hmove.passed
    exact ⟨as', has', by rw [hpassed, hmove.rest, hq, List.nil_append, List.nil_append], hmove.fresh⟩

/-- The prologue comes in front of the function. -/
theorem framed_emitPrologue {first : Nat} {q q' : Procedure} (hw : t.wide? = some w)
    (h : Procedure.Framed first (t.saves q) (fun _ => t.restores q) p q)
    (htakes : t.TakesFrame p q) (hok : t.emitPrologue q = .ok () q') :
    Procedure.Framed first (t.prologueCode w q) (fun _ => t.restores q) p q' ∧
      ∃ blocks fresh offsetAdjustment, q' = { q with
        blocks
        fresh
        frame := { q.frame with offsetAdjustment } } := by
  obtain ⟨hblocks, offsetAdjustment, rfl⟩ := shape_of_emitPrologue hw hok
  obtain ⟨b, hb⟩ : ∃ b, p.blocks[0]? = some b := by
    have hlt : 0 < p.blocks.length := by
      rw [← h.length]
      exact List.length_pos_of_ne_nil hblocks
    exact ⟨_, List.getElem?_eq_getElem hlt⟩
  obtain ⟨as, es, has, hes, hq⟩ := h.block 0 b hb
  obtain ⟨-, -, -, hfresh⟩ := passed_prologueEnd hw htakes h.fresh (List.mem_of_getElem? hb) has hes
    (by simp [Procedure.lines, hq])
  have hset : Procedure.Framed first (t.prologueCode w q) (fun _ => t.restores q) p
      (q.setCursor 0 (t.prologueEnd w q)) := by
    refine h.setHead hfresh fun b as es hb has hes hq => ?_
    obtain ⟨as', has', heq, -⟩ :=
      passed_prologueEnd hw htakes h.fresh (List.mem_of_getElem? hb) has hes hq
    exact ⟨as', has', heq⟩
  exact ⟨⟨hset.fresh, hset.length, hset.block⟩, _, _, _, rfl⟩

/-! ## Epilogue -/

theorem leavesSlots_of_frameIndexAt {i : Inst} (h : i.frameIndexAt = none) : LeavesSlots p i := by
  intro index hmem
  have := List.findIdx?_eq_none_iff.1 h _ hmem
  simp [Operand.isFrameIndex] at this

theorem not_isRestore_of_leavesSlots {i : Inst} (h : LeavesSlots p i) : ¬ t.isRestore p i := by
  rw [isRestore, inSpillSlot_of_leavesSlots h, Bool.and_false]
  simp

theorem plain_of_mem_moveStackAlways {v : Int64} {i : Inst} (h : i ∈ w.moveStackAlways v) :
    i.isReturn = false ∧ ¬ t.isRestore p i := by
  obtain ⟨hret, -, hindex⟩ := WideSet.plain_of_mem_addConstant h
  exact ⟨hret, not_isRestore_of_leavesSlots (leavesSlots_of_frameIndexAt hindex)⟩

theorem pointAtSaved_facts (hw : t.wide? = some w) :
    (t.pointAtSaved w p).isReturn = false ∧ ¬ t.isRestore p (t.pointAtSaved w p) := by
  rw [isRestore, instrSet_of_wide hw, pointAtSaved]
  cases w
  all_goals
    refine ⟨rfl, ?_⟩
    simp [Inst.make, WideSet.add, WideSet.set, InstrSet.load]

/-- Nothing in a prologue returns or restores a register. -/
theorem prologueCode_facts (hw : t.wide? = some w) (hrow : t.IsSavedRow p.frame.saved) {i : Inst}
    (hi : i ∈ t.prologueCode w p) : i.isReturn = false ∧ ¬ t.isRestore p i := by
  have hsave (a : Area) (h : i ∈ t.savesIn p a) : i.isReturn = false ∧ ¬ t.isRestore p i :=
    (savesIn_facts hw hrow h).2.2
  rw [prologueCode] at hi
  rcases List.mem_append.1 hi with hi | hi
  · exact plain_of_mem_moveStackAlways hi
  split at hi
  · simp only [List.mem_append] at hi
    rcases hi with ((((((hi | hi) | hi) | hi) | hi) | hi) | hi) | hi
    · exact plain_of_mem_moveStackAlways hi
    · exact hsave .gpr1 hi
    · split at hi
      · obtain rfl := List.mem_singleton.1 hi
        exact pointAtSaved_facts hw
      · exact absurd hi List.not_mem_nil
    · exact plain_of_mem_moveStackAlways hi
    · exact hsave .gpr2 hi
    · exact plain_of_mem_moveStackAlways hi
    · exact hsave .dpr hi
    · exact plain_of_mem_moveStackAlways hi
  · exact plain_of_mem_moveStackAlways hi

/-- The cursor of an epilogue starts before the loads of the saved registers. -/
theorem atRestores_eq {xs zs : List Line} {l : Line} (hxs : ∀ x ∈ xs, ¬ t.isRestore p x.inst)
    (hzs : ∀ z ∈ zs, t.isRestore p z.inst) (fresh : Nat) :
    t.atRestores p (xs ++ zs ++ [l]) fresh = ⟨xs, zs ++ [l], fresh⟩ := by
  have hrun : ((xs ++ zs).reverse.takeWhile fun l => t.isRestore p l.inst) = zs.reverse := by
    rw [List.reverse_append, List.takeWhile_append_of_pos fun z hz => hzs z (List.mem_reverse.1 hz)]
    cases hrev : xs.reverse with
    | nil => rw [List.takeWhile_nil, List.append_nil]
    | cons x rest =>
      have hx : x ∈ xs := List.mem_reverse.1 (hrev ▸ List.mem_cons_self)
      rw [List.takeWhile_cons, if_neg (hxs x hx), List.append_nil]
  have hlen : (xs ++ zs).length - zs.reverse.length = xs.length := by
    rw [List.length_append, List.length_reverse, Nat.add_sub_cancel]
  rw [atRestores, List.dropLast_concat, hrun, hlen, List.take_left, List.append_assoc,
    List.drop_left]

/-- The cursor of an epilogue passes the loads area by area. -/
theorem passed_epilogue {first : Nat} {xs zs : List Line} {l : Line} (hw : t.wide? = some w)
    (hrow : t.IsSavedRow p.frame.saved)
    (hbare : p.layout.hasStackFrame = false → p.frame.saved = [])
    (hxs : ∀ x ∈ xs, ¬ t.isRestore p x.inst) (hzs : Line.IsNew first (t.restores p) zs)
    (hl : LeavesSlots p l.inst) (hfresh : first ≤ p.fresh) :
    (t.epilogue w p (xs ++ zs ++ [l])).Passed first xs (t.epilogueCode w p) [l] := by
  rw [epilogue, epilogueCode]
  split
  · have hall : ∀ z ∈ zs, t.isRestore p z.inst := by
      intro z hz
      have hmem := hzs.mem hz
      simp only [restores_eq hrow, List.mem_append] at hmem
      rcases hmem with (hmem | hmem) | hmem
      all_goals exact (restoresIn_facts hw hrow hmem).2.2.2.1
    rw [atRestores_eq hxs hall]
    -- the loads come area by area, in the order in which the cursor skips them
    rw [restores_eq hrow] at hzs
    obtain ⟨zs32, zs1, rfl, hzs32, hzs1⟩ := hzs.append_inv
    obtain ⟨zs3, zs2, rfl, hzs3, hzs2⟩ := hzs32.append_inv
    have hstart : (⟨xs, zs3 ++ (zs2 ++ (zs1 ++ [l])), p.fresh⟩ : Cursor).Passed first xs []
        (zs3 ++ (zs2 ++ (zs1 ++ [l]))) :=
      ⟨⟨[], Line.isNew_nil first, by rw [List.append_nil]⟩, rfl, hfresh⟩
    have hlast (op : Opcode) (a : Area) : ∀ y ∈ [l], ¬ t.isSavedAccess p op a y.inst := by
      intro y hy
      obtain rfl := List.mem_singleton.1 hy
      exact not_isSavedAccess_of_leavesSlots hl
    have hskip3 := (hstart.emit (t.unwindLocals w p)).skip (t.isSavedAccess p .fldd .dpr) hzs3
      (fun i hi => (restoresIn_facts hw hrow hi).1) fun y hy => by
        rcases List.mem_append.1 hy with hy | hy
        · exact (restoresIn_facts hw hrow (hzs2.mem hy)).2.1 _ _ (by decide)
        · rcases List.mem_append.1 hy with hy | hy
          · exact (restoresIn_facts hw hrow (hzs1.mem hy)).2.1 _ _ (by decide)
          · exact hlast _ _ y hy
    have hskip2 := (hskip3.emit (w.moveStackAlways p.layout.dprSize)).skip
      (t.isSavedAccess p t.instrSet.load .gpr2) hzs2
      (fun i hi => (restoresIn_facts hw hrow hi).1) fun y hy => by
        rcases List.mem_append.1 hy with hy | hy
        · exact (restoresIn_facts hw hrow (hzs1.mem hy)).2.1 _ _ (by decide)
        · exact hlast _ _ y hy
    have hskip1 := (hskip2.emit (w.moveStackAlways p.layout.gpr2Size)).skip
      (t.isSavedAccess p t.instrSet.load .gpr1) hzs1
      (fun i hi => (restoresIn_facts hw hrow hi).1) (hlast _ _)
    have hend := (hskip1.emit (w.moveStackAlways p.layout.gpr1Size)).emit
      (w.moveStackAlways p.frame.varArgsSaveSize)
    simpa only [epilogueBody, List.append_assoc, List.nil_append] using hend
  · next hframe =>
    -- without a stack frame nothing is restored
    rw [restores, hbare (by simpa using hframe)] at hzs
    obtain rfl := List.map_eq_nil_iff.1 hzs.1
    rw [List.append_nil]
    have hstart : (⟨xs, [l], p.fresh⟩ : Cursor).Passed first xs [] [l] :=
      ⟨⟨[], Line.isNew_nil first, by rw [List.append_nil]⟩, rfl, hfresh⟩
    have hend := (hstart.emit (w.moveStackAlways p.frame.stackSize)).emit
      (w.moveStackAlways p.frame.varArgsSaveSize)
    have hlen : (xs ++ [l]).length - 1 = xs.length := by simp
    rw [List.nil_append] at hend
    rw [List.dropLast_concat, hlen, List.drop_left]
    exact hend

end

section
variable {t : Target} {w : WideSet} {p q q' : Procedure} {first k : Nat} {head : List Inst}
  {tail : Nat → List Inst}

theorem framed_emitEpilogue {b : Block} (hw : t.wide? = some w)
    (h : Procedure.Framed first head tail p q) (htakes : t.TakesFrame p q)
    (hhead : ∀ i ∈ head, i.isReturn = false ∧ ¬ t.isRestore q i) (htail : tail k = t.restores q)
    (hb : p.blocks[k]? = some b) (hreturn : b.isReturn) (hok : t.emitEpilogue k q = .ok () q') :
    Procedure.Framed first head (fun j => if j = k then t.epilogueCode w q else tail j) p q' ∧
      ∃ blocks fresh, q' = { q with blocks, fresh } := by
  obtain ⟨as, es, has, hes, hc⟩ := h.block k b hb
  have hcode : ∀ as es, Line.IsNew first (if k = 0 then head else []) as →
      Line.IsNew first (tail k) es →
      ∃ l, b.exit = [l] ∧ (t.epilogue w q (as ++ b.body ++ es ++ b.exit)).Passed first
        (as ++ b.body) (t.epilogueCode w q) [l] := by
    intro as es has hes
    obtain ⟨l, hexit, -, hlines⟩ := Block.exit_of_isReturn hreturn
    have hclear := htakes.clear b (List.mem_of_getElem? hb)
    rw [hlines] at hclear
    rw [htail] at hes
    rw [hexit]
    refine ⟨l, rfl, passed_epilogue hw htakes.row htakes.bare (fun x hx => ?_) hes
      (hclear l (List.mem_append_right _ List.mem_cons_self)) h.fresh⟩
    rcases List.mem_append.1 hx with hx | hx
    · have hmem := has.mem hx
      split at hmem
      · exact (hhead _ hmem).2
      · exact absurd hmem List.not_mem_nil
    · exact not_isRestore_of_leavesSlots (hclear x (List.mem_append_left _ hx))
  have hret : ({ b with lines := as ++ b.body ++ es ++ b.exit } : Block).isReturn :=
    (h.isReturn (fun i hi => (hhead i hi).1) hb hc).trans hreturn
  simp only [emitEpilogue, hw, hc, if_pos hret] at hok
  obtain ⟨-, rfl⟩ := EStateM.Result.ok.inj hok
  rw [if_pos hreturn] at hes
  obtain ⟨_, -, hpassed⟩ := hcode as es has hes
  refine ⟨h.setTail hb hpassed.fresh (fun as' es' has' hes' hlines => ?_) hreturn, _, _, rfl⟩
  have hsame : as ++ b.body ++ es ++ b.exit = as' ++ b.body ++ es' ++ b.exit := by
    rw [← hlines, Procedure.lines, hc]
  obtain ⟨l, hexit, hpassed⟩ := hcode as' es' has' hes'
  obtain ⟨es'', hes'', heq⟩ := hpassed.passed
  exact ⟨es'', hes'', by rw [hsame, heq, hpassed.rest, hexit]⟩

theorem emitEpilogues_cons {ks : List Nat} : t.emitEpilogues (k :: ks) q =
    if (q.blocks[k]?.map Block.isReturn).getD false then
      (t.emitEpilogue k >>= fun _ => t.emitEpilogues ks) q
    else t.emitEpilogues ks q := by
  show (do if (q.blocks[k]?.map Block.isReturn).getD false then t.emitEpilogue k
           t.emitEpilogues ks) q = _
  split <;> rfl

/-- An epilogue is written before the return of its block by one run of a cursor. -/
theorem of_emitEpilogue (h : t.emitEpilogue k q = .ok () q') :
    ∃ w b, t.wide? = some w ∧ q.blocks[k]? = some b ∧ b.isReturn ∧
      q' = q.setCursor k (t.epilogue w q b.lines) := by
  rw [emitEpilogue] at h
  split at h
  · cases h
  · cases h
  next w b hw hb =>
  split at h
  · next hreturn => exact ⟨w, b, hw, hb, hreturn, (EStateM.Result.ok.inj h).2.symm⟩
  · cases h

/-- What each epilogue keeps, all of them keep. -/
theorem emitEpilogues_induct {P : Procedure → Prop} {ks : List Nat}
    (hstep : ∀ w q k b, t.wide? = some w → q.blocks[k]? = some b → P q →
      P (q.setCursor k (t.epilogue w q b.lines)))
    (h : P q) (hok : t.emitEpilogues ks q = .ok () q') : P q' := by
  induction ks generalizing q with
  | nil =>
    obtain ⟨-, rfl⟩ := EStateM.Result.ok.inj hok
    exact h
  | cons k ks ih =>
    rw [emitEpilogues_cons] at hok
    split at hok
    · obtain ⟨_, m, hone, hrest⟩ := Lowering.of_bind hok
      obtain ⟨w, b, hw, hb, -, rfl⟩ := of_emitEpilogue hone
      exact ih (hstep w q k b hw hb h) hrest
    · exact ih h hok

/-- The epilogue comes before every return. -/
theorem framed_emitEpilogues {ks : List Nat} (hw : t.wide? = some w)
    (h : Procedure.Framed first head tail p q) (htakes : t.TakesFrame p q)
    (hhead : ∀ i ∈ head, i.isReturn = false ∧ ¬ t.isRestore q i) (hks : ks.Nodup)
    (htail : ∀ k ∈ ks, tail k = t.restores q) (hok : t.emitEpilogues ks q = .ok () q') :
    Procedure.Framed first head (fun j => if j ∈ ks then t.epilogueCode w q else tail j) p q' ∧
      ∃ blocks fresh, q' = { q with blocks, fresh } := by
  induction ks generalizing q tail with
  | nil =>
    obtain ⟨-, rfl⟩ := EStateM.Result.ok.inj hok
    exact ⟨h.congr fun k b _ _ => if_neg List.not_mem_nil, _, _, rfl⟩
  | cons k ks ih =>
    obtain ⟨hk, hks⟩ := List.nodup_cons.1 hks
    have hrest := List.forall_mem_cons.1 htail
    rw [emitEpilogues_cons] at hok
    split at hok
    · next hreturn =>
      cases hc : q.blocks[k]? with
      | none => simp [hc] at hreturn
      | some c =>
        obtain ⟨b, hb⟩ : ∃ b, p.blocks[k]? = some b := by
          have hlt := (List.getElem?_eq_some_iff.1 hc).1
          rw [h.length] at hlt
          exact ⟨_, List.getElem?_eq_getElem hlt⟩
        rw [hc] at hreturn
        have hbreturn := (h.isReturn (fun i hi => (hhead i hi).1) hb hc).symm.trans hreturn
        obtain ⟨_, r, hone, hok⟩ := Lowering.of_bind hok
        obtain ⟨hfirst, blocks, fresh, rfl⟩ :=
          framed_emitEpilogue hw h htakes hhead hrest.1 hb hbreturn hone
        have htail' : ∀ j ∈ ks, (if j = k then t.epilogueCode w q else tail j) = t.restores q := by
          intro j hj
          have hne : j ≠ k := by
            rintro rfl
            exact hk hj
          rw [if_neg hne]
          exact hrest.2 j hj
        obtain ⟨hall, blocks', fresh', heq⟩ := ih hfirst ⟨htakes.row, htakes.bare, htakes.clear⟩
          hhead hks htail' hok
        -- later epilogues leave this one as it is, since no block comes twice
        refine ⟨hall.congr fun j b _ _ => ?_, blocks', fresh', heq⟩
        by_cases hj : j ∈ ks
        · rw [if_pos hj, if_pos (List.mem_cons_of_mem _ hj)]
          rfl
        · by_cases hjk : j = k
          · rw [if_neg hj, if_pos hjk, if_pos (hjk ▸ List.mem_cons_self)]
          · simp [hj, hjk]
    · next hreturn =>
      obtain ⟨hall, hsame⟩ := ih h htakes hhead hks hrest.2 hok
      refine ⟨hall.congr fun j b hb hjreturn => ?_, hsame⟩
      have hjk : j ≠ k := by
        rintro rfl
        obtain ⟨as, es, -, -, hc⟩ := h.block j b hb
        rw [hc] at hreturn
        exact hreturn ((h.isReturn (fun i hi => (hhead i hi).1) hb hc).trans hjreturn)
      simp [hjk]

end

end Target

end FrameLowering
