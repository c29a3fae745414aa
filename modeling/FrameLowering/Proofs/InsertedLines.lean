import FrameLowering.Proofs.LoweredFrame

/-!
# Lines that come up between others

The stages before the elimination walk only insert lines. Unlike the statements about the code
of a frame, those here take a function as it is: nothing is asked of its blocks, its frame
indices or its call frame markers. `Line.Grows` says that lines are all still there, in order,
between new ones of a certain kind, and `Target.Emits` is the kind of the lines that a prologue
and the epilogues are made of. The main statement is that a function with a frame is the result
of a walk through such lines (`exists_grows_of_insertFrame`).
-/

namespace FrameLowering

namespace Line

/-- Lines between which new ones have come up, all of them with some property and with labels
from `n` on. -/
inductive Grows (P : Inst → Prop) (n : Nat) : List Line → List Line → Prop
  | nil : Grows P n [] []
  | keep {l : Line} {xs ys : List Line} (h : Grows P n xs ys) : Grows P n (l :: xs) (l :: ys)
  | add {l : Line} {xs ys : List Line} (hl : P l.inst) (hlabel : n ≤ l.label)
      (h : Grows P n xs ys) : Grows P n xs (l :: ys)

section
variable {P : Inst → Prop} {n m : Nat} {xs ys zs xs' ys' : List Line} {l : Line}

theorem Grows.refl (xs : List Line) : Grows P n xs xs := by
  induction xs with
  | nil => exact .nil
  | cons x xs ih => exact .keep ih

theorem Grows.trans (h : Grows P n xs ys) (h' : Grows P n ys zs) : Grows P n xs zs := by
  induction h' generalizing xs with
  | nil => exact h
  | keep _ ih =>
    cases h with
    | keep h => exact .keep (ih h)
    | add hl hlabel h => exact .add hl hlabel (ih h)
  | add hl hlabel _ ih => exact .add hl hlabel (ih h)

theorem Grows.mono (h : Grows P n xs ys) (hmn : m ≤ n) : Grows P m xs ys := by
  induction h with
  | nil => exact .nil
  | keep _ ih => exact .keep ih
  | add hl hlabel _ ih => exact .add hl (hmn.trans hlabel) ih

theorem Grows.append (h : Grows P n xs ys) (h' : Grows P n xs' ys') :
    Grows P n (xs ++ xs') (ys ++ ys') := by
  induction h with
  | nil => exact h'
  | keep _ ih => exact .keep ih
  | add hl hlabel _ ih => exact .add hl hlabel ih

theorem grows_new (h : ∀ l ∈ ys, P l.inst) (hlabel : ∀ l ∈ ys, n ≤ l.label) :
    Grows P n [] ys := by
  induction ys with
  | nil => exact .nil
  | cons y ys ih =>
    obtain ⟨hy, hys⟩ := List.forall_mem_cons.1 h
    obtain ⟨hn, hns⟩ := List.forall_mem_cons.1 hlabel
    exact .add hy hn (ih hys hns)

theorem mem_number {is : List Inst} (hl : l ∈ number n is) : l.inst ∈ is :=
  (isNew_number (Nat.le_refl n) is).mem hl

theorem grows_insert (xs zs : List Line) {is : List Inst} (h : ∀ i ∈ is, P i) :
    Grows P n (xs ++ zs) (xs ++ number n is ++ zs) := by
  have hnew : Grows P n [] (number n is) :=
    grows_new (fun _ hl => h _ (mem_number hl)) (isNew_number (Nat.le_refl n) is).2
  have hgrown := ((Grows.refl xs).append hnew).append (Grows.refl zs)
  rwa [List.append_nil] at hgrown

theorem Grows.mem (h : Grows P n xs ys) (hl : l ∈ xs) : l ∈ ys := by
  induction h with
  | nil => exact hl
  | keep _ ih =>
    rcases List.mem_cons.1 hl with rfl | hl
    · exact List.mem_cons_self
    · exact List.mem_cons_of_mem _ (ih hl)
  | add _ _ _ ih => exact List.mem_cons_of_mem _ (ih hl)

theorem Grows.mem_cases (h : Grows P n xs ys) (hl : l ∈ ys) : l ∈ xs ∨ P l.inst := by
  induction h with
  | nil => exact absurd hl List.not_mem_nil
  | keep _ ih =>
    rcases List.mem_cons.1 hl with rfl | hl
    · exact .inl List.mem_cons_self
    · exact (ih hl).imp (List.mem_cons_of_mem _) id
  | add hnew _ _ ih =>
    rcases List.mem_cons.1 hl with rfl | hl
    · exact .inr hnew
    · exact ih hl

theorem Grows.filter_eq (h : Grows P n xs ys) (test : Line → Bool)
    (hnew : ∀ l : Line, P l.inst → n ≤ l.label → test l = false) :
    ys.filter test = xs.filter test := by
  induction h with
  | nil => rfl
  | keep _ ih => rw [List.filter_cons, List.filter_cons, ih]
  | add hl hlabel _ ih =>
    rw [List.filter_cons_of_neg (Bool.eq_false_iff.1 (hnew _ hl hlabel)), ih]

theorem Grows.countP_eq (h : Grows P n xs ys) (test : Line → Bool)
    (hnew : ∀ l : Line, P l.inst → n ≤ l.label → test l = false) :
    ys.countP test = xs.countP test := by
  rw [List.countP_eq_length_filter, h.filter_eq test hnew, List.countP_eq_length_filter]

/-- A line that is not new divides the old lines as it divides all. -/
theorem Grows.split (h : Grows P n xs (ys ++ l :: zs)) (hl : ¬ P l.inst) :
    ∃ us vs, xs = us ++ l :: vs ∧ Grows P n us ys ∧ Grows P n vs zs := by
  induction ys generalizing xs with
  | nil =>
    cases h with
    | keep h => exact ⟨[], _, rfl, .nil, h⟩
    | add hnew => exact absurd hnew hl
  | cons y ys ih =>
    cases h with
    | keep h =>
      obtain ⟨us, vs, rfl, hus, hvs⟩ := ih h
      exact ⟨y :: us, vs, rfl, .keep hus, hvs⟩
    | add hnew hlabel h =>
      obtain ⟨us, vs, rfl, hus, hvs⟩ := ih h
      exact ⟨us, vs, rfl, .add hnew hlabel hus, hvs⟩

end

end Line

namespace Cursor

/-- A cursor that has moved on and inserted lines. -/
structure Grows (P : Inst → Prop) (c d : Cursor) : Prop where
  lines : Line.Grows P c.fresh (c.passed ++ c.rest) (d.passed ++ d.rest)
  fresh : c.fresh ≤ d.fresh

section
variable {P : Inst → Prop} {c d e : Cursor} {is : List Inst}

theorem Grows.refl (c : Cursor) : c.Grows P c :=
  ⟨.refl _, Nat.le_refl _⟩

theorem Grows.trans (h : c.Grows P d) (h' : d.Grows P e) : c.Grows P e :=
  ⟨h.lines.trans (h'.lines.mono h.fresh), h.fresh.trans h'.fresh⟩

theorem grows_emit (c : Cursor) (h : ∀ i ∈ is, P i) : c.Grows P (c.emit is) :=
  ⟨Line.grows_insert _ _ h, Nat.le_add_right _ _⟩

theorem skip_lines (c : Cursor) (test : Inst → Bool) :
    (c.skip test).passed ++ (c.skip test).rest = c.passed ++ c.rest := by
  show c.passed ++ c.rest.takeWhile _ ++ c.rest.dropWhile _ = _
  rw [List.append_assoc, List.takeWhile_append_dropWhile]

theorem grows_skip (c : Cursor) (test : Inst → Bool) : c.Grows P (c.skip test) := by
  refine ⟨?_, Nat.le_refl _⟩
  rw [skip_lines]
  exact .refl _

/-- Moving past lines and then inserting some. -/
theorem grows_skip_emit (c : Cursor) (test : Inst → Bool) (h : ∀ i ∈ is, P i) :
    c.Grows P ((c.skip test).emit is) :=
  (c.grows_skip test).trans ((c.skip test).grows_emit h)

end

end Cursor

namespace Procedure

/-- A function in whose blocks new lines have come up. -/
structure Grows (P : Inst → Prop) (p q : Procedure) : Prop where
  length : q.blocks.length = p.blocks.length
  fresh : p.fresh ≤ q.fresh
  lines : ∀ k, Line.Grows P p.fresh (p.lines k) (q.lines k)

section
variable {P : Inst → Prop} {p q r : Procedure}

theorem Grows.refl (p : Procedure) : p.Grows P p :=
  ⟨rfl, Nat.le_refl _, fun _ => .refl _⟩

theorem Grows.trans (h : p.Grows P q) (h' : q.Grows P r) : p.Grows P r :=
  ⟨h'.length.trans h.length, h.fresh.trans h'.fresh,
    fun k => (h.lines k).trans ((h'.lines k).mono h.fresh)⟩

/-- The lines of a block are those that a cursor leaves, which started somewhere in them. -/
theorem grows_setCursor {k : Nat} {c d : Cursor} (h : c.Grows P d)
    (hlines : c.passed ++ c.rest = p.lines k) (hfresh : c.fresh = p.fresh) :
    p.Grows P (p.setCursor k d) := by
  obtain ⟨h, hle⟩ := h
  rw [hlines, hfresh] at h
  refine ⟨List.length_modify .., hfresh ▸ hle, fun j => ?_⟩
  have hget : (p.setCursor k d).blocks[j]? =
      if k = j then p.blocks[j]?.map fun b => { b with lines := d.passed ++ d.rest }
      else p.blocks[j]? :=
    p.getElem?_setLines k j _
  by_cases hkj : k = j
  · subst hkj
    rw [if_pos rfl] at hget
    rw [lines, lines, hget]
    rw [lines] at h
    cases hb : p.blocks[k]? with
    | none => exact .nil
    | some b =>
      rw [hb] at h
      exact h
  · rw [if_neg hkj] at hget
    rw [lines, lines, hget]
    exact .refl _

theorem grows_insert {k place : Nat} {is : List Inst} (h : ∀ i ∈ is, P i) :
    p.Grows P (p.insert k place is) := by
  refine grows_setCursor (c := ⟨(p.lines k).take place, (p.lines k).drop place, p.fresh⟩)
    (Cursor.grows_emit _ h) ?_ rfl
  exact List.take_append_drop _ _

end

end Procedure

namespace Target

/-- The instructions of prologues and epilogues, from the slots of saved registers and the
index under which the frame pointer is saved. -/
inductive Emits (t : Target) (w : WideSet) (saved : List SavedSlot) (index : Int64) : Inst → Prop
  | move {base : Reg} {v : Int64} {i : Inst} (h : i ∈ w.addConstant Reg.sp base v Cond.al .noreg) :
      Emits t w saved index i
  | copy : Emits t w saved index (Inst.make w.move
      ([.use Reg.sp, .use t.framePointer] ++ Operand.predicate Cond.al .noreg))
  | save {σ : SavedSlot} (h : σ ∈ saved) :
      Emits t w saved index (t.instrSet.storeToSlot σ.reg σ.index)
  | restore {σ : SavedSlot} (h : σ ∈ saved) :
      Emits t w saved index (t.instrSet.loadFromSlot σ.reg σ.index)
  | point : Emits t w saved index (Inst.make w.add
      ([.use t.framePointer, .frameIndex index, .imm 0] ++ Operand.predicate Cond.al .noreg))

section
variable {t : Target} {w : WideSet} {p q : Procedure} {index : Int64} {k : Nat}

theorem emits_moveStackAlways {saved : List SavedSlot} (v : Int64) :
    ∀ i ∈ w.moveStackAlways v, t.Emits w saved index i :=
  fun _ hi => .move hi

theorem emits_unwindLocals (saved : List SavedSlot) (index : Int64) :
    ∀ i ∈ t.unwindLocals w p, t.Emits w saved index i := by
  intro i hi
  rw [unwindLocals] at hi
  simp only at hi
  split at hi
  · split at hi
    · exact .move hi
    · obtain rfl := List.mem_singleton.1 hi
      exact .copy
  · exact .move hi

theorem grows_beforeReturn {P : Inst → Prop} {is : List Inst} (h : ∀ i ∈ is, P i) :
    p.Grows P (beforeReturn is p k) := by
  rw [beforeReturn]
  split
  · split
    · exact Procedure.grows_insert h
    · exact .refl p
  · exact .refl p

theorem grows_insertSpillCode (w : WideSet) (p : Procedure) (index : Int64) :
    p.Grows (t.Emits w p.frame.saved index) (t.insertSpillCode p) ∧
      ∃ blocks fresh, t.insertSpillCode p = { p with blocks, fresh } := by
  have hsaves : ∀ i ∈ t.saves p, t.Emits w p.frame.saved index i := by
    intro i hi
    obtain ⟨σ, hσ, rfl⟩ := List.mem_map.1 hi
    exact .save hσ
  have hrestores : ∀ i ∈ t.restores p, t.Emits w p.frame.saved index i := by
    intro i hi
    obtain ⟨σ, hσ, rfl⟩ := List.mem_map.1 hi
    exact .restore (List.mem_reverse.1 hσ)
  rw [insertSpillCode]
  split
  · exact ⟨.refl p, _, _, rfl⟩
  -- the loads go before one return after another
  · have hfold (ks : List Nat) (q : Procedure) :
        q.Grows (t.Emits w p.frame.saved index) (ks.foldl (beforeReturn (t.restores p)) q) ∧
          ∃ blocks fresh, ks.foldl (beforeReturn (t.restores p)) q = { q with blocks, fresh } := by
      induction ks generalizing q with
      | nil => exact ⟨.refl q, _, _, rfl⟩
      | cons k ks ih =>
        have hstep : ∃ blocks fresh, beforeReturn (t.restores p) q k = { q with blocks, fresh } := by
          rw [beforeReturn]
          split
          · split
            · exact ⟨_, _, rfl⟩
            · exact ⟨_, _, rfl⟩
          · exact ⟨_, _, rfl⟩
        obtain ⟨_, _, hstep⟩ := hstep
        obtain ⟨hgrown, blocks, fresh, heq⟩ := ih (beforeReturn (t.restores p) q k)
        refine ⟨(grows_beforeReturn hrestores).trans hgrown, blocks, fresh, ?_⟩
        rw [List.foldl_cons, heq, hstep]
    obtain ⟨hgrown, blocks, fresh, heq⟩ :=
      hfold (List.range p.blocks.length) (p.insert 0 0 (t.saves p))
    exact ⟨(Procedure.grows_insert hsaves).trans hgrown, blocks, fresh, heq⟩

theorem computeLayout_shape (hok : t.computeLayout p = .ok () q) :
    ∃ layout, q = { p with layout } := by
  obtain ⟨-, rfl⟩ | ⟨-, l, -, -, h⟩ := of_computeLayout hok
  · exact ⟨_, rfl⟩
  · obtain ⟨-, o, -, rfl⟩ | ⟨-, rfl⟩ := locatePointer_cases h
    · exact ⟨_, rfl⟩
    · exact ⟨_, rfl⟩

/-- A cursor inserts code of a prologue only, wherever it moves. -/
theorem grows_prologue {saved : List SavedSlot} (c : Cursor) :
    c.Grows (t.Emits w saved p.layout.fpSpillIndex)
      (t.prologueTail w p (t.prologueHead w p c)) := by
  have hskip (c : Cursor) (test : Inst → Bool) (v : Int64) :
      c.Grows (t.Emits w saved p.layout.fpSpillIndex)
        ((c.skip test).emit (w.moveStackAlways v)) :=
    c.grows_skip_emit test (emits_moveStackAlways v)
  have hhead : c.Grows (t.Emits w saved p.layout.fpSpillIndex) (t.prologueHead w p c) :=
    (c.grows_emit (emits_moveStackAlways _)).trans (Cursor.grows_skip _ _)
  generalize t.prologueHead w p c = d at hhead
  have hpoint : d.Grows (t.Emits w saved p.layout.fpSpillIndex)
      (if t.setsPointer p then d.emit [t.pointAtSaved w p] else d) := by
    split
    · refine d.grows_emit fun i hi => ?_
      obtain rfl := List.mem_singleton.1 hi
      exact .point
    · exact .refl d
  rw [prologueTail]
  generalize (if t.setsPointer p then d.emit [t.pointAtSaved w p] else d) = e at hpoint
  have hareas := ((hhead.trans hpoint).trans
    (e.grows_emit (emits_moveStackAlways (-p.layout.gpr2Size)))).trans
    (hskip _ (t.isSavedAccess p t.instrSet.store .gpr2) (-p.layout.dprSize))
  split
  · exact hareas.trans (hskip _ _ _)
  · exact hareas

theorem grows_prologueEnd (t : Target) (w : WideSet) (p : Procedure) :
    (⟨[], p.lines 0, p.fresh⟩ : Cursor).Grows (t.Emits w p.frame.saved p.layout.fpSpillIndex)
      (t.prologueEnd w p) := by
  have hstart : (⟨[], p.lines 0, p.fresh⟩ : Cursor).Grows
      (t.Emits w p.frame.saved p.layout.fpSpillIndex) (prologueStart w p) :=
    Cursor.grows_emit _ (emits_moveStackAlways _)
  rw [prologueEnd]
  split
  · exact hstart.trans (grows_prologue _)
  · exact hstart.trans (Cursor.grows_emit _ (emits_moveStackAlways _))

theorem grows_emitPrologue (hw : t.wide? = some w) (hok : t.emitPrologue p = .ok () q) :
    p.Grows (t.Emits w p.frame.saved p.layout.fpSpillIndex) q ∧
      ∃ blocks fresh offsetAdjustment, q = { p with
        blocks
        fresh
        frame := { p.frame with offsetAdjustment } } := by
  obtain ⟨-, offsetAdjustment, rfl⟩ := shape_of_emitPrologue hw hok
  have hset := Procedure.grows_setCursor (t.grows_prologueEnd w p) rfl rfl
  exact ⟨⟨hset.length, hset.fresh, hset.lines⟩, _, _, _, rfl⟩

theorem atRestores_lines (ls : List Line) (n : Nat) :
    (t.atRestores p ls n).passed ++ (t.atRestores p ls n).rest = ls := by
  show ls.dropLast.take _ ++ ls.drop _ = ls
  generalize hk : ls.dropLast.length - _ = k
  have hle : k ≤ ls.length - 1 := by
    rw [← hk, List.length_dropLast]
    omega
  rw [List.dropLast_eq_take, List.take_take, Nat.min_eq_left hle, List.take_append_drop]

/-- The cursor of an epilogue starts inside of the lines. -/
theorem exists_grows_epilogue (saved : List SavedSlot) (index : Int64) (ls : List Line) :
    ∃ c : Cursor, c.passed ++ c.rest = ls ∧ c.fresh = p.fresh ∧
      c.Grows (t.Emits w saved index) (t.epilogue w p ls) := by
  have hargs (c : Cursor) (v : Int64) :
      c.Grows (t.Emits w saved index) (c.emit (w.moveStackAlways v)) :=
    c.grows_emit (emits_moveStackAlways v)
  have hskip (c : Cursor) (test : Inst → Bool) (v : Int64) :
      c.Grows (t.Emits w saved index) ((c.skip test).emit (w.moveStackAlways v)) :=
    c.grows_skip_emit test (emits_moveStackAlways v)
  rw [epilogue]
  simp only
  split
  · refine ⟨t.atRestores p ls p.fresh, atRestores_lines ls p.fresh, rfl, ?_⟩
    have hunwind := (t.atRestores p ls p.fresh).grows_emit
      (emits_unwindLocals (t := t) (w := w) (p := p) saved index)
    rw [epilogueBody]
    exact (((hunwind.trans (hskip _ _ _)).trans (hskip _ _ _)).trans (hskip _ _ _)).trans
      (hargs _ _)
  · refine ⟨⟨ls.dropLast, ls.drop (ls.length - 1), p.fresh⟩, ?_, rfl, ?_⟩
    · show ls.dropLast ++ ls.drop (ls.length - 1) = ls
      rw [List.dropLast_eq_take, List.take_append_drop]
    · exact (hargs _ p.frame.stackSize).trans (hargs _ _)

theorem grows_emitEpilogues {ks : List Nat} (saved : List SavedSlot) (index : Int64)
    (hw : t.wide? = some w) (hok : t.emitEpilogues ks p = .ok () q) :
    p.Grows (t.Emits w saved index) q ∧ ∃ blocks fresh, q = { p with blocks, fresh } := by
  refine emitEpilogues_induct (P := fun m => p.Grows (t.Emits w saved index) m ∧
    ∃ blocks fresh, m = { p with blocks, fresh }) ?_ ⟨.refl _, _, _, rfl⟩ hok
  rintro w' _ k b hw' hb ⟨hgrown, blocks, fresh, rfl⟩
  obtain rfl := Option.some.inj (hw.symm.trans hw')
  obtain ⟨c, hlines, hfresh, hepilogue⟩ := exists_grows_epilogue (t := t) (w := w)
    (p := { p with blocks, fresh }) saved index b.lines
  refine ⟨hgrown.trans (Procedure.grows_setCursor hepilogue ?_ hfresh), _, _, rfl⟩
  rw [hlines, Procedure.lines, hb]

end

/-! ## All stages -/

/-- Once a layout is there, the prologue and the epilogues are inserted and walked through. -/
theorem exists_grows_of_layout {t : Target} {w : WideSet} {g q : Procedure} (hw : t.wide? = some w)
    (hinsert : t.insertFrame g = .ok () q) :
    ∃ m, g.Grows (t.Emits w g.frame.saved g.layout.fpSpillIndex) m ∧
      (∃ blocks fresh offsetAdjustment, m = { g with
        blocks
        fresh
        frame := { g.frame with offsetAdjustment } }) ∧
      t.WalksBlocks w (List.range m.blocks.length) m q := by
  obtain ⟨m, m', hprologue, hepilogues, hwalk⟩ := insertFrame_cases hinsert
  obtain ⟨hhead, blocks, fresh, offsetAdjustment, rfl⟩ := grows_emitPrologue hw hprologue
  obtain ⟨htail, blocks', fresh', rfl⟩ := grows_emitEpilogues
    g.frame.saved g.layout.fpSpillIndex hw hepilogues
  exact ⟨_, hhead.trans htail, ⟨_, _, _, rfl⟩, walksBlocks_walkBlocks hw List.nodup_range hwalk⟩

/-- The code of a frame is inserted, that of the saved registers first. -/
theorem exists_grows_of_insertFrame {t : Target} {w : WideSet} {c g q : Procedure}
    (hw : t.wide? = some w) (hlayout : t.computeLayout (t.insertSpillCode c) = .ok () g)
    (hinsert : t.insertFrame g = .ok () q) :
    ∃ m, c.Grows (t.Emits w c.frame.saved g.layout.fpSpillIndex) m ∧
      (∃ blocks fresh offsetAdjustment, m = { g with
        blocks
        fresh
        frame := { c.frame with offsetAdjustment } }) ∧
      t.WalksBlocks w (List.range m.blocks.length) m q := by
  obtain ⟨hspilled, blocks, fresh, hspill⟩ :=
    grows_insertSpillCode (t := t) w c g.layout.fpSpillIndex
  rw [hspill] at hlayout hspilled
  obtain ⟨layout, rfl⟩ := computeLayout_shape hlayout
  obtain ⟨m, hgrown, hshape, hwalks⟩ := exists_grows_of_layout hw hinsert
  have hfirst : c.Grows (t.Emits w c.frame.saved layout.fpSpillIndex)
      { c with blocks, fresh, layout } := ⟨hspilled.length, hspilled.fresh, hspilled.lines⟩
  exact ⟨m, hfirst.trans hgrown, hshape, hwalks⟩

end Target

end FrameLowering
