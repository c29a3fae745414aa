import FrameLowering.Proofs.InsertedLines
import FrameLowering.Proofs.StackMoves
import Mathlib.Data.List.TakeWhile

/-!
# The parts of a block

Before the elimination walk a block has up to three parts. The entry block starts with the code
that allocates the frame; then come lines that leave the stack pointer alone; and a block that
returns ends with an epilogue, which makes no call. This holds of any function: a line that
happens to store to the slot of a saved register is passed over by the prologue like a line that
saves it, and one that loads from there may count as part of an epilogue. The main statement is
`exists_parts_of_insertFrame`.
-/

namespace FrameLowering

/-- An instruction that is neither a marker nor a call. -/
def Inst.IsQuiet (i : Inst) : Prop :=
  i.op.isMarker = false ∧ i.info.flags.isCall = false

/-- Lines of a block before the walk: `front` takes the stack pointer down by `v` bytes, `mid`
leaves it alone, and `back` leads to the return of `b` without a call, unless it is empty. -/
structure IsParted (w : WideSet) (first : Nat) (v : Int64) (b : Block)
    (front mid back : List Line) : Prop where
  front : Sinks w first v front
  mid : ∀ l ∈ mid, l.IsSteady first
  back : back = [] ∨ ∃ quiet l, back = quiet ++ [l] ∧ l ∈ b.exit ∧ ∀ m ∈ quiet, m.inst.IsQuiet

/-! ## Cursors -/

namespace Cursor

/-- A cursor that has passed lines which take the stack pointer down by `v` bytes, and has lines
of `ls` ahead. -/
structure Sunk (w : WideSet) (first : Nat) (v : Int64) (ls : List Line) (c : Cursor) : Prop where
  passed : Sinks w first v c.passed
  rest : c.rest <:+ ls
  fresh : first ≤ c.fresh

section
variable {w : WideSet} {first : Nat} {v : Int64} {ls : List Line} {c : Cursor}

theorem Sunk.move (h : c.Sunk w first v ls) (u : Int64) :
    (c.emit (w.moveStackAlways (-u))).Sunk w first (v + u) ls :=
  ⟨.move h.passed (Line.isNew_number h.fresh _), h.rest, Nat.le_add_right_of_le h.fresh⟩

theorem Sunk.emit (h : c.Sunk w first v ls) {is : List Inst}
    (his : ∀ i ∈ is, i.SparesStack ∧ i.frameIndexAt = some 1 ∧ i.StoresOrAdds) :
    (c.emit is).Sunk w first v ls := by
  refine ⟨.still h.passed ?_, h.rest, Nat.le_add_right_of_le h.fresh⟩
  intro l hl
  obtain ⟨hspares, hplace, hkind⟩ := his _ (Line.mem_number hl)
  exact ⟨.inr ⟨hspares, hplace⟩, hkind⟩

theorem Sunk.skip (h : c.Sunk w first v ls) (hls : ∀ l ∈ ls, l.IsSteady first) (test : Inst → Bool)
    (htest : ∀ i, test i → i.StoresOrAdds) : (c.skip test).Sunk w first v ls := by
  refine ⟨.still h.passed ?_, ?_, h.fresh⟩
  · intro l hl
    refine ⟨hls l (h.rest.subset (List.takeWhile_subset _ hl)), ?_⟩
    have hpassed : test l.inst = true := List.mem_takeWhile_imp (p := fun m : Line => test m.inst) hl
    exact htest _ hpassed
  · exact (List.dropWhile_suffix _).trans h.rest

end

/-- A cursor that has passed `xs` and lines without calls, and has such lines ahead and then the
line `l`. -/
def Quiet (xs : List Line) (l : Line) (c : Cursor) : Prop :=
  ∃ ys zs, c.passed = xs ++ ys ∧ c.rest = zs ++ [l] ∧ ∀ m ∈ ys ++ zs, m.inst.IsQuiet

section
variable {xs : List Line} {l : Line} {c : Cursor}

theorem Quiet.emit (h : c.Quiet xs l) {is : List Inst} (his : ∀ i ∈ is, i.IsQuiet) :
    (c.emit is).Quiet xs l := by
  obtain ⟨ys, zs, hpassed, hrest, hquiet⟩ := h
  refine ⟨ys ++ Line.number c.fresh is, zs, ?_, hrest, ?_⟩
  · show c.passed ++ _ = _
    rw [hpassed, List.append_assoc]
  · intro m hm
    rcases List.mem_append.1 hm with hm | hm
    · rcases List.mem_append.1 hm with hm | hm
      · exact hquiet m (List.mem_append_left _ hm)
      · exact his _ (Line.mem_number hm)
    · exact hquiet m (List.mem_append_right _ hm)

/-- The line `l` stays ahead of a cursor that does not skip it. -/
theorem Quiet.skip (h : c.Quiet xs l) (test : Inst → Bool) (hl : test l.inst = false) :
    (c.skip test).Quiet xs l := by
  obtain ⟨ys, zs, hpassed, hrest, hquiet⟩ := h
  have hdrop : (zs ++ [l]).dropWhile (fun m => test m.inst) =
      zs.dropWhile (fun m => test m.inst) ++ [l] := by
    rw [List.dropWhile_append]
    split
    · next hnone => rw [List.isEmpty_iff.1 hnone, List.dropWhile_cons, if_neg (by simp [hl])]; rfl
    · rfl
  have htake : (zs ++ [l]).takeWhile (fun m => test m.inst) =
      zs.takeWhile fun m => test m.inst := by
    have hall := List.takeWhile_append_dropWhile (p := fun m => test m.inst) (l := zs ++ [l])
    rw [hdrop, ← List.append_assoc] at hall
    have hzs := List.append_cancel_right hall
    conv at hzs => rhs; rw [← List.takeWhile_append_dropWhile (p := fun m => test m.inst) (l := zs)]
    exact List.append_cancel_right hzs
  refine ⟨ys ++ zs.takeWhile fun m => test m.inst, zs.dropWhile fun m => test m.inst, ?_, ?_, ?_⟩
  · show c.passed ++ c.rest.takeWhile _ = _
    rw [hpassed, hrest, htake, List.append_assoc]
  · show c.rest.dropWhile _ = _
    rw [hrest, hdrop]
  · rw [List.append_assoc, List.takeWhile_append_dropWhile]
    exact hquiet

end

end Cursor

/-! ## Prologue -/

namespace Target

section
variable {t : Target} {w : WideSet} {p q : Procedure} {first : Nat} {v : Int64} {ls : List Line}
  {c : Cursor}

theorem storesOrAdds_of_isSavedAccess {i : Inst} {op : Opcode} {a : Area} (hw : t.wide? = some w)
    (hop : op = t.instrSet.store ∨ op = .fstd) (h : t.isSavedAccess p op a i) :
    i.StoresOrAdds := by
  rw [isSavedAccess, Bool.and_eq_true, Bool.and_eq_true, decide_eq_true_eq] at h
  left
  show i.op.info.flags.isStore
  rw [h.1.1]
  rcases hop with rfl | rfl
  · rw [instrSet_of_wide hw]
    cases w <;> rfl
  · rfl

theorem sparesStack_pointAtSaved (t : Target) (w : WideSet) (p : Procedure) :
    (t.pointAtSaved w p).SparesStack ∧ (t.pointAtSaved w p).frameIndexAt = some 1 ∧
      (t.pointAtSaved w p).StoresOrAdds := by
  have hregister : (t.pointAtSaved w p).register 0 = t.framePointer := by cases w <;> rfl
  have hsum : ((t.pointAtSaved w p).op.addend? 0).isSome := by cases w <;> rfl
  refine ⟨⟨.inr hsum, ?_⟩, by cases w <;> rfl, .inr hsum⟩
  rw [hregister]
  exact t.framePointer_ne_sp

/-- The cursor of a prologue takes the stack pointer down by the areas and the locals. -/
theorem sunk_prologue (hw : t.wide? = some w) (h : c.Sunk w first v ls)
    (hls : ∀ l ∈ ls, l.IsSteady first) :
    (t.prologueTail w p (t.prologueHead w p c)).Sunk w first
      (v + p.layout.gpr1Size + p.layout.gpr2Size + p.layout.dprSize + p.layout.dprOffset) ls := by
  have hhead : (t.prologueHead w p c).Sunk w first (v + p.layout.gpr1Size) ls :=
    (h.move _).skip hls _ fun _ => storesOrAdds_of_isSavedAccess hw (.inl rfl)
  rw [prologueTail]
  generalize t.prologueHead w p c = d at hhead
  have hpoint : (if t.setsPointer p then d.emit [t.pointAtSaved w p] else d).Sunk w first
      (v + p.layout.gpr1Size) ls := by
    split
    · apply hhead.emit
      intro i hi
      obtain rfl := List.mem_singleton.1 hi
      exact t.sparesStack_pointAtSaved w p
    · exact hhead
  generalize (if t.setsPointer p then d.emit [t.pointAtSaved w p] else d) = e at hpoint
  have hareas := ((hpoint.move p.layout.gpr2Size).skip hls
    (t.isSavedAccess p t.instrSet.store .gpr2)
    fun _ => storesOrAdds_of_isSavedAccess hw (.inl rfl)).move p.layout.dprSize
  split
  · exact (hareas.skip hls _ fun _ => storesOrAdds_of_isSavedAccess hw (.inr rfl)).move _
  · next hzero =>
    rw [not_not.1 hzero, Int64.add_zero]
    exact hareas

/-- Bytes by which a prologue takes the stack pointer down. -/
def prologueSize (p : Procedure) : Int64 :=
  p.frame.varArgsSaveSize +
    if p.layout.hasStackFrame then
      p.layout.gpr1Size + p.layout.gpr2Size + p.layout.dprSize + p.layout.dprOffset
    else p.frame.stackSize

theorem sunk_prologueEnd (hw : t.wide? = some w) (hls : ∀ l ∈ p.lines 0, l.IsSteady first)
    (hfresh : first ≤ p.fresh) :
    (t.prologueEnd w p).Sunk w first (prologueSize p) (p.lines 0) := by
  have hfirst : (⟨[], p.lines 0, p.fresh⟩ : Cursor).Sunk w first 0 (p.lines 0) :=
    ⟨.nil, List.suffix_refl _, hfresh⟩
  have hstart : (prologueStart w p).Sunk w first p.frame.varArgsSaveSize (p.lines 0) :=
    Int64.zero_add p.frame.varArgsSaveSize ▸ hfirst.move p.frame.varArgsSaveSize
  rw [prologueEnd, prologueSize]
  split
  · have hall := sunk_prologue (t := t) (p := p) hw hstart hls
    simpa only [Int64.add_assoc] using hall
  · exact hstart.move p.frame.stackSize

/-- A prologue takes the stack pointer down in front of the first block, and no other block
changes. -/
theorem exists_front_of_emitPrologue {k : Nat} {b : Block} (hw : t.wide? = some w)
    (hok : t.emitPrologue p = .ok () q) (hfresh : first ≤ p.fresh) (hb : p.blocks[k]? = some b)
    (hls : ∀ l ∈ b.lines, l.IsSteady first) :
    ∃ front rest, Sinks w first (if k = 0 then prologueSize p else 0) front ∧
      (∀ l ∈ rest, l.IsSteady first) ∧ q.blocks[k]? = some { b with lines := front ++ rest } := by
  obtain ⟨-, offsetAdjustment, rfl⟩ := shape_of_emitPrologue hw hok
  show ∃ front rest, _ ∧ _ ∧ (p.setLines 0 _).blocks[k]? = _
  rw [Procedure.getElem?_setLines]
  by_cases hk : k = 0
  · subst hk
    have hlines : p.lines 0 = b.lines := by rw [Procedure.lines, hb]
    rw [← hlines] at hls
    have hsunk := sunk_prologueEnd hw hls hfresh
    refine ⟨_, _, hsunk.passed, fun l hl => hls l (hsunk.rest.subset hl), ?_⟩
    rw [if_pos rfl, hb]
    rfl
  · rw [if_neg hk, if_neg (Ne.symm hk)]
    exact ⟨[], b.lines, .nil, hls, hb⟩

/-! ## Epilogues -/

theorem quiet_moveStackAlways (v : Int64) : ∀ i ∈ w.moveStackAlways v, i.IsQuiet := by
  intro i hi
  have hsum : i.IsSum Reg.sp := WideSet.isSum_of_mem_addConstant hi
  exact ⟨(WideSet.plain_of_mem_addConstant hi).2.1, hsum.isCall⟩

theorem quiet_unwindLocals : ∀ i ∈ t.unwindLocals w p, i.IsQuiet := by
  intro i hi
  refine ⟨(plain_of_mem_unwindLocals hi).2.1, ?_⟩
  rw [unwindLocals] at hi
  simp only at hi
  split at hi
  · split at hi
    · have hsum : i.IsSum Reg.sp := WideSet.isSum_of_mem_addConstant hi
      exact hsum.isCall
    · obtain rfl := List.mem_singleton.1 hi
      cases w <;> rfl
  · have hsum : i.IsSum Reg.sp := WideSet.isSum_of_mem_addConstant hi
    exact hsum.isCall

/-- What restores a register loads it. -/
theorem isLoad_of_isRestore {i : Inst} (hw : t.wide? = some w) (h : t.isRestore p i) :
    i.info.flags.isLoad ∧ i.IsQuiet := by
  rw [isRestore, instrSet_of_wide hw, Bool.and_eq_true, Bool.or_eq_true, decide_eq_true_eq,
    decide_eq_true_eq] at h
  show i.op.info.flags.isLoad ∧ i.op.isMarker = false ∧ i.op.info.flags.isCall = false
  rcases h.1 with hop | hop
  · rw [hop]
    cases w <;> exact ⟨rfl, rfl, rfl⟩
  · rw [hop]
    exact ⟨rfl, rfl, rfl⟩

/-- The cursor starts right before the loads at the end of a body. -/
theorem exists_atRestores (body : List Line) (l : Line) (fresh : Nat) :
    ∃ xs ys, body = xs ++ ys ∧ (∀ m ∈ ys, t.isRestore p m.inst) ∧
      t.atRestores p (body ++ [l]) fresh = ⟨xs, ys ++ [l], fresh⟩ := by
  have hsplit : ∀ n, n ≤ body.length →
      (body ++ [l]).drop (body.length - n) = body.drop (body.length - n) ++ [l] := by
    intro n hn
    exact List.drop_append_of_le_length (Nat.sub_le _ _)
  generalize hrun : (body.reverse.takeWhile fun m => t.isRestore p m.inst) = run
  have hprefix : run <+: body.reverse := hrun ▸ List.takeWhile_prefix _
  refine ⟨body.take (body.length - run.length), body.drop (body.length - run.length),
    (List.take_append_drop _ _).symm, ?_, ?_⟩
  · intro m hm
    have hlast : body.drop (body.length - run.length) = run.reverse := by
      conv => rhs; rw [List.prefix_iff_eq_take.1 hprefix]
      rw [List.reverse_take, List.reverse_reverse, List.length_reverse]
    rw [hlast, List.mem_reverse, ← hrun] at hm
    exact List.mem_takeWhile_imp (p := fun m : Line => t.isRestore p m.inst) hm
  · rw [atRestores]
    simp only [List.dropLast_concat, hrun]
    rw [hsplit _ (by simpa using hprefix.length_le)]

/-- An epilogue makes no call, up to the return. -/
theorem quiet_epilogue (hw : t.wide? = some w) (body : List Line) {l : Line} (hl : l.inst.isReturn) :
    ∃ xs ys, body = xs ++ ys ∧ (∀ m ∈ ys, t.isRestore p m.inst) ∧
      (t.epilogue w p (body ++ [l])).Quiet xs l := by
  -- the cursor skips loads of saved registers, and so never the return
  have hlast (op : Opcode) (a : Area) (hop : op.info.flags.isReturn = false) :
      t.isSavedAccess p op a l.inst = false := by
    rw [← Bool.not_eq_true]
    apply not_isSavedAccess_of_op
    rintro rfl
    have hreturn : l.inst.op.info.flags.isReturn = true := hl
    rw [hop] at hreturn
    cases hreturn
  have hload : t.instrSet.load.info.flags.isReturn = false := by
    rw [instrSet_of_wide hw]
    cases w <;> rfl
  rw [epilogue]
  split
  · obtain ⟨xs, ys, hbody, hrestores, hstart⟩ := exists_atRestores (t := t) (p := p) body l p.fresh
    refine ⟨xs, ys, hbody, hrestores, ?_⟩
    simp only [hstart, epilogueBody]
    have hquiet : (⟨xs, ys ++ [l], p.fresh⟩ : Cursor).Quiet xs l := by
      refine ⟨[], ys, (List.append_nil _).symm, rfl, ?_⟩
      intro m hm
      exact (isLoad_of_isRestore hw (hrestores m hm)).2
    have hunwind : ∀ i ∈ t.unwindLocals w p, i.IsQuiet := quiet_unwindLocals
    have hmove (v : Int64) : ∀ i ∈ w.moveStackAlways v, i.IsQuiet := quiet_moveStackAlways v
    have hdoubles := (hquiet.emit hunwind).skip _ (hlast .fldd .dpr rfl)
    have hsecond := (hdoubles.emit (hmove p.layout.dprSize)).skip _
      (hlast t.instrSet.load .gpr2 hload)
    have hfirst := (hsecond.emit (hmove p.layout.gpr2Size)).skip _
      (hlast t.instrSet.load .gpr1 hload)
    exact (hfirst.emit (hmove _)).emit (hmove _)
  · refine ⟨body, [], (List.append_nil _).symm, fun m hm => absurd hm List.not_mem_nil, ?_⟩
    have hlen : (body ++ [l]).length - 1 = body.length := by simp
    simp only [List.dropLast_concat, hlen, List.drop_left]
    have hquiet : (⟨body, [l], p.fresh⟩ : Cursor).Quiet body l :=
      ⟨[], [], (List.append_nil _).symm, rfl, fun m hm => absurd hm List.not_mem_nil⟩
    exact (hquiet.emit (quiet_moveStackAlways _)).emit (quiet_moveStackAlways _)

/-- Of the blocks that get an epilogue, each gets it once. -/
theorem blocks_emitEpilogues {ks : List Nat} {k : Nat} {b : Block} (hw : t.wide? = some w)
    (hks : ks.Nodup) (hok : t.emitEpilogues ks p = .ok () q) (hb : p.blocks[k]? = some b) :
    if k ∈ ks ∧ b.isReturn then
      ∃ blocks fresh, ∃ c : Cursor, c = t.epilogue w { p with blocks, fresh } b.lines ∧
        q.blocks[k]? = some { b with lines := c.passed ++ c.rest }
    else q.blocks[k]? = some b := by
  induction ks generalizing p b with
  | nil =>
    obtain ⟨-, rfl⟩ := EStateM.Result.ok.inj hok
    rw [if_neg fun h => List.not_mem_nil h.1]
    exact hb
  | cons j ks ih =>
    obtain ⟨hj, hks⟩ := List.nodup_cons.1 hks
    rw [emitEpilogues_cons] at hok
    by_cases hjk : j = k
    · -- the block itself: its epilogue is the one that is emitted now
      subst hjk
      rw [hb, Option.map_some, Option.getD_some] at hok
      by_cases hreturn : b.isReturn
      · rw [if_pos hreturn] at hok
        rw [if_pos ⟨List.mem_cons_self, hreturn⟩]
        obtain ⟨_, m, hone, hrest⟩ := Lowering.of_bind hok
        simp only [emitEpilogue, hw, hb, if_pos hreturn] at hone
        obtain ⟨-, rfl⟩ := EStateM.Result.ok.inj hone
        refine ⟨p.blocks, p.fresh, _, rfl, ?_⟩
        have hset : (p.setCursor j (t.epilogue w p b.lines)).blocks[j]? = some { b with
            lines := (t.epilogue w p b.lines).passed ++ (t.epilogue w p b.lines).rest } := by
          show (p.setLines j _).blocks[j]? = _
          rw [Procedure.getElem?_setLines, if_pos rfl, hb]
          rfl
        have hkept := ih hks hrest hset
        rw [if_neg fun h => hj h.1] at hkept
        exact hkept
      · rw [if_neg hreturn] at hok
        rw [if_neg fun h => hreturn h.2]
        have hkept := ih hks hok hb
        rw [if_neg fun h => hreturn h.2] at hkept
        exact hkept
    · -- another block: this one is left alone
      have hmem : k ∈ j :: ks ↔ k ∈ ks := by simp [Ne.symm hjk]
      simp only [hmem]
      split at hok
      · obtain ⟨_, m, hone, hrest⟩ := Lowering.of_bind hok
        obtain ⟨w', d, -, -, -, rfl⟩ := of_emitEpilogue hone
        have hother : (p.setCursor j (t.epilogue w' p d.lines)).blocks[k]? = some b := by
          show (p.setLines j _).blocks[k]? = _
          rw [Procedure.getElem?_setLines, if_neg hjk, hb]
        have hkept := ih hks hrest hother
        exact hkept
      · exact ih hks hok hb

end

/-! ## All stages -/

section
variable {t : Target} {w : WideSet} {p c g q : Procedure} {first : Nat} {v : Int64} {b : Block}
  {front rest : List Line}

/-- Nothing that is inserted is a marker, a call or a return. -/
theorem Emits.facts {saved : List SavedSlot} {index : Int64} {i : Inst}
    (h : t.Emits w saved index i) (hw : t.wide? = some w) :
    i.IsQuiet ∧ i.isReturn = false := by
  cases h with
  | move hi =>
    obtain ⟨hreturn, hmarker, -⟩ := WideSet.plain_of_mem_addConstant hi
    exact ⟨⟨hmarker, (WideSet.isSum_of_mem_addConstant hi).isCall⟩, hreturn⟩
  | copy => cases w <;> exact ⟨⟨rfl, rfl⟩, rfl⟩
  | @save σ _ =>
    rw [instrSet_of_wide hw]
    cases σ.reg <;> cases w <;> exact ⟨⟨rfl, rfl⟩, rfl⟩
  | @restore σ _ =>
    rw [instrSet_of_wide hw]
    cases σ.reg <;> cases w <;> exact ⟨⟨rfl, rfl⟩, rfl⟩
  | point => cases w <;> exact ⟨⟨rfl, rfl⟩, rfl⟩

/-- A return at the end of a block in which code has come up was at its end before. -/
theorem mem_exit_of_grows {n : Nat} {saved : List SavedSlot} {index : Int64} {body : List Line}
    {l : Line} (hw : t.wide? = some w)
    (h : Line.Grows (t.Emits w saved index) n b.lines (body ++ [l]))
    (hl : l.inst.isReturn) : l ∈ b.exit := by
  obtain ⟨us, vs, hlines, -, hvs⟩ := h.split fun hnew => by
    rw [(hnew.facts hw).2] at hl
    cases hl
  cases hvs
  have hreturn : b.isReturn := by
    rw [Block.isReturn, hlines, List.getLast?_concat]
    exact hl
  obtain ⟨m, hexit, -, hbody⟩ := Block.exit_of_isReturn hreturn
  have hsame := hbody.symm.trans hlines
  obtain rfl := (List.concat_inj.1 (by simpa using hsame)).2
  rw [hexit]
  exact List.mem_singleton_self m

/-- The epilogue leaves the front of a block as it is, and some of the lines after it. -/
theorem isParted_of_epilogue {body : List Line} {l : Line} (hw : t.wide? = some w)
    (hfront : Sinks w first v front) (hrest : ∀ m ∈ rest, m.IsSteady first)
    (hlines : front ++ rest = body ++ [l]) (hl : l.inst.isReturn) (hexit : l ∈ b.exit) :
    ∃ mid back, IsParted w first v b front mid back ∧
      (t.epilogue w p (body ++ [l])).passed ++ (t.epilogue w p (body ++ [l])).rest =
        front ++ mid ++ back := by
  -- the return is not in front
  obtain ⟨mid, rfl, hbody⟩ : ∃ mid, rest = mid ++ [l] ∧ body = front ++ mid := by
    rcases List.eq_nil_or_concat rest with rfl | ⟨mid, m, rfl⟩
    · rw [List.append_nil] at hlines
      have hin : l ∈ front := hlines ▸ List.mem_append_right _ List.mem_cons_self
      rw [(hfront.storesOrAdds hin).facts.2.2.1] at hl
      cases hl
    · rw [List.concat_eq_append, ← List.append_assoc] at hlines
      obtain ⟨hbody, hlast⟩ := List.append_inj' hlines rfl
      obtain rfl := List.singleton_inj.1 hlast
      exact ⟨mid, List.concat_eq_append, hbody.symm⟩
  obtain ⟨xs, ys, hsplit, hrestores, zs, us, hpassed, hahead, hquiet⟩ :=
    quiet_epilogue (t := t) (p := p) hw body hl
  -- nor are the loads before it, so that they are a part of the rest
  obtain ⟨as, rfl, hmid⟩ : ∃ as, xs = front ++ as ∧ mid = as ++ ys := by
    rcases List.append_eq_append_iff.1 (hbody.symm.trans hsplit) with ⟨as, hxs, hmid⟩ | ⟨cs, hfs, hys⟩
    · exact ⟨as, hxs, hmid⟩
    · cases cs with
      | nil =>
        rw [List.append_nil] at hfs
        exact ⟨[], by rw [hfs, List.append_nil], hys.symm⟩
      | cons m cs =>
        have hin : m ∈ front := hfs ▸ List.mem_append_right _ List.mem_cons_self
        have hload := (isLoad_of_isRestore hw (hrestores m (hys ▸ List.mem_cons_self))).1
        rw [(hfront.storesOrAdds hin).facts.2.2.2] at hload
        cases hload
  refine ⟨as, zs ++ us ++ [l], ⟨hfront, ?_, .inr ⟨zs ++ us, l, rfl, hexit, hquiet⟩⟩, ?_⟩
  · intro m hm
    apply hrest
    rw [hmid]
    exact List.mem_append_left _ (List.mem_append_left _ hm)
  · rw [hpassed, hahead]
    simp only [List.append_assoc]

/-- The stores and loads of saved registers leave the stack pointer alone. -/
theorem isSteady_of_framed {k : Nat} (hw : t.wide? = some w) (hrow : t.IsSavedRow c.frame.saved)
    (h : Procedure.Framed first (t.saves c) (fun _ => t.restores c) c q)
    (hold : ∀ b ∈ c.blocks, ∀ l ∈ b.lines, l.label < first) (hb : c.blocks[k]? = some b) :
    ∃ ls, q.blocks[k]? = some { b with lines := ls } ∧ ∀ l ∈ ls, l.IsSteady first := by
  obtain ⟨as, es, has, hes, hblock⟩ := h.block k b hb
  refine ⟨_, hblock, ?_⟩
  have hne {σ : SavedSlot} (hσ : σ ∈ c.frame.saved) : σ.reg ≠ Reg.sp := by
    obtain ⟨cs, hcs, hreg, -⟩ := hrow.mem σ hσ
    exact hreg ▸ ne_sp_of_mem_calleeSaved hcs
  have hbefore : ∀ l ∈ b.lines, l.IsSteady first :=
    fun l hl => .inl (hold b (List.mem_of_getElem? hb) l hl)
  rw [← b.body_append_exit] at hbefore
  intro l hl
  rcases List.mem_append.1 hl with hl | hl
  · rcases List.mem_append.1 hl with hl | hl
    · rcases List.mem_append.1 hl with hl | hl
      · have hin := has.mem hl
        split at hin
        · obtain ⟨σ, hσ, heq⟩ := List.mem_map.1 hin
          right
          rw [← heq, instrSet_of_wide hw]
          exact ⟨sparesStack_storeToSlot w (hrow.hasSlot hσ) (hne hσ) _,
            (w.isSlotAccess_storeToSlot (hrow.hasSlot hσ) _).place⟩
        · exact absurd hin List.not_mem_nil
      · exact hbefore l (List.mem_append_left _ hl)
    · have hin := hes.mem hl
      split at hin
      · obtain ⟨σ, hσ, heq⟩ := List.mem_map.1 hin
        rw [List.mem_reverse] at hσ
        right
        rw [← heq, instrSet_of_wide hw]
        exact ⟨sparesStack_loadFromSlot w (hrow.hasSlot hσ) (hne hσ) _,
          (w.isSlotAccess_loadFromSlot (hrow.hasSlot hσ) _).place⟩
      · exact absurd hin List.not_mem_nil
  · exact hbefore l (List.mem_append_right _ hl)

/-- What the walk goes through, block by block. -/
theorem exists_parts_of_insertFrame (hw : t.wide? = some w) (hrow : t.IsSavedRow c.frame.saved)
    (hold : ∀ b ∈ c.blocks, ∀ l ∈ b.lines, l.label < c.fresh)
    (hlayout : t.computeLayout (t.insertSpillCode c) = .ok () g)
    (hinsert : t.insertFrame g = .ok () q) :
    ∃ m, c.Grows (t.Emits w c.frame.saved g.layout.fpSpillIndex) m ∧
      (∃ blocks fresh offsetAdjustment, m = { g with
        blocks
        fresh
        frame := { c.frame with offsetAdjustment } }) ∧
      t.WalksBlocks w (List.range m.blocks.length) m q ∧
      ∀ k b, c.blocks[k]? = some b → ∃ front mid back,
        IsParted w c.fresh (if k = 0 then prologueSize g else 0) b front mid back ∧
          m.blocks[k]? = some { b with lines := front ++ mid ++ back } := by
  obtain ⟨m, m', hprologue, hepilogues, hwalk⟩ := insertFrame_cases hinsert
  obtain ⟨hspilled, -⟩ := grows_insertSpillCode (t := t) w c g.layout.fpSpillIndex
  obtain ⟨hframed, blocks, fresh, hspill⟩ := framed_insertSpillCode (t := t) (p := c) (q := c) rfl rfl
    fun i hi => isReturn_of_mem_saves hw hrow hi
  rw [hspill] at hlayout hspilled hframed
  obtain ⟨layout, rfl⟩ := computeLayout_shape hlayout
  obtain ⟨hhead, blocks₁, fresh₁, offsetAdjustment, hm₁⟩ := grows_emitPrologue hw hprologue
  obtain ⟨htail, blocks₂, fresh₂, hm₂⟩ :=
    grows_emitEpilogues c.frame.saved layout.fpSpillIndex hw hepilogues
  have hfirst : c.Grows (t.Emits w c.frame.saved layout.fpSpillIndex)
      { c with blocks, fresh, layout } := ⟨hspilled.length, hspilled.fresh, hspilled.lines⟩
  have hgrown := hfirst.trans hhead
  refine ⟨m', hgrown.trans htail, ⟨blocks₂, fresh₂, offsetAdjustment, by rw [hm₂, hm₁]⟩,
    walksBlocks_walkBlocks hw List.nodup_range hwalk, ?_⟩
  intro k b hb
  obtain ⟨ls, hls, hsteady⟩ := isSteady_of_framed hw hrow hframed hold hb
  obtain ⟨front, rest, hfront, hrest, hm⟩ :=
    exists_front_of_emitPrologue hw hprologue hframed.fresh hls hsteady
  have hin : k ∈ List.range m.blocks.length :=
    List.mem_range.2 (List.getElem?_eq_some_iff.1 hm).1
  have hepilogue := blocks_emitEpilogues hw List.nodup_range hepilogues hm
  have hlines : Line.Grows (t.Emits w c.frame.saved layout.fpSpillIndex) c.fresh b.lines
      (front ++ rest) := by
    have hall := hgrown.lines k
    rw [Procedure.lines, Procedure.lines, hb, hm] at hall
    exact hall
  -- a block that returns gets an epilogue, and others stay as they are
  by_cases hreturn : ({ b with lines := front ++ rest } : Block).isReturn
  · rw [if_pos ⟨hin, hreturn⟩] at hepilogue
    obtain ⟨_, _, d, rfl, hblock⟩ := hepilogue
    obtain ⟨l, -, hl, hbody⟩ := Block.exit_of_isReturn hreturn
    generalize ({ b with lines := front ++ rest } : Block).body = body at hbody
    have hbody : front ++ rest = body ++ [l] := hbody
    simp only [hbody] at hblock hlines
    obtain ⟨mid, back, hparted, heq⟩ := isParted_of_epilogue hw hfront hrest hbody hl
      (mem_exit_of_grows hw hlines hl)
    refine ⟨front, mid, back, hparted, ?_⟩
    rw [hblock, heq]
  · rw [if_neg fun h => hreturn h.2] at hepilogue
    exact ⟨front, rest, [], ⟨hfront, hrest, .inl rfl⟩, by rw [hepilogue, List.append_nil]⟩

end

end Target

end FrameLowering
