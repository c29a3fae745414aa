import FrameLowering.Proofs.BuiltFunction
import FrameLowering.Proofs.Leftovers

/-!
# Labels of lines

A line is known by its label. The lines that a description makes are numbered through, and every
line that is inserted takes the next number, so that the lines of a block can be told apart at each
stage (`Procedure.IsLabelled`), up to where the elimination walk starts (`isLabelled_of_layout`).
-/

namespace FrameLowering

namespace Line

/-- Lines with different labels, all below `n`. -/
structure Apart (n : Nat) (ls : List Line) : Prop where
  old : ∀ l ∈ ls, l.label < n
  unique : (ls.map Line.label).Nodup

section
variable {n m : Nat} {ls xs ys : List Line}

theorem Apart.mono (h : Apart n ls) (hnm : n ≤ m) : Apart m ls :=
  ⟨fun l hl => Nat.lt_of_lt_of_le (h.old l hl) hnm, h.unique⟩

theorem apart_number (n : Nat) (is : List Inst) : Apart (n + is.length) (number n is) := by
  refine ⟨fun l hl => label_lt_of_mem_number hl, ?_⟩
  induction is generalizing n with
  | nil => exact List.nodup_nil
  | cons i is ih =>
    refine List.nodup_cons.2 ⟨fun hmem => ?_, ih (n + 1)⟩
    obtain ⟨l, hl, hlabel⟩ := List.mem_map.1 hmem
    have hle := (isNew_number (Nat.le_refl (n + 1)) is).2 l hl
    have hsame : l.label = n := hlabel
    omega

/-- Lines that are inserted among others, numbered from where those end. -/
theorem Apart.insert (h : Apart n (xs ++ ys)) (is : List Inst) :
    Apart (n + is.length) (xs ++ number n is ++ ys) := by
  have hperm : (xs ++ number n is ++ ys).Perm (number n is ++ (xs ++ ys)) := by
    rw [← List.append_assoc]
    exact List.perm_append_comm.append_right ys
  have hnew := apart_number n is
  refine ⟨fun l hl => ?_, (hperm.map Line.label).nodup_iff.2 ?_⟩
  · rcases List.mem_append.1 (hperm.mem_iff.1 hl) with hl | hl
    · exact hnew.old l hl
    · exact (h.mono (Nat.le_add_right ..)).old l hl
  · rw [List.map_append, List.nodup_append]
    refine ⟨hnew.unique, h.unique, fun a ha b hb hab => ?_⟩
    obtain ⟨l, hl, rfl⟩ := List.mem_map.1 ha
    obtain ⟨m, hm, rfl⟩ := List.mem_map.1 hb
    have hle := (isNew_number (Nat.le_refl n) is).2 l hl
    have hlt := h.old m hm
    omega

end

end Line

namespace Cursor

/-- The lines around a cursor can be told apart. -/
structure IsLabelled (first : Nat) (c : Cursor) : Prop where
  first_le : first ≤ c.fresh
  apart : Line.Apart c.fresh (c.passed ++ c.rest)

section
variable {first : Nat} {c : Cursor}

theorem IsLabelled.emit (h : c.IsLabelled first) (is : List Inst) : (c.emit is).IsLabelled first :=
  ⟨Nat.le_trans h.first_le (Nat.le_add_right ..), h.apart.insert is⟩

theorem IsLabelled.skip (h : c.IsLabelled first) (test : Inst → Bool) :
    (c.skip test).IsLabelled first := by
  refine ⟨h.first_le, ?_⟩
  rw [skip_lines]
  exact h.apart

end

end Cursor

namespace Procedure

/-- Labels tell the lines of a block apart, also from lines that are still to come. -/
structure IsLabelled (p : Procedure) : Prop where
  old : ∀ b ∈ p.blocks, ∀ l ∈ b.lines, l.label < p.fresh
  unique : ∀ b ∈ p.blocks, (b.lines.map Line.label).Nodup

section
variable {p q : Procedure} {k place : Nat} {c : Cursor}

theorem IsLabelled.apart (h : p.IsLabelled) (k : Nat) : Line.Apart p.fresh (p.lines k) := by
  rw [lines]
  cases hb : p.blocks[k]? with
  | none => exact ⟨fun l hl => absurd hl List.not_mem_nil, List.nodup_nil⟩
  | some b => exact ⟨h.old b (List.mem_of_getElem? hb), h.unique b (List.mem_of_getElem? hb)⟩

theorem IsLabelled.of_same (h : p.IsLabelled) (hblocks : q.blocks = p.blocks)
    (hfresh : q.fresh = p.fresh) : q.IsLabelled := by
  refine ⟨?_, ?_⟩
  · rw [hblocks, hfresh]
    exact h.old
  · rw [hblocks]
    exact h.unique

theorem IsLabelled.setCursor (h : p.IsLabelled) (hc : c.IsLabelled p.fresh) (k : Nat) :
    (p.setCursor k c).IsLabelled := by
  have hblock (b : Block) (hb : b ∈ (p.setCursor k c).blocks) : Line.Apart c.fresh b.lines := by
    obtain ⟨j, hj⟩ := List.getElem?_of_mem hb
    have hget : (p.setCursor k c).blocks[j]? =
        if k = j then p.blocks[j]?.map fun b => { b with lines := c.passed ++ c.rest }
        else p.blocks[j]? := p.getElem?_setLines k j _
    rw [hget] at hj
    split at hj
    · obtain ⟨_, -, rfl⟩ := Option.map_eq_some_iff.1 hj
      exact hc.apart
    · have hmem := List.mem_of_getElem? hj
      exact Line.Apart.mono ⟨h.old b hmem, h.unique b hmem⟩ hc.first_le
  exact ⟨fun b hb => (hblock b hb).old, fun b hb => (hblock b hb).unique⟩

theorem IsLabelled.insert (h : p.IsLabelled) (k place : Nat) (is : List Inst) :
    (p.insert k place is).IsLabelled := by
  have hstart : Cursor.IsLabelled p.fresh ⟨(p.lines k).take place, (p.lines k).drop place, p.fresh⟩ := by
    refine ⟨Nat.le_refl _, ?_⟩
    rw [List.take_append_drop]
    exact h.apart k
  exact h.setCursor (hstart.emit is) k

end

end Procedure

namespace Target

section
variable {t : Target} {w : WideSet} {p q : Procedure} {first : Nat} {c : Cursor}

theorem isLabelled_planned (h : p.IsLabelled) : (t.planned p).IsLabelled := by
  refine h.of_same (blocks_planned t p) ?_
  obtain ⟨regs, layout, frame, hchosen, -⟩ :=
    t.finalizeSpillSet_shape t.config.scavenging (t.decidePointer p.markUsed)
  rw [planned, hchosen]
  rfl

theorem isLabelled_insertSpillCode (h : p.IsLabelled) : (t.insertSpillCode p).IsLabelled := by
  have hreturn (is : List Inst) (q : Procedure) (k : Nat) (h : q.IsLabelled) :
      (beforeReturn is q k).IsLabelled := by
    rw [beforeReturn]
    split
    · split
      · exact h.insert ..
      · exact h
    · exact h
  rw [insertSpillCode]
  split
  · exact h
  · have hfold (ks : List Nat) (q : Procedure) (h : q.IsLabelled) :
        (ks.foldl (beforeReturn (t.restores p)) q).IsLabelled := by
      induction ks generalizing q with
      | nil => exact h
      | cons k ks ih => exact ih _ (hreturn _ q k h)
    exact hfold _ _ (h.insert ..)

theorem isLabelled_prologue (h : c.IsLabelled first) :
    (t.prologueTail w p (t.prologueHead w p c)).IsLabelled first := by
  have hhead : (t.prologueHead w p c).IsLabelled first := (h.emit _).skip _
  generalize t.prologueHead w p c = d at hhead
  have hpoint : (if t.setsPointer p then d.emit [t.pointAtSaved w p] else d).IsLabelled first := by
    split
    · exact hhead.emit _
    · exact hhead
  rw [prologueTail]
  have hareas := ((hpoint.emit (w.moveStackAlways (-p.layout.gpr2Size))).skip
    (t.isSavedAccess p t.instrSet.store .gpr2)).emit (w.moveStackAlways (-p.layout.dprSize))
  split
  · exact (hareas.skip _).emit _
  · exact hareas

theorem isLabelled_emitPrologue (h : p.IsLabelled) (hok : t.emitPrologue p = .ok () q) :
    q.IsLabelled := by
  obtain ⟨w, -, hblocks, offsetAdjustment, rfl⟩ := of_emitPrologue hok
  obtain ⟨entry, others, hentry⟩ := List.exists_cons_of_ne_nil hblocks
  have hmem : entry ∈ p.blocks := hentry ▸ List.mem_cons_self
  have hlines : p.lines 0 = entry.lines := by rw [Procedure.lines, hentry]; rfl
  have hfirst : Cursor.IsLabelled p.fresh ⟨[], p.lines 0, p.fresh⟩ := by
    rw [hlines]
    exact ⟨Nat.le_refl _, h.old entry hmem, h.unique entry hmem⟩
  have hstart : (prologueStart w p).IsLabelled p.fresh := hfirst.emit _
  have hend : (t.prologueEnd w p).IsLabelled p.fresh := by
    rw [prologueEnd]
    split
    · exact isLabelled_prologue hstart
    · exact hstart.emit _
  exact (h.setCursor hend 0).of_same rfl rfl

theorem isLabelled_epilogue {ls : List Line} (h : Line.Apart p.fresh ls) :
    (t.epilogue w p ls).IsLabelled p.fresh := by
  rw [epilogue]
  simp only
  split
  · have hstart : (t.atRestores p ls p.fresh).IsLabelled p.fresh := by
      refine ⟨Nat.le_refl _, ?_⟩
      rw [atRestores_lines]
      exact h
    have hdoubles := (hstart.emit (t.unwindLocals w p)).skip (t.isSavedAccess p .fldd .dpr)
    have hcores := (hdoubles.emit (w.moveStackAlways p.layout.dprSize)).skip
      (t.isSavedAccess p t.instrSet.load .gpr2)
    have hlow := (hcores.emit (w.moveStackAlways p.layout.gpr2Size)).skip
      (t.isSavedAccess p t.instrSet.load .gpr1)
    exact (hlow.emit _).emit _
  · have hstart : Cursor.IsLabelled p.fresh ⟨ls.dropLast, ls.drop (ls.length - 1), p.fresh⟩ := by
      refine ⟨Nat.le_refl _, ?_⟩
      rw [List.dropLast_eq_take, List.take_append_drop]
      exact h
    exact (hstart.emit _).emit _

theorem isLabelled_emitEpilogues {ks : List Nat} (h : p.IsLabelled)
    (hok : t.emitEpilogues ks p = .ok () q) : q.IsLabelled := by
  refine emitEpilogues_induct (fun w m k b _ hb hm => ?_) h hok
  have hmem := List.mem_of_getElem? hb
  exact hm.setCursor (isLabelled_epilogue ⟨hm.old b hmem, hm.unique b hmem⟩) k

/-- The lines of a function can still be told apart where the elimination walk starts. -/
theorem isLabelled_of_layout {g m : Procedure} (h : p.IsLabelled)
    (hlayout : t.computeLayout (t.insertSpillCode (t.planned p)) = .ok () g)
    (hprologue : t.emitPrologue g = .ok () m)
    (hepilogues : t.emitEpilogues (List.range m.blocks.length) m = .ok () q) : q.IsLabelled := by
  have hspilled : (t.insertSpillCode (t.planned p)).IsLabelled :=
    isLabelled_insertSpillCode (isLabelled_planned h)
  have hgrouped : g.IsLabelled := by
    obtain ⟨layout, rfl⟩ := computeLayout_shape hlayout
    exact hspilled.of_same rfl rfl
  exact isLabelled_emitEpilogues (isLabelled_emitPrologue hgrouped hprologue) hepilogues

end

end Target

namespace FunctionDesc

/-- The lines of a description are numbered through. -/
theorem isLabelled_of_build {d : FunctionDesc} {u : Described} (h : d.build = .ok u) :
    u.proc.IsLabelled := by
  obtain ⟨-, abi, regs, frame, blocks, fresh, -, hblocks, rfl⟩ := build_cases h
  have hapart (b : Block) (hb : b ∈ blocks) : Line.Apart fresh b.lines := by
    obtain ⟨n, is, hlines, hle⟩ := (lines_of_buildBlocks hblocks).2 b hb
    rw [hlines]
    exact (Line.apart_number n is).mono hle
  exact ⟨fun b hb => (hapart b hb).old, fun b hb => (hapart b hb).unique⟩

end FunctionDesc

end FrameLowering
