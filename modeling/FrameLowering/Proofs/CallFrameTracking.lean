import FrameLowering.Proofs.EliminatedIndex

/-!
# The stack adjustment that the walk tracks

The elimination walk counts by how many bytes the call frame markers of a block have moved the
stack pointer down, and addresses objects by that count. `GetsPast` follows the walk up to any line
of a block, also of one that it does not get through, and `Visits` says at which line of a function
it is. The stack pointer updates among the pieces emitted so far (`Piece.stackUpdates`) stand for
markers only, and executing them takes the stack pointer down by the bytes that are counted
(`Walks.execAll_stackUpdates`). The main theorem is `tracksStack_of_visits`.
-/

namespace FrameLowering

open ImmediateField (word)

/-! ## Stack pointer updates -/

namespace Piece

/-- The instruction, if it is new and adds to the stack pointer. -/
def stackUpdate? : Piece → Option Inst
  | .fresh i => if (i.op.addend? 0).isSome ∧ i.register 0 = Reg.sp then some i else none
  | .line _ => none

/-- New instructions that add to the stack pointer. -/
def stackUpdates (ps : List Piece) : List Inst :=
  ps.filterMap stackUpdate?

theorem stackUpdates_append (ps qs : List Piece) :
    stackUpdates (ps ++ qs) = stackUpdates ps ++ stackUpdates qs :=
  List.filterMap_append

theorem stackUpdates_of_sums {is : List Inst} (h : ∀ i ∈ is, i.IsSum Reg.sp) :
    stackUpdates (is.map .fresh) = is := by
  induction is with
  | nil => rfl
  | cons i is ih =>
    obtain ⟨hi, his⟩ := List.forall_mem_cons.1 h
    have hsome : stackUpdate? (.fresh i) = some i := if_pos hi
    rw [stackUpdates, List.map_cons, List.filterMap_cons_some hsome]
    exact congrArg _ (ih his)

theorem stackUpdates_of_spares {is : List Inst} (h : ∀ i ∈ is, i.SparesStack) :
    stackUpdates (is.map .fresh) = [] := by
  rw [stackUpdates, List.filterMap_eq_nil_iff]
  intro x hx
  obtain ⟨i, hi, rfl⟩ := List.mem_map.1 hx
  exact if_neg fun hsum => (h i hi).register hsum.2

theorem stackUpdates_line_cons (l : Line) (ps : List Piece) :
    stackUpdates (.line l :: ps) = stackUpdates ps :=
  List.filterMap_cons_none rfl

end Piece

open Piece (stackUpdates)

/-- Exactly one state comes after a move of the stack pointer. -/
theorem WideSet.execAll_moveStack_iff {w : WideSet} {v : Int64} {pred : Reg} {s s' : State} :
    ExecAll (w.moveStack v Cond.al pred) s s' ↔ s' = s.write Reg.sp (s.sp + word v) := by
  refine ⟨execAll_moveStack, ?_⟩
  rintro rfl
  obtain ⟨m, hm⟩ := exists_execAll (fun i hi => (plain_of_mem_addConstant hi).1) s
  rwa [execAll_moveStack hm] at hm

theorem Walked.after_after (ps qs : List Piece) (x : Walked) :
    (x.after ps).after qs = x.after (qs ++ ps) := by
  rw [after, after, after, List.append_assoc]

namespace Target

section
variable {t : Target} {w : WideSet} {p : Procedure} {block : Nat} {spAdj spAdj' : Int64}
  {ls : List Line} {l : Line} {ps : List Piece} {e : Expansion} {m : StackMove} {s s' : State}

theorem stackUpdates_callFrame (hw : t.wide? = some w) (hm : t.callFrame p block l.inst = .ok m) :
    stackUpdates (m.insts.map .fresh) = m.insts := by
  obtain ⟨v, hinsts, -⟩ := callFrame_facts hw hm
  apply Piece.stackUpdates_of_sums
  intro i hi
  rw [hinsts] at hi
  exact WideSet.isSum_of_mem_addConstant hi

/-- What stands for a frame index does not update the stack pointer. -/
theorem Expands.stackUpdates_pieces (h : Expands t w p block l.inst spAdj e)
    (hw : t.wide? = some w) : stackUpdates (e.pieces l) = [] := by
  obtain ⟨hbefore, hafter⟩ := h.sparesStack hw
  rw [Expansion.pieces, Piece.stackUpdates_append, Piece.stackUpdates_line_cons,
    Piece.stackUpdates_of_spares hbefore, Piece.stackUpdates_of_spares hafter]
  rfl

/-- The updates that a walk emits take the stack pointer down by as much as the walk counts, and
change nothing else. -/
theorem Walks.execAll_stackUpdates (h : Walks t w p block spAdj ls spAdj' ps)
    (hw : t.wide? = some w)
    (halways : ∀ l ∈ ls, l.inst.op.isMarker → l.inst.predicate.1 = Cond.al) :
    ExecAll (stackUpdates ps) s s' ↔ s' = s.write Reg.sp (s.sp - word (spAdj' - spAdj)) := by
  induction h generalizing s with
  | @nil spAdj =>
    have hzero : s.write Reg.sp (s.sp - word (spAdj - spAdj)) = s := by
      rw [Int64.sub_self, ImmediateField.word_zero, sub_zero]
      exact State.write_read_core s 13
    rw [hzero]
    exact Iff.rfl
  | @marker spAdj spAdj' l ls m ps hop hm hwalk ih =>
    obtain ⟨hl, hrest⟩ := List.forall_mem_cons.1 halways
    obtain ⟨v, hinsts, hdelta, -⟩ := callFrame_facts hw hm
    have hmove (x : State) : ExecAll m.insts s x ↔ x = s.write Reg.sp (s.sp + word v) := by
      rw [hinsts, hl hop]
      exact WideSet.execAll_moveStack_iff
    have hread : (s.write Reg.sp (s.sp + word v)).sp = s.sp + word v := State.read_write_core s 13 _
    -- the move comes first, and what is still to be counted after it
    have hsum : s.sp + word v - word (spAdj' - (spAdj + m.delta)) =
        s.sp - word (spAdj' - spAdj) := by
      rw [hdelta, ImmediateField.word_sub, ImmediateField.word_add, ImmediateField.word_neg,
        ImmediateField.word_sub]
      grind
    rw [Piece.stackUpdates_append, stackUpdates_callFrame hw hm, execAll_append]
    simp only [hmove, exists_eq_left]
    rw [ih hrest, hread, hsum, Reg.sp, State.write_write]
  | plain _ _ _ ih =>
    rw [Piece.stackUpdates_line_cons]
    exact ih (List.forall_mem_cons.1 halways).2
  | expand _ he _ ih =>
    rw [Piece.stackUpdates_append, he.stackUpdates_pieces hw]
    exact ih (List.forall_mem_cons.1 halways).2

/-- With a reserved call frame there is nothing to count. -/
theorem Walks.of_reserves (h : Walks t w p block spAdj ls spAdj' ps) (hw : t.wide? = some w)
    (hreserves : t.reservesCallFrame p) : spAdj' = spAdj ∧ stackUpdates ps = [] := by
  have hamount (size : Option Int64) : t.markerAmount p size = 0 := by
    cases size with
    | none => rfl
    | some n => exact if_pos hreserves
  induction h with
  | nil => exact ⟨rfl, rfl⟩
  | @marker _ _ l _ m _ _ hm _ ih =>
    obtain ⟨v, hinsts, hdelta, hv⟩ := callFrame_facts hw hm
    obtain rfl : v = 0 := by
      rw [hv, hamount, Int64.neg_zero, ite_self]
    have hnone : m.insts = [] := by
      rw [hinsts, WideSet.moveStack, WideSet.addConstant]
      rfl
    rw [hnone, ih.1, hdelta, Int64.neg_zero, Int64.add_zero]
    exact ⟨rfl, ih.2⟩
  | plain _ _ _ ih =>
    rw [Piece.stackUpdates_line_cons]
    exact ih
  | expand _ he _ ih =>
    rw [Piece.stackUpdates_append, he.stackUpdates_pieces hw]
    exact ih

end

/-! ## Where a walk is -/

/-- A walk through a block gets past some lines and has `rest` before it: the bytes that it counts
before those lines and after them, and the pieces that stand for them. -/
inductive GetsPast (t : Target) (p : Procedure) (block : Nat) (rest : List Line) :
    Int64 → List Line → Int64 → List Piece → Prop
  | nil {spAdj : Int64} : GetsPast t p block rest spAdj [] spAdj []
  | marker {spAdj spAdj' : Int64} {l : Line} {ls : List Line} {m : StackMove} {ps : List Piece}
      (hop : l.inst.op.isMarker) (hm : t.callFrame p block l.inst = .ok m)
      (h : GetsPast t p block rest (spAdj + m.delta) ls spAdj' ps) :
      GetsPast t p block rest spAdj (l :: ls) spAdj' (m.insts.map .fresh ++ ps)
  | plain {spAdj spAdj' : Int64} {l : Line} {ls : List Line} {ps : List Piece}
      (hop : ¬ l.inst.op.isMarker) (hplace : l.inst.frameIndexAt.isNone)
      (h : GetsPast t p block rest spAdj ls spAdj' ps) :
      GetsPast t p block rest spAdj (l :: ls) spAdj' (.line l :: ps)
  | expand {spAdj spAdj' : Int64} {l : Line} {ls : List Line} {e : Expansion} {ps : List Piece}
      (hop : ¬ l.inst.op.isMarker) (hplace : ¬ l.inst.frameIndexAt.isNone)
      (he : t.expand p block l.inst ((ls ++ rest).map Line.inst) spAdj t.config.scavenging = e)
      (hok : e.failure = none) (h : GetsPast t p block rest spAdj ls spAdj' ps) :
      GetsPast t p block rest spAdj (l :: ls) spAdj' (e.pieces l ++ ps)

section
variable {t : Target} {w : WideSet} {p : Procedure} {block : Nat} {spAdj spAdj' : Int64}
  {ls rest : List Line} {ps : List Piece}

theorem GetsPast.walks (h : t.GetsPast p block rest spAdj ls spAdj' ps) (hw : t.wide? = some w) :
    Walks t w p block spAdj ls spAdj' ps := by
  induction h with
  | nil => exact .nil
  | marker hop hm _ ih => exact .marker hop hm ih
  | plain hop hplace _ ih => exact .plain hop (Option.isNone_iff_eq_none.1 hplace) ih
  | expand hop _ he hok _ ih =>
    exact .expand hop (expands_of_expand hw he hok) ih

/-- From there on the walk goes on with the bytes that it has counted. -/
theorem GetsPast.walkLines_eq (h : t.GetsPast p block rest spAdj ls spAdj' ps) :
    t.walkLines p block spAdj (ls ++ rest) = (t.walkLines p block spAdj' rest).after ps := by
  induction h with
  | nil => rfl
  | marker hop hm _ ih =>
    rw [List.cons_append, walkLines, if_pos hop, hm, ← Walked.after_after, ← ih]
  | @plain _ _ l _ ps hop hplace _ ih =>
    rw [List.cons_append, walkLines, if_neg hop, if_pos hplace, ih]
    exact Walked.after_after ps [.line l] _
  | expand hop hplace he hok _ ih =>
    subst he
    rw [List.cons_append, walkLines, if_neg hop, if_neg hplace, ← Walked.after_after, ← ih]
    simp only [hok]

/-- A walk that gets through a block passes all of its lines. -/
theorem exists_getsPast (hok : (t.walkLines p block spAdj (ls ++ rest)).failure = none) :
    ∃ spAdj' ps, t.GetsPast p block rest spAdj ls spAdj' ps := by
  induction ls generalizing spAdj with
  | nil => exact ⟨spAdj, [], .nil⟩
  | cons l ls ih =>
    rw [List.cons_append, walkLines] at hok
    split at hok
    · next hop =>
      cases hm : t.callFrame p block l.inst with
      | error f => simp [hm] at hok
      | ok m =>
        simp only [hm] at hok
        obtain ⟨spAdj', ps, h⟩ := ih hok
        exact ⟨spAdj', _, .marker hop hm h⟩
    · next hop =>
      split at hok
      · next hplace =>
        obtain ⟨spAdj', ps, h⟩ := ih hok
        exact ⟨spAdj', _, .plain hop hplace h⟩
      · next hplace =>
        cases hf : (t.expand p block l.inst ((ls ++ rest).map Line.inst) spAdj
            t.config.scavenging).failure with
        | some f =>
          simp only [hf] at hok
          cases hok
        | none =>
          simp only [hf] at hok
          obtain ⟨spAdj', ps, h⟩ := ih hok
          exact ⟨spAdj', _, .expand hop hplace rfl hf h⟩

end

end Target

/-- A line of a block that the elimination walk comes to. -/
structure Visit where
  /-- The function as it is by then, with the blocks before this one done. -/
  function : Procedure
  before : List Line
  line : Line
  after : List Line
  /-- What stands for the lines before this one. -/
  pieces : List Piece
  /-- Bytes by which the walk takes the stack pointer to have moved down. -/
  spAdj : Int64

namespace Target

/-- The walk through a function comes to a line of block `k`. -/
structure Visits (t : Target) (p : Procedure) (k : Nat) (v : Visit) : Prop where
  reached : t.walkBlocks (List.range k) p = .ok () v.function
  lines : p.lines k = v.before ++ v.line :: v.after
  past : t.GetsPast v.function k (v.line :: v.after) 0 v.before v.spAdj v.pieces

section
variable {t : Target} {w : WideSet} {p q : Procedure} {k : Nat} {v : Visit} {f : Failure}

theorem walkBlocks_append (xs ys : List Nat) :
    t.walkBlocks (xs ++ ys) = (t.walkBlocks xs >>= fun _ => t.walkBlocks ys) := by
  induction xs with
  | nil => exact (pure_bind (m := Lowering) () fun _ => t.walkBlocks ys).symm
  | cons x xs ih =>
    show (t.walkBlock x >>= fun _ => t.walkBlocks (xs ++ ys)) = _
    rw [ih]
    exact (bind_assoc (t.walkBlock x) (fun _ => t.walkBlocks xs) fun _ => t.walkBlocks ys).symm

theorem exists_range_eq {n : Nat} (hn : k < n) :
    ∃ rest, List.range n = List.range k ++ k :: rest := by
  obtain ⟨d, rfl⟩ := Nat.exists_eq_add_of_lt hn
  refine ⟨((List.range d).map Nat.succ).map (k + ·), ?_⟩
  rw [Nat.add_assoc, List.range_add, List.range_succ_eq_map]
  rfl

theorem lt_length_of_lines {before after : List Line} {l : Line}
    (h : p.lines k = before ++ l :: after) : k < p.blocks.length := by
  by_contra hout
  rw [Procedure.lines, List.getElem?_eq_none (Nat.le_of_not_lt hout)] at h
  exact List.append_ne_nil_of_right_ne_nil _ (List.cons_ne_nil _ _) h.symm

/-- A walk that gets through a function gets through each block, and the pieces become its lines. -/
theorem exists_walkLines (hw : t.wide? = some w) (hok : t.replaceFrameIndices p = .ok () q)
    (hk : k < p.blocks.length) :
    ∃ m, t.walkBlocks (List.range k) p = .ok () m ∧ p.fresh ≤ m.fresh ∧
      (t.walkLines m k 0 (p.lines k)).failure = none ∧
      q.lines k = (Piece.number m.fresh (t.walkLines m k 0 (p.lines k)).pieces).1 := by
  obtain ⟨rest, hrange⟩ := exists_range_eq hk
  have hnodup : (List.range k ++ k :: rest).Nodup := hrange ▸ List.nodup_range
  obtain ⟨hout, hnodup⟩ := List.nodup_cons.1 hnodup.of_append_right
  rw [replaceFrameIndices, hrange, walkBlocks_append] at hok
  obtain ⟨_, m, hfirst, hrest⟩ := Lowering.of_bind hok
  obtain ⟨_, n, hblock, hothers⟩ := Lowering.of_bind hrest
  have hwalks := walksBlocks_walkBlocks hw List.nodup_range hfirst
  have hsame : m.lines k = p.lines k := by
    rw [Procedure.lines, Procedure.lines, hwalks.others k (by simp)]
  have hlast : q.lines k = n.lines k := by
    rw [Procedure.lines, Procedure.lines,
      (walksBlocks_walkBlocks hw hnodup hothers).others k hout]
  rw [walkBlock, hsame] at hblock
  cases hf : (t.walkLines m k 0 (p.lines k)).failure with
  | some f => simp [hf] at hblock
  | none =>
    simp only [hf] at hblock
    obtain ⟨-, rfl⟩ := EStateM.Result.ok.inj hblock
    refine ⟨m, hfirst, hwalks.fresh, hf, hlast.trans ?_⟩
    have hin : k < m.blocks.length := hwalks.length ▸ hk
    rw [Procedure.lines, Procedure.setPieces]
    simp only [Procedure.getElem?_setLines, if_true, List.getElem?_eq_getElem hin, Option.map_some]

/-- The walk comes to every line of a function that it gets through. -/
theorem exists_visit {before after : List Line} {l : Line} (hw : t.wide? = some w)
    (hok : t.replaceFrameIndices p = .ok () q) (hlines : p.lines k = before ++ l :: after) :
    ∃ v, t.Visits p k v ∧ v.before = before ∧ v.line = l ∧ v.after = after := by
  obtain ⟨m, hfirst, -, hthrough, -⟩ := exists_walkLines hw hok (lt_length_of_lines hlines)
  rw [hlines] at hthrough
  obtain ⟨spAdj, ps, hpast⟩ := exists_getsPast hthrough
  exact ⟨⟨m, before, l, after, ps, spAdj⟩, ⟨hfirst, hlines, hpast⟩, rfl, rfl, rfl⟩

/-- Only blocks before the line have changed when the walk comes to it. -/
theorem Visits.shape (h : t.Visits p k v) (hw : t.wide? = some w) :
    (∃ blocks fresh, v.function = { p with blocks, fresh }) ∧ v.function.lines k = p.lines k := by
  have hwalks := walksBlocks_walkBlocks hw List.nodup_range h.reached
  refine ⟨hwalks.shape, ?_⟩
  rw [Procedure.lines, Procedure.lines, hwalks.others k (by simp)]

/-- The walk counts the bytes of the call frames that are open at the line. -/
theorem Visits.spAdj_eq (h : t.Visits p k v) (hw : t.wide? = some w) :
    v.spAdj = t.openFrame p v.before := by
  obtain ⟨⟨blocks, fresh, hshape⟩, -⟩ := h.shape hw
  have hcount := (h.past.walks hw).spAdj_eq_openFrame hw
  rw [Int64.zero_add, hshape] at hcount
  exact hcount

/-- A marker that cannot be replaced stops the walk, and it stays with all that comes after it. -/
theorem Visits.replaceFrameIndices_of_error (h : t.Visits p k v) (hw : t.wide? = some w)
    (hop : v.line.inst.op.isMarker)
    (hfails : t.callFrame v.function k v.line.inst = .error f) :
    t.replaceFrameIndices p = .error f
      (v.function.setPieces k (v.pieces ++ (v.line :: v.after).map .line)) := by
  obtain ⟨rest, hrange⟩ := exists_range_eq (lt_length_of_lines h.lines)
  obtain ⟨-, hsame⟩ := h.shape hw
  have hwalk : t.walkLines v.function k 0 (v.function.lines k) =
      ⟨v.pieces ++ (v.line :: v.after).map .line, some f⟩ := by
    rw [hsame, h.lines, h.past.walkLines_eq, walkLines, if_pos hop, hfails]
    rfl
  have hstop : t.walkBlock k v.function = .error f
      (v.function.setPieces k (v.pieces ++ (v.line :: v.after).map .line)) := by
    rw [walkBlock, hwalk]
  rw [replaceFrameIndices, hrange, walkBlocks_append]
  simp only [bind, EStateM.bind, h.reached]
  show (t.walkBlock k >>= fun _ => t.walkBlocks rest) v.function = _
  simp only [bind, EStateM.bind, hstop]

/-- A marker that cannot be replaced leaves the function as it was. -/
theorem eq_of_callFrameAt_error {block place : Nat} (h : t.callFrameAt block place p = .error f q) :
    q = p := by
  rw [callFrameAt] at h
  split at h
  · exact (EStateM.Result.error.inj h).2.symm
  · split at h
    · exact (EStateM.Result.error.inj h).2.symm
    · cases h

end

/-- The walk tracks the stack pointer at a line that it comes to. -/
structure TracksStack (t : Target) (p : Procedure) (k : Nat) (v : Visit) : Prop where
  /-- The walk goes on with the bytes that it has counted. -/
  continues : t.walkLines v.function k 0 (p.lines k) =
    (t.walkLines v.function k v.spAdj (v.line :: v.after)).after v.pieces
  /-- It counts the call frames that are open, each rounded up to the stack's alignment. -/
  counted : v.spAdj = t.openFrame p v.before
  /-- If no marker is conditional, the updates emitted so far for the markers of the block take the
  stack pointer down by so many bytes, and do nothing else. -/
  moved : (∀ l ∈ v.before, l.inst.op.isMarker → l.inst.predicate.1 = Cond.al) → ∀ s s',
    ExecAll (stackUpdates v.pieces) s s' ↔ s' = s.write Reg.sp (s.sp - word v.spAdj)
  reserved : t.reservesCallFrame p → v.spAdj = 0 ∧ stackUpdates v.pieces = []
  /-- Markers in balance take it back to what it was at an earlier line. -/
  balanced : ∀ u ls, t.Visits p k u → v.before = u.before ++ ls →
    (setupSizes ls).Perm (destroySizes ls) → v.spAdj = u.spAdj
  balanced_start : (setupSizes v.before).Perm (destroySizes v.before) → v.spAdj = 0
  /-- A marker that cannot be replaced stays, with all lines after it. -/
  stopped : ∀ f, v.line.inst.op.isMarker → t.callFrame v.function k v.line.inst = .error f →
    t.replaceFrameIndices p = .error f
      (v.function.setPieces k (v.pieces ++ (v.line :: v.after).map .line))

/-- What the walk tracks is what the code does, at every line that the walk comes to; and a marker
that cannot be replaced leaves the function as it was. -/
theorem tracksStack_of_visits {t : Target} {p : Procedure} {k : Nat} {v : Visit}
    (hwide : t.abi.thumb1Only = false) (h : t.Visits p k v) :
    t.TracksStack p k v ∧
      ∀ block place f q r, t.callFrameAt block place r = .error f q → q = r := by
  obtain ⟨w, hw⟩ := exists_wide hwide
  have hwalks := h.past.walks hw
  have hcount := h.spAdj_eq hw
  refine ⟨⟨?_, hcount, ?_, ?_, ?_, ?_, ?_⟩, ?_⟩
  · rw [h.lines]
    exact h.past.walkLines_eq
  · intro halways s s'
    rw [hwalks.execAll_stackUpdates hw halways, Int64.sub_zero]
  · intro hreserves
    obtain ⟨⟨blocks, fresh, hshape⟩, -⟩ := h.shape hw
    refine hwalks.of_reserves hw ?_
    rw [hshape]
    exact hreserves
  · intro u ls hu hsplit hbalanced
    rw [hcount, hsplit, openFrame_append, openFrame_of_balanced hbalanced, Int64.add_zero,
      hu.spAdj_eq hw]
  · intro hbalanced
    rw [hcount, openFrame_of_balanced hbalanced]
  · intro f hop hfails
    exact h.replaceFrameIndices_of_error hw hop hfails
  · intro block place f q r herror
    exact eq_of_callFrameAt_error herror

/-- A function that stores to an object in an open call frame, after it has opened and closed
another. -/
def storesInCall : Procedure where
  name := "f"
  blocks := [{ lines := Line.number 0 [
    .make .callFrameDown [.imm 4999, .cond .al, .use .noreg],
    .make .callFrameDown [.imm 12, .cond .al, .use .noreg],
    .make .callFrameUp [.imm 12, .imm 0, .cond .al, .use .noreg],
    .make .str [.use (.core 0), .frameIndex 0, .use .noreg, .imm 0, .cond .al, .use .noreg],
    .make .bxRet [.cond .al, .use .noreg]] }]
  frame := {
    objects := [{ size := 4, align := 4, offset := -4 }]
    stackSize := 4
    maxCallFrameSize := 5012 }
  fresh := 5

theorem tracksStack_of_visits_storesInCall : ∃ v, plainDefault.Visits storesInCall 0 v ∧
    v.line.inst.op = .str ∧ plainDefault.TracksStack storesInCall 0 v ∧ v.spAdj = 5000 ∧ ∀ s s',
      ExecAll (stackUpdates v.pieces) s s' ↔ s' = s.write Reg.sp (s.sp - 5000) := by
  have hok : ∃ q, plainDefault.replaceFrameIndices storesInCall = .ok () q := ⟨_, rfl⟩
  obtain ⟨q, hok⟩ := hok
  have hlines : storesInCall.lines 0 = (storesInCall.lines 0).take 3 ++
      ⟨3, .make .str
        [.use (.core 0), .frameIndex 0, .use .noreg, .imm 0, .cond .al, .use .noreg]⟩ ::
        [⟨4, .make .bxRet [.cond .al, .use .noreg]⟩] := rfl
  have hwide : plainDefault.wide? = some .arm := rfl
  obtain ⟨v, hv, hbefore, hline, -⟩ := exists_visit hwide hok hlines
  obtain ⟨htracks, -⟩ := tracksStack_of_visits rfl hv
  have hcount : v.spAdj = 5000 := by
    rw [htracks.counted, hbefore]
    decide
  refine ⟨v, hv, by rw [hline]; rfl, htracks, hcount, ?_⟩
  have halways : ∀ l ∈ v.before, l.inst.op.isMarker → l.inst.predicate.1 = Cond.al := by
    rw [hbefore]
    decide
  intro s s'
  rw [htracks.moved halways, hcount]
  rfl

end Target

end FrameLowering
