import FrameLowering.Proofs.InsertedLines
import FrameLowering.Proofs.ScratchLiveness

/-!
# What lowering leaves over

A function is lowered only if no frame index is left in it. An instruction loses one frame
index when an offset is folded into it, so each of its frame indices was looked up on the way
(`Walks.object`). What they name is an object that was there before, or a slot that lowering has
made: the objects that there were are the only ones up to those slots
(`object?_cases_of_planned`).
-/

namespace FrameLowering

theorem Procedure.inst_mem_insts (p : Procedure) {k : Nat} {l : Line} (hl : l ∈ p.lines k) :
    l.inst ∈ p.insts := by
  rw [lines] at hl
  split at hl
  · next b hb => exact List.mem_flatMap.2 ⟨b, List.mem_of_getElem? hb, List.mem_map_of_mem hl⟩
  · exact absurd hl List.not_mem_nil

/-! ## Verification -/

namespace Procedure

theorem verifyInsts_eq_ok_iff {name : String} {es : List (Nat × Inst)} :
    verifyInsts name es = .ok () ↔ ∀ e ∈ es, e.2.leftover? = none := by
  induction es with
  | nil => simp [verifyInsts]
  | cons e es ih =>
    obtain ⟨k, i⟩ := e
    rw [verifyInsts, List.forall_mem_cons]
    cases hleft : i.leftover? with
    | none => simpa using ih
    | some cause => simp

theorem verify_eq_ok_iff {p : Procedure} : p.verify = .ok () ↔
    ∀ (k : Nat) (b : Block), p.blocks[k]? = some b → ∀ l ∈ b.lines, l.inst.leftover? = none := by
  rw [verify, verifyInsts_eq_ok_iff]
  constructor
  · intro h k b hb l hl
    refine h (k, l.inst) (List.mem_flatMap.2 ⟨(b, k), ?_, ?_⟩)
    · exact List.mk_mem_zipIdx_iff_getElem?.2 hb
    · exact List.mem_map.2 ⟨l.inst, List.mem_map_of_mem hl, rfl⟩
  · intro h e he
    obtain ⟨⟨b, k⟩, hb, he⟩ := List.mem_flatMap.1 he
    obtain ⟨i, hi, rfl⟩ := List.mem_map.1 he
    obtain ⟨l, hl, rfl⟩ := List.mem_map.1 hi
    exact h k b (List.mk_mem_zipIdx_iff_getElem?.1 hb) l hl

end Procedure

/-! ## Frame indices of an instruction -/

namespace Operand

section
variable {os : List Operand} {place : Nat} {o : Operand}

theorem countP_set_add (test : Operand → Bool) (h : os[place]? = some o) (x : Operand) :
    (os.set place x).countP test + (test o).toNat = os.countP test + (test x).toNat := by
  obtain ⟨hlt, rfl⟩ := List.getElem?_eq_some_iff.1 h
  rw [(List.set_perm_cons_eraseIdx hlt x).countP_eq,
    ← (List.getElem_cons_eraseIdx_perm hlt).countP_eq, List.countP_cons, List.countP_cons]
  cases test x <;> cases test os[place] <;> simp

theorem countP_eraseIdx_add (test : Operand → Bool) (h : os[place]? = some o) :
    (os.eraseIdx place).countP test + (test o).toNat = os.countP test := by
  obtain ⟨hlt, rfl⟩ := List.getElem?_eq_some_iff.1 h
  rw [← (List.getElem_cons_eraseIdx_perm hlt).countP_eq, List.countP_cons]
  cases test os[place] <;> rfl

end

end Operand

namespace Inst

/-- Number of frame indices among the operands. -/
def indexCount (i : Inst) : Nat :=
  i.operands.countP Operand.isFrameIndex

theorem indexCount_of_leftover? {i : Inst} (h : i.leftover? = none) : i.indexCount = 0 := by
  rw [leftover?] at h
  split at h
  · cases h
  cases hfind : i.operands.find? Operand.isFrameIndex with
  | some o => simp [hfind] at h
  | none =>
    rw [indexCount, List.countP_eq_zero]
    exact List.find?_eq_none.1 hfind

/-- With one frame index in a known place there is no other. -/
theorem eq_of_indexCount {i : Inst} {place : Nat} {index index' : Int64} (hcount : i.indexCount = 1)
    (hplace : i.operands[place]? = some (.frameIndex index))
    (hmem : .frameIndex index' ∈ i.operands) : index' = index := by
  have herase := (Operand.countP_eraseIdx_add Operand.isFrameIndex hplace).trans hcount
  have hnone := List.countP_eq_zero.1 (Nat.succ.inj herase)
  obtain ⟨hlt, heq⟩ := List.getElem?_eq_some_iff.1 hplace
  rcases List.mem_cons.1 ((List.getElem_cons_eraseIdx_perm hlt).mem_iff.2 hmem) with h | h
  · rw [heq] at h
    exact Operand.frameIndex.inj h
  · exact absurd rfl (hnone _ h)

end Inst

namespace Target

section
variable {t : Target} {w : WideSet} {p : Procedure} {block place : Nat} {i i' : Inst} {a : Address}
  {index rest spAdj spAdj' : Int64} {e : Expansion}

/-- An instruction with an offset folded in has the base in the place of a frame index. -/
theorem indexCount_fold (hplace : i.operands[place]? = some (.frameIndex index))
    (h : t.fold w i place a = ⟨i', .ok rest⟩) :
    i'.operands[place]? = some (.use a.base) ∧ i'.indexCount + 1 = i.indexCount := by
  obtain ⟨hlt, -⟩ := List.getElem?_eq_some_iff.1 hplace
  have hbased : (i.operands.set place (.use a.base))[place]? = some (.use a.base) :=
    List.getElem?_set_self hlt
  have hcount : (i.operands.set place (.use a.base)).countP Operand.isFrameIndex + 1 =
      i.indexCount := Operand.countP_set_add Operand.isFrameIndex hplace (.use a.base)
  -- the immediate, which is next to change, is in another place
  have himm {n : Nat} {v : Int64} (hv : i.operands[n]? = some (.imm v)) :
      n ≠ place ∧ (i.operands.set place (.use a.base))[n]? = some (.imm v) := by
    have hne : n ≠ place := by
      rintro rfl
      rw [hplace] at hv
      cases hv
    exact ⟨hne, (List.getElem?_set_ne (Ne.symm hne)).trans hv⟩
  have hwith {n : Nat} {v : Int64} (op : Opcode) (v' : Int64)
      (hv : i.operands[n]? = some (.imm v)) :
      (i.withOffset op place n a.base v').operands[place]? = some (.use a.base) ∧
        (i.withOffset op place n a.base v').indexCount + 1 = i.indexCount := by
    obtain ⟨hne, hv⟩ := himm hv
    refine ⟨(List.getElem?_set_ne hne).trans hbased, ?_⟩
    have hset := Operand.countP_set_add Operand.isFrameIndex hv (.imm v')
    exact (congrArg (· + 1) hset).trans hcount
  rw [fold] at h
  split at h
  · next hop =>
    obtain ⟨v, hv, ⟨rfl, -⟩ | ⟨negative, m, rfl, -⟩⟩ := WideSet.foldAdd_cases hop h
    · have herase := Operand.countP_eraseIdx_add Operand.isFrameIndex (himm hv).2
      constructor
      · rw [List.getElem?_eraseIdx, if_pos (Nat.lt_succ_self place)]
        exact hbased
      · exact (congrArg (· + 1) herase).trans hcount
    · exact hwith _ m hv
  · obtain ⟨-, k, v, -, hv, ⟨-, rfl, -⟩ | ⟨op, v', rfl, -⟩⟩ := Inst.foldMemory_cases h
    · exact ⟨hbased, hcount⟩
    · exact hwith op v' hv

theorem operand_of_rebase {r : Rebased} (hr : t.rebase w p block i spAdj = .ok r) :
    r.inst.operands[r.place]? = some (.use r.base) := by
  obtain ⟨_, _, _, -, hindex, -, -, hbase, hfold, -⟩ := rebase_cases hr
  rw [← hbase]
  exact (indexCount_fold hindex hfold).1

theorem operand_of_through {r : Rebased} {scratch : Reg} (hr : t.rebase w p block i spAdj = .ok r) :
    (r.through scratch).operands[r.place]? = some (.reg scratch false true) :=
  List.getElem?_set_self (List.getElem?_eq_some_iff.1 (operand_of_rebase hr)).1

/-- What stands for an instruction itself in its expansion. -/
theorem Expands.inst_cases (h : Expands t w p block i spAdj e) :
    ∃ r, t.rebase w p block i spAdj = .ok r ∧
      (e.inst = r.inst ∨ ∃ scratch, e.inst = r.through scratch) := by
  cases h with
  | direct h =>
    cases h with
    | alone hr => exact ⟨_, hr, .inl rfl⟩
    | through hr => exact ⟨_, hr, .inr ⟨_, rfl⟩⟩
  | borrowed hr => exact ⟨_, hr, .inr ⟨_, rfl⟩⟩

/-- The frame index that an expansion does away with names an object, and any others stay. -/
theorem Expands.indexCount (h : Expands t w p block i spAdj e) :
    e.inst.indexCount + 1 = i.indexCount ∧ ∃ (place : Nat) (index : Int64),
      i.operands[place]? = some (.frameIndex index) ∧ ∃ o, p.frame.object? index = some o := by
  obtain ⟨r, hr, hinst⟩ := h.inst_cases
  obtain ⟨index, o, a, -, hplace, ho, -, -, hfold, -⟩ := rebase_cases hr
  obtain ⟨hbase, hcount⟩ := indexCount_fold hplace hfold
  refine ⟨?_, _, index, hplace, o, ho⟩
  rcases hinst with hinst | ⟨scratch, hinst⟩
  · rw [hinst, hcount]
  · have hset := Operand.countP_set_add Operand.isFrameIndex hbase (.reg scratch false true)
    rw [hinst, ← hcount]
    exact congrArg (· + 1) hset

/-- A walk that leaves no frame index over has found an object for each. -/
theorem Walks.object {ls : List Line} {ps : List Piece} {l : Line}
    (h : Walks t w p block spAdj ls spAdj' ps) (hclean : ∀ q ∈ ps, q.inst.indexCount = 0)
    (hl : l ∈ ls) (hmarker : l.inst.op.isMarker = false)
    (hindex : .frameIndex index ∈ l.inst.operands) : ∃ o, p.frame.object? index = some o := by
  induction h with
  | nil => exact absurd hl List.not_mem_nil
  | marker hop _ _ ih =>
    rcases List.mem_cons.1 hl with rfl | hl
    · exact absurd hop (Bool.eq_false_iff.1 hmarker)
    · exact ih (fun q hq => hclean q (List.mem_append_right _ hq)) hl
  | plain _ hplace _ ih =>
    rcases List.mem_cons.1 hl with rfl | hl
    · exact absurd rfl (List.findIdx?_eq_none_iff.1 hplace _ hindex ▸ Bool.false_ne_true)
    · exact ih (fun q hq => hclean q (List.mem_cons_of_mem _ hq)) hl
  | @expand _ _ l' _ e _ _ he _ ih =>
    rcases List.mem_cons.1 hl with rfl | hl
    · obtain ⟨hcount, place, index', hplace, o, ho⟩ := he.indexCount
      -- nothing is left of the instruction's frame indices, so there was just the one
      have hzero : e.inst.indexCount = 0 := by
        refine hclean (.line { l with inst := e.inst }) (List.mem_append_left _ ?_)
        exact List.mem_append_right _ List.mem_cons_self
      rw [hzero] at hcount
      obtain rfl := Inst.eq_of_indexCount hcount.symm hplace hindex
      exact ⟨o, ho⟩
    · exact ih (fun q hq => hclean q (List.mem_append_right _ hq)) hl

end

/-! ## Objects of the final frame -/

/-- The function with its frame laid out, before any code is inserted. -/
def planned (t : Target) (p : Procedure) : Procedure :=
  t.placeFrame (t.assignSlots (t.finalizeSpillSet t.config.scavenging (t.decidePointer p.markUsed)))

section
variable {t : Target} {p : Procedure}

theorem spillForFarJump_shape (s : SpillPlan) :
    ∃ regs layout, spillForFarJump s = { s.proc with regs, layout } := by
  rw [spillForFarJump]
  split
  · exact ⟨_, _, rfl⟩
  · exact ⟨_, _, rfl⟩

/-- A frame with a slot for scavenging. -/
def withScavenging (f : Frame) : Frame :=
  { f with
    objects := f.objects ++ [scavengingSlot]
    scavengingIndex := Int64.ofNat f.objects.length }

/-- The stages of the choice spill more and more registers; the last one may add an object. -/
theorem shape_of_plan {s : SpillPlan} {layout : Layout} (scavenger : Bool)
    (hproc : s.proc = { p with layout }) :
    ∃ regs layout frame, spillForFarJump (t.planHeadroom p scavenger
        (t.planAlignment p (t.planPointer p (t.planLink p s)))) = { p with regs, layout, frame } ∧
      (frame = p.frame ∨ frame = withScavenging p.frame) := by
  obtain ⟨-, q, hroom, hq⟩ := planHeadroom_facts t p
    (t.planAlignment p (t.planPointer p (t.planLink p s))) scavenger
  obtain ⟨regs, spilled, rfl, -⟩ := (((planLink_facts t p s).1.trans
    (planPointer_facts t p _).1).trans (planAlignment_facts t p _).1).trans hroom
  obtain ⟨regs', layout', hfar⟩ := spillForFarJump_shape
    (t.planHeadroom p scavenger (t.planAlignment p (t.planPointer p (t.planLink p s))))
  rw [hfar]
  rcases hq with hq | hq
  · rw [hq, hproc]
    exact ⟨_, _, _, rfl, .inl rfl⟩
  · rw [hq, hproc]
    exact ⟨_, _, _, rfl, .inr rfl⟩

/-- The choice of the spill set adds one object at most. -/
theorem finalizeSpillSet_shape (t : Target) (scavenger : Bool) (p : Procedure) :
    ∃ regs layout frame, t.finalizeSpillSet scavenger p = { p with regs, layout, frame } ∧
      (frame = p.frame ∨ frame = withScavenging p.frame) := by
  rw [finalizeSpillSet]
  split
  · exact shape_of_plan scavenger rfl
  · obtain ⟨regs, layout, hfar⟩ := spillForFarJump_shape (t.startPlan p)
    exact ⟨regs, layout, _, hfar, .inl rfl⟩

/-- Of the frame, it changes the objects and the scavenging slot only. -/
theorem frame_finalizeSpillSet (t : Target) (scavenger : Bool) (p : Procedure) :
    ∃ objects scavengingIndex, (t.finalizeSpillSet scavenger p).frame =
      { p.frame with objects, scavengingIndex } := by
  obtain ⟨regs, layout, frame, hchosen, hframe⟩ := t.finalizeSpillSet_shape scavenger p
  rw [hchosen]
  rcases hframe with rfl | rfl
  · exact ⟨_, _, rfl⟩
  · exact ⟨_, _, rfl⟩

/-- The objects when the slots have been added to them. -/
theorem mem_objects_assignSlots {scavenger : Bool} {o : FrameObject}
    (ho : o ∈ (t.assignSlots (t.finalizeSpillSet scavenger p)).frame.objects) :
    o ∈ p.frame.objects ∨ o = scavengingSlot ∨ ∃ cs, o = t.slotFor cs := by
  obtain ⟨regs, layout, frame, hchosen, hframe⟩ := t.finalizeSpillSet_shape scavenger p
  rw [hchosen] at ho
  rcases List.mem_append.1 ho with ho | ho
  · rcases hframe with rfl | rfl
    · exact .inl ho
    · exact (List.mem_append.1 ho).imp_right fun ho => .inl (List.mem_singleton.1 ho)
  · obtain ⟨cs, -, rfl⟩ := List.mem_map.1 ho
    exact .inr (.inr ⟨cs, rfl⟩)

/-- What holds of the objects of a function and of all slots holds of the objects when the slots
have been added to them. -/
theorem forall_object_finalizeSpillSet {P : FrameObject → Prop}
    (hobjects : ∀ o ∈ p.frame.objects, P o) (hfixed : ∀ o ∈ p.frame.fixed, P o)
    (hscavenging : P scavengingSlot) (hslots : ∀ cs, P (t.slotFor cs)) {scavenger : Bool}
    {j : Int64} {o : FrameObject}
    (ho : (t.assignSlots (t.finalizeSpillSet scavenger p)).frame.object? j = some o) : P o := by
  rcases Frame.mem_of_object? ho with ho | ho
  · rcases mem_objects_assignSlots ho with ho | rfl | ⟨cs, rfl⟩
    · exact hobjects o ho
    · exact hscavenging
    · exact hslots cs
  · obtain ⟨objects, scavengingIndex, hframe⟩ := t.frame_finalizeSpillSet scavenger p
    rw [assignSlots_frame, hframe] at ho
    exact hfixed o ho

theorem forall_object_assignSlots {P : FrameObject → Prop} (hobjects : ∀ o ∈ p.frame.objects, P o)
    (hfixed : ∀ o ∈ p.frame.fixed, P o) (hscavenging : P scavengingSlot)
    (hslots : ∀ cs, P (t.slotFor cs)) {scavenger : Bool} {j : Int64} {o : FrameObject}
    (ho : (t.assignSlots (t.finalizeSpillSet scavenger (t.decidePointer p.markUsed))).frame.object? j =
      some o) : P o :=
  forall_object_finalizeSpillSet (p := t.decidePointer p.markUsed) hobjects hfixed hscavenging hslots ho

theorem saved_planned (t : Target) (p : Procedure) : (t.planned p).frame.saved =
    t.savedSlots (t.finalizeSpillSet t.config.scavenging (t.decidePointer p.markUsed)) := by
  rw [planned, saved_placeFrame]

/-- An index with its position in a list of objects that got longer. -/
theorem object?_append {f : Frame} {objects : List FrameObject} {index : Int64} {o : FrameObject}
    (h : ({ f with objects := f.objects ++ objects } : Frame).object? index = some o) :
    f.object? index = some o ∨ ∃ n, index = Int64.ofNat (f.objects.length + n) ∧
      objects[n]? = some o := by
  rw [Frame.object?] at h
  split at h
  · next hindex =>
    rw [List.getElem?_append] at h
    split at h
    · rw [Frame.object?, if_pos hindex]
      exact .inl h
    · next hlt =>
      refine .inr ⟨_, ?_, h⟩
      have hnonneg : 0 ≤ index.toInt := Int64.le_iff_toInt_le.1 hindex
      have hpos : Frame.position index = index.toInt.toNat := if_pos hindex
      rw [Nat.add_sub_cancel' (Nat.not_lt.1 hlt), hpos]
      apply Int64.toInt_inj.1
      have := index.toInt_lt
      rw [Int64.toInt_ofNat_of_lt (by omega), Int.toNat_of_nonneg hnonneg]
  · next hindex =>
    rw [Frame.object?, if_neg hindex]
    exact .inl h

theorem object?_cases_of_finalizeSpillSet (t : Target) (scavenger : Bool) (p : Procedure) :
    (p.frame.objects.length ≤ (t.finalizeSpillSet scavenger p).frame.objects.length ∧
      (t.finalizeSpillSet scavenger p).frame.objects.length ≤ p.frame.objects.length + 1) ∧
      ∀ index o, (t.finalizeSpillSet scavenger p).frame.object? index = some o →
        p.frame.object? index = some o ∨ index = Int64.ofNat p.frame.objects.length ∧
          index = (t.finalizeSpillSet scavenger p).frame.scavengingIndex := by
  obtain ⟨regs, layout, frame, hchosen, hframe⟩ := t.finalizeSpillSet_shape scavenger p
  rw [hchosen]
  rcases hframe with rfl | rfl
  · exact ⟨⟨Nat.le_refl _, Nat.le_succ _⟩, fun _ _ h => .inl h⟩
  · refine ⟨⟨?_, ?_⟩, fun index o h => ?_⟩
    · exact List.length_append ▸ Nat.le_add_right _ _
    · exact List.length_append ▸ Nat.le_refl _
    · rcases object?_append h with h | ⟨n, hindex, hslot⟩
      · exact .inl h
      · have hn := (List.getElem?_eq_some_iff.1 hslot).1
        obtain rfl : n = 0 := Nat.lt_one_iff.1 hn
        exact .inr ⟨hindex, hindex⟩

/-- A frame index of the final frame is one of the function, or one that lowering has given to
a slot. -/
theorem object?_cases_of_planned {index : Int64} {o : FrameObject}
    (h : (t.planned p).frame.object? index = some o) :
    (∃ o, p.frame.object? index = some o) ∨
      (∃ n, index = Int64.ofNat n ∧ p.frame.objects.length ≤ n ∧
        n < p.frame.objects.length + 27) ∧
        (index ∈ (t.planned p).frame.saved.map SavedSlot.index ∨
          index = (t.planned p).frame.scavengingIndex) := by
  rw [saved_planned]
  rw [planned] at h ⊢
  obtain ⟨hlen, hchosen⟩ := object?_cases_of_finalizeSpillSet t t.config.scavenging
    (t.decidePointer p.markUsed)
  generalize t.finalizeSpillSet t.config.scavenging (t.decidePointer p.markUsed) = c
    at h hlen hchosen ⊢
  -- the objects are elsewhere now, but there are as many as before
  obtain ⟨q, hq, -⟩ := (t.moves_placeObjects (t.assignSlots c)).object h
  have hscavenging : (t.placeFrame (t.assignSlots c)).frame.scavengingIndex =
      c.frame.scavengingIndex := by
    obtain ⟨_, _, _, hplaced⟩ := t.placeFrame_frame (t.assignSlots c)
    rw [hplaced]
    rfl
  rw [hscavenging]
  change p.frame.objects.length ≤ _ ∧ _ ≤ p.frame.objects.length + 1 at hlen
  rcases object?_append hq with hq | ⟨n, hindex, hslot⟩
  · rcases hchosen index q hq with hold | ⟨hindex, hnew⟩
    · exact .inl ⟨q, hold⟩
    · exact .inr ⟨⟨_, hindex, Nat.le_refl _, Nat.lt_add_of_pos_right (by decide)⟩, .inr hnew⟩
  · -- the slots of saved registers come after the objects
    rw [List.getElem?_map, Option.map_eq_some_iff] at hslot
    obtain ⟨cs, hcs, -⟩ := hslot
    have hmem : index ∈ (t.savedSlots c).map SavedSlot.index := by
      rw [hindex]
      exact List.mem_map.2 ⟨_, List.mem_map.2 ⟨(cs, n), List.mk_mem_zipIdx_iff_getElem?.2 hcs, rfl⟩,
        rfl⟩
    have hfew := length_savedSlots_le (t := t) (p := c)
    rw [savedSlots, List.length_map, List.length_zipIdx] at hfew
    have hn := (List.getElem?_eq_some_iff.1 hcs).1
    exact .inr ⟨⟨_, hindex, by omega, by omega⟩, .inl hmem⟩

theorem blocks_planned (t : Target) (p : Procedure) : (t.planned p).blocks = p.blocks := by
  obtain ⟨regs, layout, frame, hchosen, -⟩ :=
    t.finalizeSpillSet_shape t.config.scavenging (t.decidePointer p.markUsed)
  rw [planned, hchosen]
  rfl

end

/-- A frame index in a function that was lowered, markers apart, names an object of the
function, or one of at most 27 slots after them that lowering has made: for a saved register or
for scavenging. Any other index is rejected. -/
theorem frameIndex_cases_of_lower {t : Target} {p : Procedure} {i : Inst} {index : Int64}
    (hok : (t.lower p).failure = none) (hi : i ∈ p.insts) (hmarker : i.op.isMarker = false)
    (hindex : .frameIndex index ∈ i.operands) :
    (∃ o, p.frame.object? index = some o) ∨
      (∃ n, index = Int64.ofNat n ∧ p.frame.objects.length ≤ n ∧
        n < p.frame.objects.length + 27) ∧
        (index ∈ (t.lower p).proc.frame.saved.map SavedSlot.index ∨
          index = (t.lower p).proc.frame.scavengingIndex) := by
  obtain ⟨hthumb, -, hverified, g, hlayout, hinsert⟩ := lower_cases hok
  have hverify := Procedure.verify_eq_ok_iff.1 hverified
  generalize (t.lower p).proc = q at hverify hinsert ⊢
  obtain ⟨w, hw⟩ := exists_wide hthumb
  obtain ⟨m, hgrown, ⟨blocks, fresh, offsetAdjustment, rfl⟩, hwalks⟩ :=
    exists_grows_of_insertFrame (c := t.planned p) hw hlayout hinsert
  obtain ⟨blocks', fresh', rfl⟩ := hwalks.shape
  -- the instruction is in a block that the walk goes through
  obtain ⟨b, hb, hi⟩ := List.mem_flatMap.1 hi
  obtain ⟨l, hl, rfl⟩ := List.mem_map.1 hi
  obtain ⟨k, hk⟩ := List.getElem?_of_mem hb
  have hline : l ∈ (t.planned p).lines k := by
    rw [Procedure.lines, blocks_planned, hk]
    exact hl
  have hline := (hgrown.lines k).mem hline
  rw [Procedure.lines] at hline
  split at hline
  · next b' hb' =>
    have hin := List.mem_range.2 (List.getElem?_eq_some_iff.1 hb').1
    obtain ⟨n, spAdj, ps, -, hwalk, hblock⟩ := hwalks.walks k hin b' hb'
    -- and its pieces are all verified
    have hclean : ∀ x ∈ ps, x.inst.indexCount = 0 := by
      intro x hx
      have hinst : x.inst ∈ (Piece.number n ps).1.map Line.inst := by
        rw [Piece.map_inst_number]
        exact List.mem_map_of_mem hx
      obtain ⟨l', hl', heq⟩ := List.mem_map.1 hinst
      rw [← heq]
      exact Inst.indexCount_of_leftover? (hverify k _ hblock l' hl')
    obtain ⟨o, ho⟩ := hwalk.object hclean hline hmarker hindex
    exact object?_cases_of_planned (o := o) ho
  · exact absurd hline List.not_mem_nil

/-- Markers are taken away with whatever they name. -/
example : (plainDefault.lower {
    name := "f"
    blocks := [{ lines := [
      ⟨0, .make .callFrameDown [.imm 0, .frameIndex 7, .use .noreg]⟩,
      ⟨1, .make .bxRet [.cond .al, .use .noreg]⟩] }] }).failure = none := by
  decide +kernel

/-- A function that saves `r4`, and stores to an object that it does not have. -/
def storesPastObjects : Procedure where
  name := "f"
  blocks := [{
    lines := [
      ⟨0, .make .movr [.use (.core 4), .use (.core 0), .cond .al, .use .noreg]⟩,
      ⟨1, .make .str [.use (.core 0), .frameIndex 0, .use .noreg, .imm 0, .cond .al, .use .noreg]⟩,
      ⟨2, .make .bxRet [.cond .al, .use .noreg]⟩] }]
  fresh := 3

/-- Lowering resolves that index to the slot of a saved register. -/
theorem lower_storesPastObjects :
    storesPastObjects.frame.object? 0 = none ∧
      .make .str [.use (.core 0), .frameIndex 0, .use .noreg, .imm 0, .cond .al, .use .noreg] ∈
        storesPastObjects.insts ∧
      (plainDefault.lower storesPastObjects).failure = none ∧
      0 ∈ (plainDefault.lower storesPastObjects).proc.frame.saved.map SavedSlot.index := by
  decide +kernel

theorem frameIndex_cases_of_lower_storesPastObjects :
    (plainDefault.lower storesPastObjects).failure = none ∧
      ((∃ o, storesPastObjects.frame.object? 0 = some o) ∨
        (∃ n, 0 = Int64.ofNat n ∧ storesPastObjects.frame.objects.length ≤ n ∧
          n < storesPastObjects.frame.objects.length + 27) ∧
          (0 ∈ (plainDefault.lower storesPastObjects).proc.frame.saved.map SavedSlot.index ∨
            0 = (plainDefault.lower storesPastObjects).proc.frame.scavengingIndex)) := by
  have hok : (plainDefault.lower storesPastObjects).failure = none := by decide +kernel
  exact ⟨hok, frameIndex_cases_of_lower (i := .make .str
    [.use (.core 0), .frameIndex 0, .use .noreg, .imm 0, .cond .al, .use .noreg]) hok
    (by decide) (by decide) (by decide)⟩

end Target

end FrameLowering
