import FrameLowering.Proofs.FrameExecution

/-!
# The frame of a lowered function

The stages of `Target.lower`, one after another. What is decided before any code is inserted
is `Target.Plans`; what there is in the end is `Target.Lowers`: a frame that fits together, and
in each block a walk through its old lines between prologue and epilogue.
-/

namespace FrameLowering

/-- A function about whose frame nothing is decided, whatever its blocks are. -/
@[mk_iff]
structure Procedure.IsUnframed (p : Procedure) : Prop where
  layout : p.layout = {}
  unscavenged : p.frame.scavengingIndex = noIndex
  /-- Frame indices are below `2 ^ 31` in magnitude. -/
  few : p.frame.objects.length + 1 < 2 ^ 31 ∧ p.frame.fixed.length < 2 ^ 31
  fixed : ∀ o ∈ p.frame.fixed, 0 ≤ o.offset
  indices : ∀ b ∈ p.blocks, ∀ l ∈ b.lines, ∀ index, .frameIndex index ∈ l.inst.operands →
    ∃ o, p.frame.object? index = some o

/-- A function as it is built, wherever it returns. -/
@[mk_iff]
structure Procedure.IsFresh (p : Procedure) : Prop extends p.IsUnframed where
  unsaved : p.frame.saved = []
  old : ∀ b ∈ p.blocks, ∀ l ∈ b.lines, l.label < p.fresh
  unique : ((p.blocks.flatMap Block.lines).map Line.label).Nodup
  markers : ∀ b ∈ p.blocks, ∀ l ∈ b.lines, l.inst.op.isMarker → l.inst.predicate.1 = Cond.al
  balanced : ∀ b ∈ p.blocks, (Target.setupSizes b.lines).Perm (Target.destroySizes b.lines)
  entry : ∀ b ∈ p.blocks, 0 ∉ b.successors

/-- A function as it is built, before anything is decided about its frame. It returns only at the
end of blocks, and always. -/
@[mk_iff]
structure Procedure.IsBuilt (p : Procedure) : Prop extends p.IsFresh where
  returns : ∀ b ∈ p.blocks, ∀ l ∈ b.lines, l.inst.isReturn → l.inst.predicate.1 = Cond.al
  last : ∀ b ∈ p.blocks, ∀ l ∈ b.lines.dropLast, l.inst.isReturn = false

theorem Operand.forall_frameIndex_iff {os : List Operand} {P : Int64 → Prop} :
    (∀ o ∈ os, o.isFrameIndex → P o.value) ↔ ∀ index, .frameIndex index ∈ os → P index := by
  constructor
  · intro h index hindex
    exact h _ hindex rfl
  · intro h o ho hindex
    cases o with
    | frameIndex index => exact h index ho
    | _ => cases hindex

instance (f : Frame) (os : List Operand) :
    Decidable (∀ index, .frameIndex index ∈ os → ∃ o, f.object? index = some o) :=
  decidable_of_iff (∀ o ∈ os, o.isFrameIndex → (f.object? o.value).isSome) <| by
    simp only [← Option.isSome_iff_exists]
    exact Operand.forall_frameIndex_iff (P := fun index => (f.object? index).isSome)

instance : DecidablePred Procedure.IsUnframed :=
  fun p => decidable_of_iff _ (Procedure.isUnframed_iff p).symm

instance : DecidablePred Procedure.IsFresh :=
  fun p => decidable_of_iff _ (Procedure.isFresh_iff p).symm

instance : DecidablePred Procedure.IsBuilt :=
  fun p => decidable_of_iff _ (Procedure.isBuilt_iff p).symm

theorem Frame.mem_of_object? {f : Frame} {j : Int64} {o : FrameObject} (h : f.object? j = some o) :
    o ∈ f.objects ∨ o ∈ f.fixed := by
  rw [object?] at h
  split at h
  · exact .inl (List.mem_of_getElem? h)
  · exact .inr (List.mem_of_getElem? h)

namespace Target

/-- What is decided about the frame of `p` before any code is inserted. -/
structure Plans (t : Target) (p q : Procedure) : Prop where
  name : q.name = p.name
  blocks : q.blocks = p.blocks
  fresh : q.fresh = p.fresh
  areas : q.layout.areas = []
  row : t.IsSavedRow q.frame.saved
  order : q.frame.saved.map SavedSlot.reg = (t.spilledSaved q).map CalleeSaved.reg
  tiles : q.frame.Tiles 0 q.frame.saved
  indices : (q.frame.saved.map SavedSlot.index).Nodup
  bare : q.layout.hasStackFrame = false → q.frame.saved = []
  spilled : ∀ cs ∈ t.calleeSaved, q.layout.isSpilled cs.reg ↔ ∃ σ ∈ q.frame.saved, σ.reg = cs.reg
  used : ∀ i ∈ p.insts, t.Spares q [] i.reach
  register : q.layout.framePointer = t.framePointer
  decided : t.hasPointer q = t.hasPointer p
  framed : t.hasPointer q → q.layout.hasStackFrame
  pointer : q.layout.hasStackFrame → t.setsPointer q → q.layout.isSpilled t.framePointer
  scavenging : q.frame.scavengingIndex ∉ q.frame.saved.map SavedSlot.index
  kept : ∀ j o, p.frame.object? j = some o → j ∉ q.frame.saved.map SavedSlot.index
  apart : (∀ o ∈ p.frame.objects, o.IsModerate) →
    (¬ t.hasPointer p → ∀ j o, q.frame.object? j = some o → -2 ^ 32 ≤ o.offset.toInt) →
    ∀ entry, t.HasSlots q entry

section
variable {t : Target} {p q : Procedure}

/-- The frame pointer is decided once. -/
theorem hasPointer_decidePointer (hlayout : p.layout = {}) :
    t.hasPointer (t.decidePointer p.markUsed) = t.hasPointer p := by
  obtain ⟨n, hn⟩ := t.framePointer_core
  have hne : (t.decidePointer p.markUsed).layout.framePointer ≠ .noreg := by
    show t.framePointer ≠ .noreg
    rw [hn]
    exact Reg.noConfusion
  rw [hasPointer, if_pos hne, hasPointer, hlayout]
  rfl

/-- The choice of the spill set keeps what was there. -/
theorem ChoosesSpills.hasPointer_eq (h : t.ChoosesSpills p q) :
    t.hasPointer q = t.hasPointer p := by
  obtain ⟨_, _, _, _, _, rfl⟩ := h.shape
  rfl

theorem ChoosesSpills.fixed_eq (h : t.ChoosesSpills p q) : q.frame.fixed = p.frame.fixed := by
  obtain ⟨_, _, _, _, _, rfl⟩ := h.shape
  rfl

theorem ChoosesSpills.same (h : t.ChoosesSpills p q) : q.name = p.name ∧ q.blocks = p.blocks ∧
    q.fresh = p.fresh ∧ q.layout.areas = p.layout.areas ∧
    q.layout.framePointer = p.layout.framePointer := by
  obtain ⟨_, _, _, _, _, rfl⟩ := h.shape
  exact ⟨rfl, rfl, rfl, rfl, rfl⟩

/-- A scavenging slot that is added is of moderate size. -/
theorem ChoosesSpills.isModerate (h : t.ChoosesSpills p q)
    (hmoderate : ∀ o ∈ p.frame.objects, o.IsModerate) : ∀ o ∈ q.frame.objects, o.IsModerate := by
  rcases h.objects with ⟨hobjects, -⟩ | ⟨hobjects, -⟩
  · rw [hobjects]
    exact hmoderate
  · rw [hobjects, List.forall_mem_append, List.forall_mem_singleton]
    exact ⟨hmoderate, by decide, by decide, by decide, by decide⟩

/-- Without a stack frame no slots are made. -/
theorem ChoosesSpills.savedSlots_eq_nil (h : t.ChoosesSpills p q)
    (hnone : ∀ r, p.layout.isSpilled r = false) (hframe : q.layout.hasStackFrame = false) :
    t.savedSlots q = [] := by
  have hspilled : q.layout.spilled = p.layout.spilled := h.unframed (Bool.eq_false_iff.1 hframe)
  have hempty : t.spilledSaved q = [] := by
    refine List.filter_eq_nil_iff.2 fun cs _ => ?_
    have hcs := hnone cs.reg
    rw [Layout.isSpilled, ← hspilled] at hcs
    exact Bool.eq_false_iff.1 hcs
  rw [savedSlots, hempty]
  rfl

theorem ChoosesSpills.object? (h : t.ChoosesSpills p q) {j : Int64} {o : FrameObject}
    (ho : p.frame.object? j = some o) : q.frame.object? j = some o := by
  rw [Frame.object?] at ho ⊢
  split at ho
  · next hj =>
    rw [if_pos hj]
    rcases h.objects with ⟨hobjects, -⟩ | ⟨hobjects, -⟩
    · rw [hobjects, ho]
    · rw [hobjects, List.getElem?_append_left (List.getElem?_eq_some_iff.1 ho).1, ho]
  · next hj => rw [if_neg hj, h.fixed_eq, ho]

theorem ChoosesSpills.hasScavenging (h : t.ChoosesSpills p q)
    (hnone : p.frame.scavengingIndex = noIndex) (hobjects : p.frame.objects.length + 1 < 2 ^ 31)
    (hfixed : p.frame.fixed.length < 2 ^ 31) : HasScavenging q := by
  rw [← h.fixed_eq] at hfixed
  rcases h.objects with ⟨hlist, hindex⟩ | ⟨hlist, hindex⟩
  · refine ⟨.inl (hindex.trans hnone), ?_, hfixed⟩
    rw [hlist]
    omega
  · refine ⟨.inr ⟨_, hindex, by rw [hlist, List.getElem?_concat_length]⟩, ?_, hfixed⟩
    rw [hlist, List.length_append, List.length_singleton]
    omega

/-- The spill set is chosen and the frame placed for it. -/
theorem places_of_isUnframed (scavenger : Bool) (hwide : t.abi.thumb1Only = false)
    (hp : p.IsUnframed) : ∃ c, c = t.finalizeSpillSet scavenger (t.decidePointer p.markUsed) ∧
      t.ChoosesSpills (t.decidePointer p.markUsed) c ∧ HasScavenging c ∧
      t.Places c (t.placeFrame (t.assignSlots c)) := by
  have hunframed : (t.decidePointer p.markUsed).layout.hasStackFrame = false := by
    show p.layout.hasStackFrame = false
    rw [hp.layout]
  have hchosen := choosesSpills_finalizeSpillSet scavenger hwide hunframed
  have hscavenging := hchosen.hasScavenging hp.unscavenged hp.few.1 hp.few.2
  have hfixed : _ = p.frame.fixed := hchosen.fixed_eq
  exact ⟨_, rfl, hchosen, hscavenging, places_placeFrame (length_assignSlots_lt hscavenging.few.1)
    (fun o ho => hp.fixed o (hfixed ▸ ho)) hscavenging.notMem⟩

/-- A frame is decided upon, and placed. -/
theorem plans_placeFrame (scavenger : Bool) (hwide : t.abi.thumb1Only = false)
    (hp : p.IsUnframed) :
    t.Plans p (t.placeFrame (t.assignSlots
      (t.finalizeSpillSet scavenger (t.decidePointer p.markUsed)))) := by
  obtain ⟨c, hc, hchosen, hscavenging, hplaced⟩ := places_of_isUnframed scavenger hwide hp
  rw [← hc]
  generalize t.placeFrame (t.assignSlots c) = q at hplaced
  have hlen := length_assignSlots_lt (t := t) hscavenging.few.1
  have hdecided := hchosen.hasPointer_eq.trans (hasPointer_decidePointer hp.layout)
  obtain ⟨hname, hblocks, hfresh, hareas, hregister⟩ := hchosen.same
  have hlayout : (t.decidePointer p.markUsed).layout.areas = [] ∧
      ∀ r, (t.decidePointer p.markUsed).layout.isSpilled r = false := by
    show p.layout.areas = [] ∧ ∀ r, p.layout.isSpilled r = false
    rw [hp.layout]
    exact ⟨rfl, fun _ => rfl⟩
  -- placing the frame has changed offsets and the size only
  obtain ⟨_, _, _, rfl⟩ := hplaced.shape
  exact {
    name := hname
    blocks := hblocks
    fresh := hfresh
    areas := hareas.trans hlayout.1
    row := isSavedRow_savedSlots
    order := savedSlots_map (p := c) fun r _ => r
    tiles := hplaced.tiles
    indices := nodup_index_of_length hlen
    bare := hchosen.savedSlots_eq_nil hlayout.2
    spilled := fun cs hcs => isSpilled_iff_mem (p := c) hcs
    used := fun i hi cs hcs hspilled _ x hx hover =>
      hspilled (hchosen.used cs hcs (isUsed_of_overlaps hcs hi hx hover))
    register := hregister
    decided := hdecided
    framed := fun hpointer => hchosen.framed (hchosen.hasPointer_eq ▸ hpointer)
    pointer := fun hframe hsets => by
      refine hchosen.pointer hframe ?_
      rw [setsPointer, ← hchosen.hasPointer_eq]
      exact hsets
    scavenging := hscavenging.notMem
    kept := fun j o ho => notMem_index_of_length hlen (.inr ⟨o, hchosen.object? ho⟩)
    apart := fun hmoderate hrange entry =>
      hasSlots_of_places hplaced hscavenging (hchosen.isModerate hmoderate) (hdecided ▸ hrange) entry }

end

/-! ## The walk through all blocks -/

section
variable {t : Target} {w : WideSet} {p : Procedure} {block : Nat} {spAdj spAdj' : Int64}
  {blocks : List Block} {fresh : Nat}

/-- A walk through a block sees nothing of the others but whether registers are live there. -/
theorem Direct.congr {i : Inst} {e : Expansion} (h : Direct t w p block i spAdj e) :
    Direct t w { p with blocks, fresh } block i spAdj e := by
  cases h with
  | alone hr hrest => exact .alone hr hrest
  | through hr hrest hscratch hfree => exact .through hr hrest hscratch hfree

theorem Expands.congr {i : Inst} {e : Expansion} (h : Expands t w p block i spAdj e) :
    Expands t w { p with blocks, fresh } block i spAdj e := by
  cases h with
  | direct h => exact .direct h.congr
  | borrowed hr hrest hscratch hspill hreload hfirst hlast =>
    exact .borrowed hr hrest hscratch hspill.congr hreload.congr hfirst hlast

theorem Walks.congr {ls : List Line} {ps : List Piece} (h : Walks t w p block spAdj ls spAdj' ps) :
    Walks t w { p with blocks, fresh } block spAdj ls spAdj' ps := by
  induction h with
  | nil => exact .nil
  | marker hop hm _ ih => exact .marker hop hm ih
  | plain hop hplace _ ih => exact .plain hop hplace ih
  | expand hop he _ ih => exact .expand hop he.congr ih

theorem le_number (next : Nat) (ps : List Piece) : next ≤ (Piece.number next ps).2 := by
  induction ps generalizing next with
  | nil => exact Nat.le_refl _
  | cons q ps ih =>
    cases q with
    | line l => exact ih next
    | fresh i => exact Nat.le_of_succ_le (ih (next + 1))

end

/-- Blocks of a function after a walk through them. -/
structure WalksBlocks (t : Target) (w : WideSet) (ks : List Nat) (p q : Procedure) : Prop where
  shape : ∃ blocks fresh, q = { p with blocks, fresh }
  fresh : p.fresh ≤ q.fresh
  length : q.blocks.length = p.blocks.length
  others : ∀ k, k ∉ ks → q.blocks[k]? = p.blocks[k]?
  walks : ∀ k ∈ ks, ∀ b, p.blocks[k]? = some b → ∃ n spAdj ps, p.fresh ≤ n ∧
    Walks t w q k 0 b.lines spAdj ps ∧ q.blocks[k]? = some { b with lines := (Piece.number n ps).1 }

section
variable {t : Target} {w : WideSet} {p q : Procedure} {k : Nat} {ks : List Nat}

/-- A block after a walk through all of them comes from one before. -/
theorem WalksBlocks.exists_walk {d : Block}
    (h : t.WalksBlocks w (List.range p.blocks.length) p q) (hd : q.blocks[k]? = some d) :
    ∃ b n spAdj ps, p.blocks[k]? = some b ∧ p.fresh ≤ n ∧ Walks t w q k 0 b.lines spAdj ps ∧
      d = { b with lines := (Piece.number n ps).1 } := by
  obtain ⟨hlt, -⟩ := List.getElem?_eq_some_iff.1 hd
  rw [h.length] at hlt
  have hb := List.getElem?_eq_getElem hlt
  obtain ⟨n, spAdj, ps, hn, hwalk, hafter⟩ := h.walks k (List.mem_range.2 hlt) _ hb
  exact ⟨_, n, spAdj, ps, hb, hn, hwalk, Option.some.inj (hd.symm.trans hafter)⟩

theorem walksBlocks_walkBlock (hw : t.wide? = some w) (hok : t.walkBlock k p = .ok () q) :
    t.WalksBlocks w [k] p q := by
  rw [walkBlock] at hok
  cases hf : (t.walkLines p k 0 (p.lines k)).failure with
  | some f => simp [hf] at hok
  | none =>
    simp only [hf] at hok
    obtain ⟨-, rfl⟩ := EStateM.Result.ok.inj hok
    obtain ⟨spAdj, hwalks⟩ := walks_of_walkLines hw hf
    generalize (t.walkLines p k 0 (p.lines k)).pieces = ps at hwalks
    refine ⟨⟨_, _, rfl⟩, le_number _ _, List.length_modify .., fun j hj => ?_, fun j hj b hb => ?_⟩
    · show (p.setLines k _).blocks[j]? = _
      rw [Procedure.getElem?_setLines, if_neg (Ne.symm (by simpa using hj))]
    · obtain rfl := List.mem_singleton.1 hj
      have hlines : p.lines j = b.lines := by rw [Procedure.lines, hb]
      rw [hlines] at hwalks
      refine ⟨p.fresh, spAdj, ps, Nat.le_refl _, hwalks.congr, ?_⟩
      show (p.setLines j _).blocks[j]? = _
      rw [Procedure.getElem?_setLines, if_pos rfl, hb]
      rfl

theorem walksBlocks_walkBlocks (hw : t.wide? = some w) (hks : ks.Nodup)
    (hok : t.walkBlocks ks p = .ok () q) : t.WalksBlocks w ks p q := by
  induction ks generalizing p with
  | nil =>
    obtain ⟨-, rfl⟩ := EStateM.Result.ok.inj hok
    exact ⟨⟨_, _, rfl⟩, Nat.le_refl _, rfl, fun _ _ => rfl, fun k hk => absurd hk List.not_mem_nil⟩
  | cons k ks ih =>
    obtain ⟨hk, hks⟩ := List.nodup_cons.1 hks
    obtain ⟨_, m, hstep, hrest⟩ := Lowering.of_bind hok
    have hone := walksBlocks_walkBlock hw hstep
    have hall := ih hks hrest
    obtain ⟨blocks, fresh, rfl⟩ := hone.shape
    obtain ⟨blocks', fresh', rfl⟩ := hall.shape
    refine ⟨⟨_, _, rfl⟩, hone.fresh.trans hall.fresh, hall.length.trans hone.length, ?_, ?_⟩
    · intro j hj
      rw [List.mem_cons, not_or] at hj
      exact (hall.others j hj.2).trans (hone.others j (by simpa using hj.1))
    · intro j hj b hb
      by_cases hjk : j = k
      · subst hjk
        obtain ⟨n, spAdj, ps, hn, hwalks, hblock⟩ := hone.walks j List.mem_cons_self b hb
        exact ⟨n, spAdj, ps, hn, hwalks.congr, (hall.others j hk).trans hblock⟩
      · have hin := (List.mem_cons.1 hj).resolve_left hjk
        have hsame := (hone.others j (by simpa using hjk)).trans hb
        obtain ⟨n, spAdj, ps, hn, hwalks, hblock⟩ := hall.walks j hin b hsame
        exact ⟨n, spAdj, ps, hone.fresh.trans hn, hwalks, hblock⟩

end

/-! ## All stages -/

section
variable {t : Target} {p c g : Procedure}

/-- The layout of a planned frame. -/
theorem Plans.hasFrame {blocks : List Block} {fresh : Nat} (h : t.Plans p c)
    (hok : t.computeLayout { c with blocks, fresh } = .ok () g) :
    (∃ layout, g = { c with blocks, fresh, layout } ∧ Layout.SameChoice c.layout layout) ∧
      t.HasFrame g ∧ t.hasPointer g = t.hasPointer p ∧
      ∀ j, j ∉ c.frame.saved.map SavedSlot.index → g.layout.area j = .outside := by
  obtain ⟨⟨layout, rfl, hsame⟩, hgrouped, houtside⟩ := computeLayout_facts hok h.areas h.indices
  obtain ⟨hspilled, hframe, hregister, hpointer⟩ := id hsame
  have hdecided : t.hasPointer { c with blocks, fresh, layout } = t.hasPointer c := by
    rw [hasPointer, hasPointer, hregister, hpointer]
    rfl
  have hsets : t.setsPointer { c with blocks, fresh, layout } = t.setsPointer c :=
    congrArg (t.abi.darwin || ·) hdecided
  have hspills (r : Reg) : layout.isSpilled r = c.layout.isSpilled r := by
    rw [Layout.isSpilled, hspilled, Layout.isSpilled]
  refine ⟨⟨layout, rfl, hsame⟩, ⟨⟨?_, ?_, ?_, ?_⟩, ?_, ?_, ?_⟩, hdecided.trans h.decided, houtside⟩
  · intro hp
    rw [hdecided] at hp
    exact hframe.trans (h.framed hp)
  · intro hstack hp
    rw [hsets] at hp
    exact (hspills _).trans (h.pointer (hframe.symm.trans hstack) hp)
  · intro hstack hp
    obtain ⟨σ, -, -, hindex, o, ho, hoffset⟩ := (hgrouped (hframe.symm.trans hstack)).pointer hp
    exact ⟨o, hindex ▸ ho, hoffset⟩
  · exact houtside _ h.scavenging
  · intro hstack
    exact ⟨h.row, h.tiles, hgrouped (hframe.symm.trans hstack)⟩
  · intro hstack
    exact h.bare (hframe.symm.trans hstack)
  · intro cs hcs
    rw [← h.spilled cs hcs, ← hspills]

/-- A frame does not depend on the code that is inserted. -/
theorem HasFrame.congr {blocks : List Block} {fresh : Nat} {offsetAdjustment : Int64}
    (h : t.HasFrame g) : t.HasFrame { g with
      blocks
      fresh
      frame := { g.frame with offsetAdjustment } } := by
  refine ⟨⟨h.laid.framed, h.laid.spilled, h.laid.pointer, h.laid.scavenging⟩, ?_, h.bare, h.spilled⟩
  intro hstack
  obtain ⟨hrow, htiles, grouped⟩ := h.areas hstack
  exact ⟨hrow, htiles.congr fun _ _ => rfl, ⟨grouped.gpr1, grouped.gpr2, grouped.dpr,
    grouped.dprOffset, grouped.gpr2Offset, grouped.gpr1Offset, grouped.area, grouped.pointer⟩⟩

end

/-- A function `q` that `p` was lowered to. -/
structure Lowers (t : Target) (w : WideSet) (p q : Procedure) : Prop where
  name : q.name = p.name
  frame : t.HasFrame q
  order : q.frame.saved.map SavedSlot.reg = (t.spilledSaved q).map CalleeSaved.reg
  register : q.layout.framePointer = t.framePointer
  pointer : t.hasPointer q = t.hasPointer p
  outside : ∀ j o, p.frame.object? j = some o → q.layout.area j = .outside
  spares : ∀ i ∈ p.insts, t.Spares q [] i.reach
  apart : (∀ o ∈ p.frame.objects, o.IsModerate) →
    (¬ t.hasPointer p → ∀ j o, q.frame.object? j = some o → -2 ^ 32 ≤ o.offset.toInt) →
    ∀ entry, t.HasSlots q entry
  length : q.blocks.length = p.blocks.length
  block : ∀ k b, p.blocks[k]? = some b → ∃ as es n spAdj ps,
    Line.IsNew p.fresh (if k = 0 then t.prologueCode w q else []) as ∧
      Line.IsNew p.fresh (if b.isReturn then t.epilogueCode w q else []) es ∧ p.fresh ≤ n ∧
      Walks t w q k 0 (as ++ b.body ++ es ++ b.exit) spAdj ps ∧
      q.blocks[k]? = some { b with lines := (Piece.number n ps).1 }

section
variable {t : Target} {p q : Procedure}

/-- The slots of a frame whose offsets are all in the range of a machine word. -/
theorem Lowers.slots {w : WideSet} (h : t.Lowers w p q)
    (hmoderate : ∀ o ∈ p.frame.objects, o.IsModerate)
    (hrange : ∀ j o, q.frame.object? j = some o → -2 ^ 31 < o.offset.toInt) (entry : State) :
    t.HasSlots q entry := by
  refine h.apart hmoderate (fun _ j o ho => ?_) entry
  have := hrange j o ho
  omega

/-- The frame pointer is recorded in the layout. -/
theorem Lowers.hasPointer_eq {w : WideSet} (h : t.Lowers w p q) :
    t.hasPointer q = q.layout.hasFramePointer := by
  obtain ⟨n, hn⟩ := t.framePointer_core
  have hne : q.layout.framePointer ≠ .noreg := by
    rw [h.register, hn]
    exact Reg.noConfusion
  rw [hasPointer, if_pos hne]

theorem exists_wide (h : t.abi.thumb1Only = false) : ∃ w, t.wide? = some w := by
  rw [wide?, h]
  cases t.abi.thumb
  · exact ⟨_, rfl⟩
  · exact ⟨_, rfl⟩

theorem thumb1Only_of_wide {w : WideSet} (hw : t.wide? = some w) : t.abi.thumb1Only = false := by
  rw [wide?] at hw
  split at hw
  · cases hw
  · next hthumb => exact Bool.eq_false_iff.2 hthumb

/-- A function that was lowered went through all stages. -/
theorem lower_cases (hok : (t.lower p).failure = none) :
    t.abi.thumb1Only = false ∧ p.blocks ≠ [] ∧ (t.lower p).proc.verify = .ok () ∧
      ∃ g, t.computeLayout (t.insertSpillCode (t.placeFrame (t.assignSlots
          (t.finalizeSpillSet t.config.scavenging (t.decidePointer p.markUsed))))) = .ok () g ∧
        t.insertFrame g = .ok () (t.lower p).proc := by
  rw [lower] at hok ⊢
  by_cases hthumb : t.abi.thumb1Only
  · simp [hthumb] at hok
  by_cases hblocks : p.blocks = []
  · simp [hthumb, hblocks] at hok
  rw [if_neg hthumb, if_neg hblocks, lowerBlocks] at hok ⊢
  refine ⟨Bool.eq_false_iff.2 hthumb, hblocks, ?_⟩
  simp only at hok ⊢
  generalize t.computeLayout _ = laid at hok ⊢
  cases laid with
  | error f q => simp at hok
  | ok u g =>
    simp only at hok ⊢
    cases hinsert : t.insertFrame g with
    | error f q => simp [hinsert] at hok
    | ok u q =>
      simp only [hinsert] at hok ⊢
      cases hverify : q.verify with
      | error e => simp [hverify] at hok
      | ok u => exact ⟨hverify, g, rfl, hinsert⟩

theorem emitFrame_cases {g : Procedure} (hok : t.emitFrame g = .ok () q) :
    ∃ m, t.emitPrologue g = .ok () m ∧
      t.emitEpilogues (List.range m.blocks.length) m = .ok () q := by
  obtain ⟨_, m, hprologue, hrest⟩ := Lowering.of_bind hok
  obtain ⟨_, _, hget, hepilogues⟩ := Lowering.of_bind hrest
  obtain ⟨rfl, rfl⟩ := EStateM.Result.ok.inj hget
  exact ⟨m, hprologue, hepilogues⟩

theorem insertFrame_cases {g : Procedure} (hok : t.insertFrame g = .ok () q) :
    ∃ m m', t.emitPrologue g = .ok () m ∧
      t.emitEpilogues (List.range m.blocks.length) m = .ok () m' ∧
      t.walkBlocks (List.range m'.blocks.length) m' = .ok () q := by
  obtain ⟨_, m', hframe, hwalk⟩ := Lowering.of_bind hok
  obtain ⟨m, hprologue, hepilogues⟩ := emitFrame_cases hframe
  exact ⟨m, m', hprologue, hepilogues, hwalk⟩

theorem isReturn_of_mem_saves {w : WideSet} (hw : t.wide? = some w)
    (hrow : t.IsSavedRow p.frame.saved) {i : Inst} (hi : i ∈ t.saves p) : i.isReturn = false := by
  rw [saves_eq hrow, List.mem_append, List.mem_append] at hi
  rcases hi with (hi | hi) | hi
  all_goals exact (savesIn_facts hw hrow hi).2.2.1

/-- A function with its prologue and its epilogues, before the walk. -/
theorem framed_of_stages {w : WideSet} {g m m' : Procedure} (hp : p.IsUnframed)
    (hthumb : t.abi.thumb1Only = false) (hw : t.wide? = some w)
    (hlayout : t.computeLayout (t.insertSpillCode (t.placeFrame (t.assignSlots
      (t.finalizeSpillSet t.config.scavenging (t.decidePointer p.markUsed))))) = .ok () g)
    (hprologue : t.emitPrologue g = .ok () m)
    (hepilogues : t.emitEpilogues (List.range m.blocks.length) m = .ok () m') :
    ∃ c layout, t.Plans p c ∧ c = t.placeFrame (t.assignSlots
        (t.finalizeSpillSet t.config.scavenging (t.decidePointer p.markUsed))) ∧
      (∃ blocks fresh offsetAdjustment, m' = { c with
        blocks
        fresh
        layout
        frame := { c.frame with offsetAdjustment } }) ∧
      Layout.SameChoice c.layout layout ∧ t.HasFrame m' ∧ t.hasPointer m' = t.hasPointer p ∧
      (∀ j, j ∉ c.frame.saved.map SavedSlot.index → layout.area j = .outside) ∧
      Procedure.Framed p.fresh (t.prologueCode w m') (fun _ => t.epilogueCode w m') p m' := by
  have hplans := plans_placeFrame t.config.scavenging hthumb hp
  generalize t.placeFrame _ = c at hlayout hplans
  have hclear : ∀ b ∈ p.blocks, ∀ l ∈ b.lines, LeavesSlots c l.inst := by
    intro b hb l hl index hindex
    obtain ⟨o, ho⟩ := hp.indices b hb l hl index hindex
    exact hplans.kept index o ho
  -- The stores and loads of saved registers come first, and the layout is recorded.
  obtain ⟨hcode, blocks, fresh, hspill⟩ := framed_insertSpillCode hplans.blocks hplans.fresh
    fun i hi => isReturn_of_mem_saves hw hplans.row hi
  rw [hspill] at hlayout hcode
  obtain ⟨⟨layout, rfl, hsame⟩, hframe, hpointer, houtside⟩ := hplans.hasFrame hlayout
  have hsaves : Procedure.Framed p.fresh (t.saves { c with blocks, fresh, layout })
      (fun _ => t.restores { c with blocks, fresh, layout }) p { c with blocks, fresh, layout } :=
    ⟨hcode.fresh, hcode.length, hcode.block⟩
  -- The rest of the prologue and of the epilogues is put around them.
  obtain ⟨hhead, blocks₁, fresh₁, offsetAdjustment, rfl⟩ := framed_emitPrologue hw hsaves
    ⟨hplans.row, hframe.bare, hclear⟩ hprologue
  obtain ⟨hall, blocks₂, fresh₂, rfl⟩ := framed_emitEpilogues hw hhead
    ⟨hplans.row, hframe.bare, hclear⟩
    (fun i hi => prologueCode_facts (p := { c with blocks, fresh, layout }) hw hplans.row hi)
    List.nodup_range (fun _ _ => rfl) hepilogues
  refine ⟨c, layout, hplans, rfl, ⟨_, _, _, rfl⟩, hsame, hframe.congr, hpointer, houtside, ?_⟩
  apply hall.congr
  intro k b hb _
  have hk : k ∈ List.range blocks₁.length := by
    rw [List.mem_range, hhead.length]
    exact (List.getElem?_eq_some_iff.1 hb).1
  rw [if_pos hk]
  rfl

/-- What a function was lowered to. -/
theorem lowers_of_isFresh (hp : p.IsFresh) (hok : (t.lower p).failure = none) :
    ∃ w, t.wide? = some w ∧ t.Lowers w p (t.lower p).proc := by
  obtain ⟨hthumb, -, -, g, hlayout, hinsert⟩ := lower_cases hok
  obtain ⟨w, hw⟩ := exists_wide hthumb
  refine ⟨w, hw, ?_⟩
  generalize (t.lower p).proc = q at hinsert
  obtain ⟨m, m', hprologue, hepilogues, hwalk⟩ := insertFrame_cases hinsert
  obtain ⟨c, layout, hplans, -, ⟨blocks, fresh, offsetAdjustment, rfl⟩, hsame, hframe, hpointer,
    houtside, hall⟩ := framed_of_stages hp.toIsUnframed hthumb hw hlayout hprologue hepilogues
  have hwalks := walksBlocks_walkBlocks hw List.nodup_range hwalk
  obtain ⟨blocks', fresh', rfl⟩ := hwalks.shape
  -- the layout keeps the choice of registers to spill
  have hspilled : t.spilledSaved { c with layout } = t.spilledSaved c := by
    rw [spilledSaved, spilledSaved]
    simp only [Layout.isSpilled, hsame.1]
  exact {
    name := hplans.name
    frame := hframe.congr
    order := hplans.order.trans (congrArg _ hspilled.symm)
    register := hsame.2.2.1.trans hplans.register
    pointer := hpointer
    outside := fun j o ho => houtside j (hplans.kept j o ho)
    spares := by
      intro i hi cs hcs hspilled
      refine hplans.used i hi cs hcs fun h => hspilled ?_
      rw [Layout.isSpilled, hsame.1]
      exact h
    apart := by
      intro hmoderate hrange entry
      obtain ⟨hsaved, hscavenging, hapart⟩ := hplans.apart hmoderate hrange entry
      exact ⟨hsaved, hscavenging, hapart⟩
    length := hwalks.length.trans hall.length
    block := by
      intro k b hb
      obtain ⟨as, es, has, hes, hblock⟩ := hall.block k b hb
      have hin := (List.getElem?_eq_some_iff.1 hblock).1
      obtain ⟨n, spAdj, ps, hn, hwalk, hlowered⟩ := hwalks.walks k (List.mem_range.2 hin) _ hblock
      exact ⟨as, es, n, spAdj, ps, has, hes, hall.fresh.trans hn, hwalk, hlowered⟩ }

theorem lowers_of_lower (hp : p.IsBuilt) (hok : (t.lower p).failure = none) :
    ∃ w, t.wide? = some w ∧ t.Lowers w p (t.lower p).proc :=
  lowers_of_isFresh hp.toIsFresh hok

end

end Target

end FrameLowering
