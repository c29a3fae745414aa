import FrameLowering.Proofs.EncodedOffsets

/-!
# Frames of limited size

Sums of sizes and offsets are 64-bit integers, and the least one has no magnitude. Where the
sizes, alignments and offsets of a function are below `2 ^ 31` and it does not have hundreds of
millions of objects and instructions, nothing that is added up in its frame comes near that
integer (`inReach_of_isLimited`). Its lowered code is then accepted by verification whenever all
stages before succeed (`verify_of_insertFrame`). An alignment alone can push an object over the
edge (`verify_coarseObjects`).
-/

namespace FrameLowering

/-- An object with a size, an alignment and an offset below `2 ^ 31`. -/
def FrameObject.IsSmall (o : FrameObject) : Prop :=
  IsBelow (2 ^ 31) o.size ∧ IsBelow (2 ^ 31) o.align ∧ IsBelow (2 ^ 31) o.offset

instance : DecidablePred FrameObject.IsSmall :=
  fun _ => inferInstanceAs (Decidable (_ ∧ _))

/-- A function with sizes, alignments, offsets and immediates below `2 ^ 31`, and fewer than
`2 ^ 28` objects, and instructions in a block. -/
structure Procedure.IsSmall (p : Procedure) : Prop where
  objects : ∀ o ∈ p.frame.objects, o.IsSmall
  fixed : ∀ o ∈ p.frame.fixed, o.IsSmall
  calls : IsBelow (2 ^ 31) p.frame.maxCallFrameSize
  immediates : ∀ i ∈ p.insts, ∀ o ∈ i.operands, o.IsSmall
  few : p.frame.objects.length < 2 ^ 28
  short : ∀ b ∈ p.blocks, b.lines.length < 2 ^ 28

instance : DecidablePred Procedure.IsSmall := fun p =>
  decidable_of_iff ((∀ o ∈ p.frame.objects, o.IsSmall) ∧ (∀ o ∈ p.frame.fixed, o.IsSmall) ∧
      IsBelow (2 ^ 31) p.frame.maxCallFrameSize ∧ (∀ i ∈ p.insts, ∀ o ∈ i.operands, o.IsSmall) ∧
      p.frame.objects.length < 2 ^ 28 ∧ ∀ b ∈ p.blocks, b.lines.length < 2 ^ 28)
    ⟨fun ⟨h₁, h₂, h₃, h₄, h₅, h₆⟩ => ⟨h₁, h₂, h₃, h₄, h₅, h₆⟩,
      fun h => ⟨h.objects, h.fixed, h.calls, h.immediates, h.few, h.short⟩⟩

theorem Procedure.IsSmall.length_lines_lt {p : Procedure} (h : p.IsSmall) (k : Nat) :
    (p.lines k).length < 2 ^ 28 := by
  rw [lines]
  split
  · next b hb => exact h.short b (List.mem_of_getElem? hb)
  · decide

theorem IsBelow.max {n : Nat} {a b : Int64} (ha : IsBelow n a) (hb : IsBelow n b) :
    IsBelow n (max a b) := by
  show IsBelow n (if a ≤ b then b else a)
  split
  · exact hb
  · exact ha

/-! ## Placement -/

namespace Placement

/-- All that placement has come up with so far is below a bound. -/
structure Below (bound : Nat) (s : Placement) : Prop where
  depth : IsBelow bound s.depth
  align : IsBelow (2 ^ 31) s.maxAlign
  objects : ∀ j o, s.frame.object? j = some o →
    IsBelow (2 ^ 31) o.size ∧ IsBelow (2 ^ 31) o.align ∧ IsBelow bound o.offset

section
variable {n k : Nat} {s : Placement}

/-- An object at a new offset. -/
theorem Below.modify (h : s.Below n) (j : Int64) {offset : Int64} {m : Nat} (hoffset : IsBelow m offset)
    (hnm : n ≤ m) : ∀ i o, (s.frame.modify j fun o => { o with offset }).object? i = some o →
      IsBelow (2 ^ 31) o.size ∧ IsBelow (2 ^ 31) o.align ∧ IsBelow m o.offset := by
  intro i o ho
  rw [Frame.object?_modify] at ho
  split at ho
  · obtain ⟨q, hq, rfl⟩ := Option.map_eq_some_iff.1 ho
    obtain ⟨hsize, halign, -⟩ := h.objects i q hq
    exact ⟨hsize, halign, hoffset⟩
  · obtain ⟨hsize, halign, hoff⟩ := h.objects i o ho
    exact ⟨hsize, halign, hoff.mono hnm⟩

theorem Below.mono {m : Nat} (h : s.Below n) (hnm : n ≤ m) : s.Below m :=
  ⟨h.depth.mono hnm, h.align, fun j o ho =>
    ⟨(h.objects j o ho).1, (h.objects j o ho).2.1, (h.objects j o ho).2.2.mono hnm⟩⟩

theorem Below.pack (h : s.Below n) (hk : 2 ^ 31 ≤ k) (hn : n + k ≤ 2 ^ 63) (σ : SavedSlot) :
    (s.pack σ).Below (n + k) := by
  rw [Placement.pack]
  cases ho : s.frame.object? σ.index with
  | none => exact h.mono (Nat.le_add_right _ _)
  | some o =>
    have hdepth : IsBelow (n + k) (s.depth + o.size) :=
      h.depth.add ((h.objects _ o ho).1.mono hk) hn
    exact ⟨hdepth, h.align, h.modify _ (hdepth.neg hn) (Nat.le_add_right _ _)⟩

theorem Below.place (h : s.Below n) (hk : 2 ^ 31 + 2 ^ 31 ≤ k) (hn : n + k ≤ 2 ^ 63) (j : Int64) :
    (s.place j).Below (n + k) := by
  rw [Placement.place]
  cases ho : s.frame.object? j with
  | none => exact h.mono (Nat.le_add_right _ _)
  | some o =>
    obtain ⟨hsize, halign, -⟩ := h.objects _ o ho
    have hstep : n + 2 ^ 31 + 2 ^ 31 ≤ n + k := (Nat.add_assoc ..).trans_le (Nat.add_le_add_left hk n)
    have hroom := hstep.trans hn
    have hsum := h.depth.add hsize ((Nat.le_add_right _ _).trans hroom)
    have hdepth : IsBelow (n + k) (alignTo (s.depth + o.size) o.align) :=
      (hsum.alignTo halign hroom).mono hstep
    exact ⟨hdepth, h.align.max halign, h.modify _ (hdepth.neg hn) (Nat.le_add_right _ _)⟩

/-- A step that adds less than `k`, for each of some things. -/
theorem Below.foldl {α : Type} {step : Placement → α → Placement}
    (hstep : ∀ s n x, Below n s → n + k ≤ 2 ^ 63 → (step s x).Below (n + k))
    (xs : List α) (h : s.Below n) (hn : n + k * xs.length ≤ 2 ^ 63) :
    (xs.foldl step s).Below (n + k * xs.length) := by
  induction xs generalizing s n with
  | nil => exact h
  | cons x xs ih =>
    have hsplit : n + k * (x :: xs).length = n + k + k * xs.length := by
      rw [List.length_cons, Nat.mul_succ]
      omega
    rw [hsplit] at hn ⊢
    exact ih (hstep s n x h ((Nat.le_add_right _ _).trans hn)) hn

end

end Placement

/-! ## The frame and its layout -/

/-- Offsets and size of a frame are below a bound. -/
structure Frame.IsLimited (bound : Nat) (f : Frame) : Prop where
  size : IsBelow bound f.stackSize
  offset : ∀ j o, f.object? j = some o → IsBelow bound o.offset

/-- Offsets of the areas of a frame and of the saved frame pointer are below a bound. -/
structure Layout.IsLimited (bound : Nat) (l : Layout) : Prop where
  gpr1 : IsBelow bound l.gpr1Offset
  gpr2 : IsBelow bound l.gpr2Offset
  dpr : IsBelow bound l.dprOffset
  pointer : IsBelow bound l.fpSpillOffset

/-- The areas are at the top of the frame, up to their own small sizes. -/
theorem Layout.isLimited_stackAreas {l : Layout} {size : Int64} {n : Nat} (hsize : IsBelow n size)
    (hgpr1 : IsBelow (2 ^ 9) l.gpr1Size) (hgpr2 : IsBelow (2 ^ 9) l.gpr2Size)
    (hdpr : IsBelow (2 ^ 9) l.dprSize) (hpointer : IsBelow (n + n) l.fpSpillOffset)
    (hlo : 2 ^ 12 ≤ n) (hhi : n + n ≤ 2 ^ 63) : (l.stackAreas size).IsLimited (n + n) := by
  have hsaved : IsBelow (2 ^ 9 + 2 ^ 9 + 2 ^ 9) l.savedSize :=
    (hgpr1.add hgpr2 (by decide)).add hdpr (by decide)
  have hbottom := hsize.sub hsaved (by omega)
  have hmiddle := hbottom.add hdpr (by omega)
  have htop := hmiddle.add hgpr2 (by omega)
  exact ⟨htop.mono (by omega), hmiddle.mono (by omega), hbottom.mono (by omega), hpointer⟩

theorem Procedure.isBelow_fixedDepth {p : Procedure} (h : ∀ o ∈ p.frame.fixed, o.IsSmall) :
    IsBelow (2 ^ 31) p.fixedDepth := by
  rw [fixedDepth]
  generalize p.frame.fixed = os at h
  have hstart : IsBelow (2 ^ 31) 0 := by decide
  generalize (0 : Int64) = depth at hstart
  induction os generalizing depth with
  | nil => exact hstart
  | cons o os ih =>
    obtain ⟨⟨-, -, ho⟩, hos⟩ := List.forall_mem_cons.1 h
    refine ih hos _ ?_
    show IsBelow _ (if depth < -o.offset then -o.offset else depth)
    split
    · exact ho.neg (by decide)
    · exact hstart

namespace Target

/-- A bound for what is added up in the frame of a small function. -/
def frameLimit : Nat :=
  2 ^ 60 + 2 ^ 40

section
variable {t : Target} {p q : Procedure}

theorem isSmall_slotFor (t : Target) (cs : CalleeSaved) : (t.slotFor cs).IsSmall := by
  have hsize : IsBelow (2 ^ 31) (t.savedClass cs.reg).size := by
    cases t.savedClass cs.reg <;> decide
  exact ⟨hsize, hsize, show IsBelow _ 0 by decide⟩

/-- The objects of a small function stay small when slots are added to them. -/
theorem isSmall_assignSlots (hp : p.IsSmall) (scavenger : Bool) {j : Int64} {o : FrameObject}
    (ho : (t.assignSlots (t.finalizeSpillSet scavenger (t.decidePointer p.markUsed))).frame.object? j =
      some o) : o.IsSmall :=
  forall_object_assignSlots hp.objects hp.fixed (by decide) t.isSmall_slotFor ho

theorem length_placementOrder_le (t : Target) (p : Procedure) :
    (t.placementOrder p).length ≤ p.frame.objects.length + 1 := by
  have hlocal : (localIndices p.frame).length ≤ p.frame.objects.length := by
    rw [localIndices, List.length_map]
    refine (List.length_filter_le _ _).trans ?_
    rw [Frame.indexed, List.length_map, List.length_zipIdx]
  rw [placementOrder]
  split
  · rw [List.length_cons]
    exact Nat.succ_le_succ hlocal
  · rw [List.length_append]
    exact Nat.succ_le_succ hlocal

/-- Objects that are small, and not too many, are not placed far away. -/
theorem below_placeObjects (hsmall : ∀ j o, p.frame.object? j = some o → o.IsSmall)
    (hfixed : ∀ o ∈ p.frame.fixed, o.IsSmall) (hsaved : p.frame.saved.length ≤ 26)
    (hlen : p.frame.objects.length < 2 ^ 28 + 27) :
    (t.placeObjects p).Below (2 ^ 60 + 2 ^ 39) := by
  have hstart : Placement.Below (2 ^ 32) { frame := p.frame, depth := alignTo p.fixedDepth 4 } := by
    have hfour : IsBelow 5 4 := by decide
    refine ⟨((Procedure.isBelow_fixedDepth hfixed).alignTo hfour (by decide)).mono (by decide),
      show IsBelow _ 1 by decide, fun j o ho => ?_⟩
    obtain ⟨hsize, halign, hoffset⟩ := hsmall j o ho
    exact ⟨hsize, halign, hoffset.mono (by decide)⟩
  -- every object takes its size and less than its alignment
  have horder := t.length_placementOrder_le p
  have hslots : 2 ^ 32 + 2 ^ 32 * p.frame.saved.length ≤ 2 ^ 32 + 2 ^ 32 * 26 :=
    Nat.add_le_add_left (Nat.mul_le_mul_left _ hsaved) _
  have hpacked := (hstart.foldl (k := 2 ^ 32) (fun _ _ σ h hn => h.pack (by decide) hn σ)
    p.frame.saved (hslots.trans (by decide))).mono hslots
  have hobjects : 2 ^ 32 + 2 ^ 32 * 26 + 2 ^ 32 * (t.placementOrder p).length ≤
      2 ^ 32 + 2 ^ 32 * 26 + 2 ^ 32 * (2 ^ 28 + 27) :=
    Nat.add_le_add_left (Nat.mul_le_mul_left _ (horder.trans hlen)) _
  exact (hpacked.foldl (k := 2 ^ 32) (fun _ _ j h hn => h.place (by decide) hn j)
    (t.placementOrder p) (hobjects.trans (by decide))).mono (hobjects.trans (by decide))

/-- Space for outgoing arguments and the alignment of the stack do not make a frame much
larger. -/
theorem isLimited_placeFrame (hplaced : (t.placeObjects p).Below (2 ^ 60 + 2 ^ 39))
    (hcalls : IsBelow (2 ^ 31) p.frame.maxCallFrameSize)
    (halign : IsBelow (2 ^ 31) t.abi.stackAlignment) :
    (t.placeFrame p).frame.IsLimited frameLimit := by
  refine ⟨?_, fun j o ho => (hplaced.objects j o ho).2.2.mono (by decide)⟩
  show IsBelow _ (t.frameSize p (t.placeObjects p))
  have hsize : IsBelow (2 ^ 60 + 2 ^ 39 + 2 ^ 31) (if t.reservesCallFrame p then
      (t.placeObjects p).depth + p.frame.maxCallFrameSize else (t.placeObjects p).depth) := by
    split
    · exact hplaced.depth.add hcalls (by decide)
    · exact hplaced.depth.mono (by decide)
  rw [frameSize]
  split
  · exact (hsize.alignTo (halign.max hplaced.align) (by decide)).mono (by decide)
  · exact hsize.mono (by decide)

/-- The frame of a small function. -/
theorem isLimited_planned (hp : p.IsSmall) (halign : IsBelow (2 ^ 31) t.abi.stackAlignment) :
    (t.planned p).frame.IsLimited frameLimit := by
  obtain ⟨regs, layout, frame, hchosen, hframe⟩ :=
    t.finalizeSpillSet_shape t.config.scavenging (t.decidePointer p.markUsed)
  have hlen := (object?_cases_of_finalizeSpillSet t t.config.scavenging
    (t.decidePointer p.markUsed)).1.2
  have hsmall (j : Int64) (o : FrameObject) := isSmall_assignSlots hp t.config.scavenging (t := t)
    (j := j) (o := o)
  rw [planned, hchosen] at *
  have hfew := length_savedSlots_le (t := t)
    (p := { t.decidePointer p.markUsed with regs, layout, frame })
  refine isLimited_placeFrame (below_placeObjects hsmall ?_ hfew ?_) ?_ halign
  · rcases hframe with rfl | rfl <;> exact hp.fixed
  · have hslots := hfew
    rw [savedSlots, List.length_map, List.length_zipIdx] at hslots
    change frame.objects.length ≤ p.frame.objects.length + 1 at hlen
    have hmany := hp.few
    rw [assignSlots_frame, List.length_append, List.length_map]
    exact Nat.lt_of_le_of_lt (Nat.add_le_add hlen hslots) (by omega)
  · rcases hframe with rfl | rfl <;> exact hp.calls

/-- The areas are in the frame, up to their own small sizes. -/
theorem isLimited_computeLayout {n : Nat} (hframe : p.frame.IsLimited n)
    (hlayout : p.layout.IsLimited (n + n)) (hsaved : p.frame.saved.length ≤ 26) (hlo : 2 ^ 12 ≤ n)
    (hhi : n + n ≤ 2 ^ 63) (h : t.computeLayout p = .ok () q) : q.layout.IsLimited (n + n) := by
  obtain ⟨-, rfl⟩ | ⟨-, l, hadd, -, h⟩ := of_computeLayout h
  · exact hlayout
  obtain ⟨index, hl, -⟩ := addSlots_facts hadd
  have hsize (m : Nat) (a : Area) (hm : m ≤ 8) :
      IsBelow (2 ^ 9) (0 + Int64.ofNat (m * (inArea a p.frame.saved).length)) := by
    have hle : m * (inArea a p.frame.saved).length ≤ 8 * 26 :=
      Nat.mul_le_mul hm ((List.length_filter_le _ _).trans hsaved)
    rw [Int64.zero_add, IsBelow, Int64.toInt_ofNat_of_lt (by omega)]
    omega
  have hareas : (l.stackAreas p.frame.stackSize).IsLimited (n + n) := by
    rw [hl]
    exact Layout.isLimited_stackAreas hframe.size (hsize 4 .gpr1 (by decide))
      (hsize 4 .gpr2 (by decide)) (hsize 8 .dpr (by decide)) hlayout.pointer hlo hhi
  rcases locatePointer_cases h with ⟨-, o, ho, rfl⟩ | ⟨-, rfl⟩
  · exact ⟨hareas.gpr1, hareas.gpr2, hareas.dpr, (hframe.offset _ o ho).add hframe.size hhi⟩
  · exact hareas

/-- Nothing in a limited frame is at an offset without a magnitude. -/
theorem inReach_of_isLimited {n : Nat} {spAdj : Int64} (hframe : p.frame.IsLimited n)
    (hlayout : p.layout.IsLimited (n + n)) (hadj : IsBelow n spAdj)
    (hn : n + n + n + (n + n) ≤ 2 ^ 63 - 2 ^ 33) : t.InReach p spAdj := by
  intro index o a ho ha
  have hbody := (hframe.offset _ o ho).add hframe.size (by omega)
  rw [address] at ha
  split at ha
  · have hbottom : ∀ v, p.layout.areaOffset (p.layout.area index) = .ok v → IsBelow (n + n) v := by
      intro v hv
      cases harea : p.layout.area index with
      | gpr1 =>
        rw [harea] at hv
        exact Except.ok.inj hv ▸ hlayout.gpr1
      | gpr2 =>
        rw [harea] at hv
        exact Except.ok.inj hv ▸ hlayout.gpr2
      | dpr =>
        rw [harea] at hv
        exact Except.ok.inj hv ▸ hlayout.dpr
      | _ =>
        rw [harea] at hv
        cases hv
    split at ha
    · next v hv =>
      obtain rfl := Except.ok.inj ha
      exact ((hbody.add hadj (by omega)).sub (hbottom v hv) (by omega)).mono hn
    · cases ha
  split at ha
  · obtain rfl := Except.ok.inj ha
    exact (hbody.sub hlayout.pointer (by omega)).mono (by omega)
  · obtain rfl := Except.ok.inj ha
    exact (hbody.add hadj (by omega)).mono (by omega)

end

/-! ## Verification of what is lowered -/

section
variable {t : Target} {p : Procedure}

/-- Nothing is recorded about areas when the frame is laid out. -/
theorem isLimited_layout_planned (hwide : t.abi.thumb1Only = false) (hfresh : p.layout = {}) (n : Nat)
    (hn : 0 < n) : (t.planned p).layout.IsLimited n := by
  have hunframed : (t.decidePointer p.markUsed).layout.hasStackFrame = false := by
    show p.layout.hasStackFrame = false
    rw [hfresh]
  obtain ⟨regs, spilled, hasStackFrame, objects, index, hchosen⟩ :=
    (choosesSpills_finalizeSpillSet t.config.scavenging hwide hunframed).shape
  have hzero : IsBelow n 0 := hn
  have hlayout : (t.planned p).layout = { (t.decidePointer p.markUsed).layout with
      spilled, hasStackFrame } := by
    rw [planned, hchosen]
    rfl
  rw [hlayout]
  show Layout.IsLimited n { p.layout with
    spilled, hasStackFrame, hasFramePointer := _, framePointer := _ }
  rw [hfresh]
  exact ⟨hzero, hzero, hzero, hzero⟩

/-- A marker moves the stack pointer by its size and less than the stack's alignment. -/
theorem natAbs_delta_le {w : WideSet} {q : Procedure} {block : Nat} {i : Inst} {m : StackMove}
    (hw : t.wide? = some w) (halign : IsBelow (2 ^ 31) t.abi.stackAlignment)
    (hsmall : ∀ o ∈ i.operands, o.IsSmall) (hm : t.callFrame q block i = .ok m) :
    m.delta.toInt.natAbs ≤ 2 ^ 32 := by
  have hamount : IsBelow (2 ^ 31 + 2 ^ 31) (t.markerAmount q (markerSize? i)) := by
    have hzero : IsBelow (2 ^ 31 + 2 ^ 31) 0 := by decide
    cases hsize : markerSize? i with
    | none => exact hzero
    | some size =>
      have hbelow : IsBelow (2 ^ 31) size := by
        rw [markerSize?] at hsize
        split at hsize
        · next v rest hops =>
          split at hsize
          · cases hsize
          · obtain rfl := Option.some.inj hsize
            exact hsmall (.imm v) (hops ▸ List.mem_cons_self)
        · cases hsize
      show IsBelow _ (if t.reservesCallFrame q then 0 else alignTo size t.abi.stackAlignment)
      split
      · exact hzero
      · exact hbelow.alignTo halign (by decide)
  obtain ⟨v, -, hdelta, hv⟩ := callFrame_facts hw hm
  have hbelow : IsBelow (2 ^ 31 + 2 ^ 31) m.delta := by
    rw [hdelta, hv]
    split
    · exact (hamount.neg (by decide)).neg (by decide)
    · exact hamount.neg (by decide)
  exact Nat.le_of_lt hbelow

theorem not_callFrame {q : Procedure} {block : Nat} {i : Inst} {m : StackMove}
    (hmarker : i.op.isMarker = false) : t.callFrame q block i ≠ .ok m := by
  intro h
  rw [callFrame] at h
  split at h
  · cases h
  · simp [hmarker] at h

/-- The walk through a block, in which the code of the frame has come up between the lines of a
small function. -/
theorem leftover?_of_grows {w : WideSet} {q : Procedure} {block n : Nat} {saved : List SavedSlot}
    {index spAdj : Int64} {ls ls' : List Line} {ps : List Piece} (hw : t.wide? = some w)
    (halign : IsBelow (2 ^ 31) t.abi.stackAlignment)
    (hreach : ∀ spAdj, IsBelow frameLimit spAdj → t.InReach q spAdj)
    (hslots : ∀ σ ∈ saved, σ.reg.HasSlot) (hshort : ls.length < 2 ^ 28)
    (hlines : ∀ l ∈ ls, l.inst.IsReady ∧ ∀ o ∈ l.inst.operands, o.IsSmall)
    (hgrown : Line.Grows (t.Emits w saved index) n ls ls') (h : Walks t w q block 0 ls' spAdj ps) :
    ∀ x ∈ ps, x.inst.leftover? = none := by
  -- markers are those of the function, and each moves the stack pointer by a limited amount
  have hmarkers : ls'.countP Line.isMarker ≤ 2 ^ 28 := by
    rw [hgrown.countP_eq Line.isMarker fun l hl _ => (hl.isReady hw hslots).2]
    exact List.countP_le_length.trans (Nat.le_of_lt hshort)
  have hroom : (0 : Int64).toInt.natAbs + 2 ^ 32 * ls'.countP Line.isMarker < frameLimit := by
    have hmul := Nat.mul_le_mul_left (2 ^ 32) hmarkers
    exact Nat.lt_of_le_of_lt (Nat.add_le_add_left hmul _) (by decide)
  refine h.leftover? hw (fun l hl => ?_) (fun l hl m hm => ?_) hreach (by decide) hroom
  · rcases hgrown.mem_cases hl with hl | hl
    · exact (hlines l hl).1
    · exact (hl.isReady hw hslots).1
  · rcases hgrown.mem_cases hl with hl | hl
    · exact natAbs_delta_le hw halign (hlines l hl).2 hm
    · exact absurd hm (not_callFrame (hl.isReady hw hslots).2)

/-- Without blocks there is no place for a prologue. -/
theorem blocks_ne_nil_of_insertFrame {g q : Procedure}
    (hlayout : t.computeLayout (t.insertSpillCode (t.planned p)) = .ok () g)
    (hinsert : t.insertFrame g = .ok () q) : p.blocks ≠ [] := by
  intro hnil
  obtain ⟨_, _, hprologue, -⟩ := insertFrame_cases hinsert
  obtain ⟨_, -, hblocks, -⟩ := of_emitPrologue hprologue
  refine hblocks (List.length_eq_zero_iff.1 ?_)
  obtain ⟨layout, rfl⟩ := computeLayout_shape hlayout
  show (t.insertSpillCode (t.planned p)).blocks.length = 0
  rw [(grows_insertSpillCode (t := t) .arm (t.planned p) 0).1.length, blocks_planned, hnil]
  rfl

/-- All objects of a small function are in reach once the layout is there, whatever code is put
between its lines. -/
theorem inReach_of_computeLayout {g : Procedure} (hwide : t.abi.thumb1Only = false)
    (halign : IsBelow (2 ^ 31) t.abi.stackAlignment) (hfresh : p.layout = {}) (hp : p.IsSmall)
    (hlayout : t.computeLayout (t.insertSpillCode (t.planned p)) = .ok () g)
    (blocks : List Block) (fresh : Nat) (offsetAdjustment : Int64) :
    ∀ spAdj, IsBelow frameLimit spAdj → t.InReach { g with
      blocks
      fresh
      frame := { (t.planned p).frame with offsetAdjustment } } spAdj := by
  intro spAdj hadj
  have hframe := isLimited_planned hp halign
  -- for the layout it does not matter which instructions store the registers
  obtain ⟨-, blocks', fresh', hspill⟩ := grows_insertSpillCode (t := t) .arm (t.planned p) 0
  rw [hspill] at hlayout
  have hfew : (t.planned p).frame.saved.length ≤ 26 := by
    rw [saved_planned]
    exact length_savedSlots_le
  have hlimited : g.layout.IsLimited (frameLimit + frameLimit) :=
    isLimited_computeLayout (p := { t.planned p with blocks := blocks', fresh := fresh' }) hframe
      (isLimited_layout_planned hwide hfresh _ (by decide)) hfew (by decide) (by decide) hlayout
  exact inReach_of_isLimited ⟨hframe.size, hframe.offset⟩ hlimited hadj (by decide)

/-- With all stages behind it a function is lowered if verification accepts it. -/
theorem lower_of_insertFrame {g q : Procedure} (hwide : t.abi.thumb1Only = false)
    (hblocks : p.blocks ≠ []) (hlayout : t.computeLayout (t.insertSpillCode (t.planned p)) = .ok () g)
    (hinsert : t.insertFrame g = .ok () q) (hverify : q.verify = .ok ()) :
    (t.lower p).failure = none ∧ (t.lower p).proc = q := by
  rw [lower, if_neg (Bool.eq_false_iff.1 hwide), if_neg hblocks, lowerBlocks]
  change t.computeLayout (t.insertSpillCode (t.placeFrame (t.assignSlots _))) = _ at hlayout
  simp only [hlayout, hinsert, hverify]
  exact ⟨trivial, trivial⟩

end

/-- Whenever the stages of lowering up to the elimination walk succeed for a small function,
verification accepts the result: no frame index and no marker is left, and every immediate
fits its field. So the function is lowered. -/
theorem verify_of_insertFrame {t : Target} {p g q : Procedure} (hwide : t.abi.thumb1Only = false)
    (halign : IsBelow (2 ^ 31) t.abi.stackAlignment) (hfresh : p.layout = {}) (hp : p.IsSmall)
    (hready : ∀ i ∈ p.insts, i.IsReady)
    (hlayout : t.computeLayout (t.insertSpillCode (t.planned p)) = .ok () g)
    (hinsert : t.insertFrame g = .ok () q) :
    q.verify = .ok () ∧ (t.lower p).failure = none ∧ (t.lower p).proc = q := by
  obtain ⟨w, hw⟩ := exists_wide hwide
  obtain ⟨m, hgrown, hm, hwalks⟩ := exists_grows_of_insertFrame hw hlayout hinsert
  have hslots : ∀ σ ∈ (t.planned p).frame.saved, σ.reg.HasSlot := by
    intro σ hσ
    rw [saved_planned] at hσ
    exact isSavedRow_savedSlots.hasSlot hσ
  -- the walk changes neither the frame nor the layout
  have hreach : ∀ spAdj, IsBelow frameLimit spAdj → t.InReach q spAdj := by
    obtain ⟨_, _, rfl⟩ := hwalks.shape
    obtain ⟨_, _, _, rfl⟩ := hm
    exact inReach_of_computeLayout hwide halign hfresh hp hlayout _ _ _
  have hverify : q.verify = .ok () := by
    refine Procedure.verify_eq_ok_iff.2 fun k b hb l hl => ?_
    have hk : k < m.blocks.length := by
      rw [← hwalks.length]
      exact (List.getElem?_eq_some_iff.1 hb).1
    have hb' := List.getElem?_eq_getElem hk
    obtain ⟨n, spAdj, ps, -, hwalk, hblock⟩ := hwalks.walks k (List.mem_range.2 hk) _ hb'
    have hlines := hgrown.lines k
    generalize m.blocks[k] = b' at hb' hwalk hblock
    have hnew : m.lines k = b'.lines := by rw [Procedure.lines, hb']
    have hold : (t.planned p).lines k = p.lines k := by
      rw [Procedure.lines, Procedure.lines, blocks_planned]
    rw [hnew, hold] at hlines
    have hclean := leftover?_of_grows hw halign hreach hslots (hp.length_lines_lt k)
      (fun l hl => ⟨hready _ (p.inst_mem_insts hl), hp.immediates _ (p.inst_mem_insts hl)⟩) hlines hwalk
    obtain rfl := Option.some.inj (hb.symm.trans hblock)
    have hinst : l.inst ∈ ps.map Piece.inst := by
      rw [← Piece.map_inst_number n]
      exact List.mem_map_of_mem hl
    obtain ⟨x, hx, heq⟩ := List.mem_map.1 hinst
    exact heq ▸ hclean x hx
  have hblocks := blocks_ne_nil_of_insertFrame hlayout hinsert
  exact ⟨hverify, lower_of_insertFrame hwide hblocks hlayout hinsert hverify⟩

/-- Whether a stage succeeds, and in a state of which `P` holds, is decided by running it. -/
instance {ε σ : Type} (r : EStateM.Result ε σ Unit) (P : σ → Prop) [DecidablePred P] :
    Decidable (∃ s, r = .ok () s ∧ P s) :=
  match r with
  | .error _ _ => isFalse fun ⟨_, heq, _⟩ => nomatch heq
  | .ok () s => decidable_of_iff (P s)
      ⟨fun h => ⟨s, rfl, h⟩, fun ⟨_, heq, h⟩ => by cases heq; exact h⟩

/-- Two objects whose alignments take up the whole range of offsets. -/
def coarseObjects : Procedure where
  name := "f"
  blocks := [{
    lines := [
      ⟨0, .make .addri [.use (.core 0), .frameIndex 0, .imm 0, .cond .al, .use .noreg]⟩,
      ⟨1, .make .bxRet [.cond .al, .use .noreg]⟩] }]
  frame := { objects := [{ size := 4, align := 2 ^ 62 }, { size := 4, align := 2 ^ 62 }] }
  fresh := 2

/-- All stages up to verification succeed on it, and its code is not accepted: the first object
ends up at the least integer from the stack pointer, which no check of a magnitude keeps out. -/
theorem verify_coarseObjects :
    (∀ i ∈ coarseObjects.insts, i.IsReady ∧ ∀ o ∈ i.operands, o.IsSmall) ∧
      (∀ o ∈ coarseObjects.frame.objects, IsBelow (2 ^ 31) o.size ∧ IsBelow (2 ^ 31) o.offset) ∧
      ∃ q, (plainDefault.computeLayout >>= fun _ => plainDefault.insertFrame)
          (plainDefault.insertSpillCode (plainDefault.planned coarseObjects)) = .ok () q ∧
        ¬q.verify = .ok () := by
  decide +kernel

/-- A function that saves `r4` and reaches a large object while a call frame is set up. -/
def callsWithLocal : Procedure where
  name := "f"
  blocks := [{
    lines := [
      ⟨0, .make .movr [.use (.core 4), .use (.core 0), .cond .al, .use .noreg]⟩,
      ⟨1, .make .callFrameDown [.imm 8, .cond .al, .use .noreg]⟩,
      ⟨2, .make .str [.use (.core 4), .frameIndex 0, .use .noreg, .imm 2, .cond .al, .use .noreg]⟩,
      ⟨3, .make .callFrameUp [.imm 8, .imm 0, .cond .al, .use .noreg]⟩,
      ⟨4, .make .bxRet [.cond .al, .use .noreg]⟩] }]
  frame := { objects := [{ size := 5000, align := 8 }], hasVarSized := true }
  fresh := 5

theorem verify_of_insertFrame_callsWithLocal :
    callsWithLocal.IsSmall ∧ (∀ i ∈ callsWithLocal.insts, i.IsReady) ∧
      ∃ g q, plainDefault.computeLayout
          (plainDefault.insertSpillCode (plainDefault.planned callsWithLocal)) = .ok () g ∧
        plainDefault.insertFrame g = .ok () q ∧
        q.verify = .ok () ∧ (plainDefault.lower callsWithLocal).failure = none ∧
          (plainDefault.lower callsWithLocal).proc = q := by
  have hsmall : callsWithLocal.IsSmall := by decide +kernel
  have hready : ∀ i ∈ callsWithLocal.insts, i.IsReady := by decide +kernel
  have hstages : ∃ q, (plainDefault.computeLayout >>= fun _ => plainDefault.insertFrame)
      (plainDefault.insertSpillCode (plainDefault.planned callsWithLocal)) = .ok () q ∧ True := by
    decide +kernel
  obtain ⟨q, hrun, -⟩ := hstages
  obtain ⟨_, g, hlayout, hinsert⟩ := Lowering.of_bind hrun
  exact ⟨hsmall, hready, g, q, hlayout, hinsert,
    verify_of_insertFrame rfl (by decide) rfl hsmall hready hlayout hinsert⟩

end Target

end FrameLowering
