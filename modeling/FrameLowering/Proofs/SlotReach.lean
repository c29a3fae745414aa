import FrameLowering.Proofs.BorrowedRegister
import FrameLowering.Proofs.ObjectAddresses
import FrameLowering.Proofs.SaveDistance
import FrameLowering.Proofs.ScratchHeadroom
import FrameLowering.Proofs.WordAlignment

/-!
# The reach of the scavenging slot

A borrowed register is stored to the scavenging slot and loaded again, which should take no other
register. The store and the load have an immediate of their own (`WideSet.HasReach`), and the slot
is where the frame is accessed from: right below the saved registers if there is a frame pointer,
and at the bottom of the frame otherwise. So with a frame pointer it is always in reach. From the
stack pointer it is in reach where no call frame is open, unless alignments are large; an open call
frame pushes it out of reach (`spills_through_r12_crowded`). The main theorem is
`foldsWhole_iff_of_visits`.
-/

namespace FrameLowering

/-! ## Immediates of stores and loads -/

/-- Offsets that the store and the load of a core register take: twelve bits up and down, or on
Thumb-2 twelve bits up and eight bits down. -/
def WideSet.HasReach (w : WideSet) (v : Int64) : Prop :=
  ImmediateField.magnitude v ≤ if w = .thumb2 ∧ v < 0 then 255 else 4095

instance (w : WideSet) (v : Int64) : Decidable (w.HasReach v) :=
  inferInstanceAs (Decidable (_ ≤ _))

theorem IsNear.hasReach {v : Int64} (h : IsNear v) (w : WideSet) : w.HasReach v := by
  obtain ⟨hmag, hneg⟩ := h.magnitude
  rw [WideSet.HasReach, Int64.le_iff_toInt_le]
  split
  · next hdown => exact hneg hdown.2
  · exact hmag

/-- Bits above a mask of low bits are left of an integer that is too large for the mask. -/
theorem and_not_mask_ne_zero {v m : Int64} {bits : Nat} (hm : m.toBitVec.toNat = 2 ^ bits - 1)
    (hbits : bits < 63) (h : ¬ v ≤ m) : v &&& ~~~m ≠ 0 := by
  intro hzero
  have hbv : v.toBitVec &&& ~~~m.toBitVec = 0#64 := congrArg Int64.toBitVec hzero
  have hlow : v.toBitVec = v.toBitVec &&& m.toBitVec := by
    ext i hi
    have hbit := congrArg (fun x : BitVec 64 => x[i]) hbv
    simp only [BitVec.getElem_and, BitVec.getElem_not, BitVec.getElem_zero] at hbit ⊢
    grind
  have hle : v.toBitVec.toNat ≤ m.toBitVec.toNat := by
    rw [hlow, BitVec.toNat_and]
    exact Nat.and_le_right
  have hsmall : m.toBitVec.toNat < 2 ^ 63 := by
    have := Nat.pow_lt_pow_right (a := 2) (by decide) hbits
    omega
  rw [Int64.le_iff_toInt_le, ← Int64.toInt_toBitVec, ← Int64.toInt_toBitVec,
    BitVec.toInt_eq_toNat_of_lt (by omega), BitVec.toInt_eq_toNat_of_lt (by omega)] at h
  omega

/-- A field takes a whole offset exactly if the offset is not too large. -/
theorem ImmediateField.split_eq_zero_iff {f : ImmediateField} {offset : Int64}
    (hkind : f.kind ≠ .rotated) (hscale : f.scale = 1) (hbits : f.bits < 63)
    (hmask : f.mask.toBitVec.toNat = 2 ^ f.bits - 1) :
    (f.split offset).2 = 0 ↔ magnitude offset ≤ f.maxOffset := by
  have hmax : f.maxOffset = f.mask * f.scale := if_neg hkind
  rw [hscale, Int64.mul_one] at hmax
  rw [split]
  dsimp only
  split
  · next h => exact ⟨fun _ => h, fun _ => rfl⟩
  · next h =>
    refine ⟨fun hrest => ?_, fun hle => absurd hle h⟩
    rw [hmax] at h
    refine absurd ?_ (and_not_mask_ne_zero hmask hbits h)
    rw [hscale, Int64.mul_one] at hrest
    split at hrest
    · exact (Int64.neg_neg).symm.trans (congrArg (fun x => -x) hrest)
    · exact hrest

/-- What is left of an offset after it was folded into an access that is otherwise at its base. -/
theorem Inst.rest_foldMemory_of_zero {i : Inst} {position : Nat} {base : Reg} {v : Int64}
    (hfold : i.info.family.isFoldable) (hposition : i.info.family.field.position = some position)
    (hzero : i.operands[1 + position]? = some (.imm 0))
    (hdecode : i.info.family.field.decode 0 = 0) (hscale : i.info.family.field.scale = 1)
    (hkind : (i.orient v).info.family.field.kind ≠ .absent)
    (hsign : (i.orient v).info.family.field.kind = .unsigned → ¬ v < 0) :
    (i.foldMemory 1 base v).rest = .ok ((i.orient v).info.family.field.split v).2 := by
  have hone : v % 1 = 0 := by
    apply Int64.toInt_inj.1
    rw [Int64.toInt_mod]
    exact Int.tmod_one _
  have hinfo : ((i.orient v).setOperand 1 (.use base)).info = (i.orient v).info := rfl
  simp only [foldMemory, hfold, hposition, hzero, hdecode, Int64.add_zero, ne_eq, hscale, hone,
    not_true_eq_false, if_false, foldOffset, hinfo]
  cases hk : (i.orient v).info.family.field.kind with
  | absent => exact absurd hk hkind
  | unsigned => simp only [if_neg (hsign hk)]
  | _ => rfl

namespace WideSet

/-- The family of a store to a slot whose opcode suits the sign of the offset. -/
def slotFamily : WideSet → Int64 → Family
  | .arm, _ => .mode2
  | .thumb2, v => if v < 0 then .t2i8 else .t2i12

section
variable {w : WideSet} {n : Fin 16} {index v : Int64}

theorem slotFamily_facts (w : WideSet) (v : Int64) :
    (w.slotFamily v).field.kind ≠ .absent ∧ (w.slotFamily v).field.kind ≠ .rotated ∧
      ((w.slotFamily v).field.kind = .unsigned → ¬ v < 0) ∧ (w.slotFamily v).field.scale = 1 ∧
      (w.slotFamily v).field.bits < 63 ∧
      (w.slotFamily v).field.mask.toBitVec.toNat = 2 ^ (w.slotFamily v).field.bits - 1 ∧
      (w.slotFamily v).field.maxOffset = if w = .thumb2 ∧ v < 0 then 255 else 4095 := by
  cases w with
  | arm =>
    rw [if_neg (by simp)]
    refine ⟨?_, ?_, fun h => ?_, rfl, ?_, ?_, ?_⟩
    · exact FieldKind.noConfusion
    · exact FieldKind.noConfusion
    · cases h
    all_goals
      simp only [slotFamily]
      decide
  | thumb2 =>
    by_cases hv : v < 0
    · simp only [slotFamily, hv, if_true, true_and, not_true_eq_false]
      decide
    · simp only [slotFamily, hv, if_false, and_false, not_false_eq_true]
      decide

theorem orient_storeToSlot :
    ((w.set.storeToSlot (.core n) index).orient v).info.family = w.slotFamily v := by
  cases w with
  | arm =>
    show (Inst.orient ⟨.str, _⟩ v).info.family = .mode2
    rw [Inst.orient, if_neg (by simp [Inst.info, Opcode.info, Opcode.storeInfo, Family.field])]
    rfl
  | thumb2 =>
    show (Inst.orient ⟨.t2stri12, _⟩ v).info.family = if v < 0 then .t2i8 else .t2i12
    rw [Inst.orient]
    by_cases hv : v < 0
    · rw [if_pos hv, if_pos (by simp [hv, Inst.info, Opcode.info, Opcode.storeInfo, Family.field])]
      rfl
    · rw [if_neg hv, if_neg (by simp [hv])]
      rfl

/-- A store to a slot is made with a zero in its immediate. -/
theorem storeToSlot_facts (w : WideSet) (n : Fin 16) (index : Int64) :
    ∃ position, (w.set.storeToSlot (.core n) index).op ≠ w.add ∧
      (w.set.storeToSlot (.core n) index).info.family.isFoldable ∧
      (w.set.storeToSlot (.core n) index).info.family.field.position = some position ∧
      (w.set.storeToSlot (.core n) index).operands[1 + position]? = some (.imm 0) ∧
      (w.set.storeToSlot (.core n) index).info.family.field.decode 0 = 0 ∧
      (w.set.storeToSlot (.core n) index).info.family.field.scale = 1 := by
  have hdecode (m : Family) : m.field.decode 0 = 0 := by cases m <;> decide
  cases w with
  | arm => exact ⟨2, Opcode.noConfusion, rfl, rfl, rfl, hdecode .mode2, rfl⟩
  | thumb2 => exact ⟨1, Opcode.noConfusion, rfl, rfl, rfl, hdecode .t2i12, rfl⟩

end

end WideSet

/-- The store of a register takes exactly the offsets in its reach. -/
theorem Target.rest_fold_storeToSlot_iff {t : Target} {w : WideSet} {n : Fin 16} {index : Int64}
    {a : Address} :
    (t.fold w (w.set.storeToSlot (.core n) index) 1 a).rest = .ok 0 ↔ w.HasReach a.offset := by
  obtain ⟨base, v⟩ := a
  obtain ⟨hpresent, hplain, hup, hscale, hbits, hmask, hmax⟩ := w.slotFamily_facts v
  have hfold : (t.fold w (w.set.storeToSlot (.core n) index) 1 ⟨base, v⟩).rest =
      .ok ((w.slotFamily v).field.split v).2 := by
    rw [← WideSet.orient_storeToSlot (w := w) (n := n) (v := v)] at hpresent hup ⊢
    obtain ⟨position, hop, hfoldable, hposition, hzero, hdecode, hone⟩ :=
      w.storeToSlot_facts n index
    rw [fold, if_neg hop]
    exact Inst.rest_foldMemory_of_zero hfoldable hposition hzero hdecode hone hpresent hup
  rw [hfold, Except.ok.injEq, ImmediateField.split_eq_zero_iff hplain hscale hbits hmask, hmax,
    WideSet.HasReach]

/-- A slot is accessed without a remainder exactly if its address is in reach. -/
theorem Target.foldsWhole_storeToSlot_iff {t : Target} {w : WideSet} {p : Procedure} {k : Nat}
    {n : Fin 16} {index spAdj : Int64} {o : FrameObject} {a : Address}
    (ho : p.frame.object? index = some o) (ha : t.address p index o spAdj = .ok a) :
    t.FoldsWhole w p k (w.set.storeToSlot (.core n) index) spAdj ↔ w.HasReach a.offset := by
  rw [foldsWhole_iff (w.isSlotAccess_storeToSlot (.inl ⟨n, rfl⟩) index)]
  constructor
  · rintro ⟨o', a', ho', ha', hfits⟩
    obtain rfl := Option.some.inj (ho.symm.trans ho')
    obtain rfl := Except.ok.inj (ha.symm.trans ha')
    exact rest_fold_storeToSlot_iff.1 hfits
  · intro hreach
    exact ⟨o, a, ho, ha, rest_fold_storeToSlot_iff.2 hreach⟩

/-! ## Where the slot is -/

namespace Placement

/-- An object that is placed begins where the bytes that are taken end. -/
theorem offset_place {s : Placement} {i : Int64} {o : FrameObject}
    (ho : (s.place i).frame.object? i = some o) : o.offset = -(s.place i).depth := by
  rw [place] at ho ⊢
  cases hi : s.frame.object? i with
  | none => simp [hi] at ho
  | some q =>
    simp only [hi, Frame.object?_modify, if_true, Option.map_some, Option.some.injEq] at ho ⊢
    rw [← ho]

end Placement

namespace Target

section
variable {t : Target} {p : Procedure} {o : FrameObject}

/-- Without a frame pointer the slot is at the bottom of the objects. -/
theorem offset_of_last (hpointer : t.hasPointer p = false)
    (ho : (t.placeFrame p).frame.object? p.frame.scavengingIndex = some o) :
    o.offset = -(t.placeObjects p).depth := by
  have horder : t.placementOrder p = localIndices p.frame ++ [p.frame.scavengingIndex] := by
    rw [placementOrder, if_neg (by simp [hpointer])]
  have hlast : t.placeObjects p = ((localIndices p.frame).foldl Placement.place
      (packedPlacement p)).place p.frame.scavengingIndex := by
    rw [placeObjects_eq, horder, List.foldl_append]
    rfl
  change (t.placeObjects p).frame.object? p.frame.scavengingIndex = some o at ho
  rw [hlast] at ho ⊢
  exact Placement.offset_place ho

/-- With a frame pointer it is right below the slots of saved registers. -/
theorem offset_of_first (hpointer : t.hasPointer p)
    (ho : (t.placeFrame p).frame.object? p.frame.scavengingIndex = some o) :
    o.offset = -alignTo ((packedPlacement p).depth + o.size) o.align := by
  have horder : t.placementOrder p = p.frame.scavengingIndex :: localIndices p.frame := by
    rw [placementOrder, if_pos hpointer]
  have hout : p.frame.scavengingIndex ∉ localIndices p.frame := by
    intro hmem
    obtain ⟨e, he, heq⟩ := List.mem_map.1 hmem
    simp [heq] at he
  change (t.placeObjects p).frame.object? p.frame.scavengingIndex = some o at ho
  rw [placeObjects_eq, horder, List.foldl_cons, (Placement.foldl_place_facts _ _).2 _ hout] at ho
  cases hq : (packedPlacement p).frame.object? p.frame.scavengingIndex with
  | none => simp [Placement.place, hq] at ho
  | some q =>
    rw [Placement.offset_place ho]
    simp only [Placement.place, hq] at ho ⊢
    rw [Frame.object?_modify, if_pos rfl, hq] at ho
    obtain rfl := Option.some.inj ho
    rfl

/-- The outgoing arguments are reserved only if there are few of them. -/
theorem argumentDepth_eq_add (hargs : 0 ≤ p.frame.maxCallFrameSize.toInt) :
    ∃ v : Int64, t.argumentDepth p = (t.placeObjects p).depth + v ∧
      0 ≤ v.toInt ∧ v.toInt ≤ 2046 := by
  rw [argumentDepth]
  split
  · next hreserves =>
    refine ⟨_, rfl, hargs, ?_⟩
    simp only [reservesCallFrame, Bool.and_eq_true, decide_eq_true_eq,
      Int64.lt_iff_toInt_lt] at hreserves
    have hlimit : (defaultOffsetLimit / 2).toInt = 2047 := by decide
    omega
  · exact ⟨0, (Int64.add_zero _).symm, by decide, by decide⟩

/-- The alignment of the frame is bounded by those of the stack and of the objects. -/
theorem toInt_frameAlign_le {align : Int64} (hstack : t.abi.stackAlignment ≤ 1024)
    (halign : align ≤ 1024) : 0 < (max t.abi.stackAlignment align).toInt ∧
      (max t.abi.stackAlignment align).toInt ≤ 1024 := by
  have hpos : 0 < t.abi.stackAlignment.toInt := by
    obtain ⟨k, hk⟩ := t.isPower_stackAlignment
    have hpower := Nat.two_pow_pos k
    omega
  rw [Int64.le_iff_toInt_le] at hstack halign
  show 0 < (if t.abi.stackAlignment ≤ align then align else t.abi.stackAlignment).toInt ∧
    (if t.abi.stackAlignment ≤ align then align else t.abi.stackAlignment).toInt ≤ 1024
  split
  · next hle =>
    rw [Int64.le_iff_toInt_le] at hle
    exact ⟨by omega, halign⟩
  · exact ⟨hpos, hstack⟩

/-- How far the bottom of the objects is from that of the frame. -/
theorem stackSize_sub_depth (hargs : 0 ≤ p.frame.maxCallFrameSize.toInt)
    (hstack : t.abi.stackAlignment ≤ 1024) (halign : (t.placeObjects p).maxAlign ≤ 1024) :
    0 ≤ (-(t.placeObjects p).depth + (t.placeFrame p).frame.stackSize).toInt ∧
      (-(t.placeObjects p).depth + (t.placeFrame p).frame.stackSize).toInt ≤ 4092 := by
  obtain ⟨hpos, hmax⟩ := toInt_frameAlign_le hstack halign
  obtain ⟨v, hv, hlo, hhi⟩ := argumentDepth_eq_add (t := t) hargs
  have hsize : (t.placeFrame p).frame.stackSize = if p.frame.hasCalls || p.frame.hasVarSized then
      alignTo (t.argumentDepth p) (max t.abi.stackAlignment (t.placeObjects p).maxAlign)
      else t.argumentDepth p := rfl
  generalize max t.abi.stackAlignment (t.placeObjects p).maxAlign = a at hpos hmax hsize
  obtain ⟨hplo, hphi⟩ := toInt_alignTo_sub (n := t.argumentDepth p) hpos (by omega)
  rw [hsize]
  split
  · have hsum : -(t.placeObjects p).depth + alignTo (t.argumentDepth p) a =
        v + (alignTo (t.argumentDepth p) a - t.argumentDepth p) := by
      rw [hv]
      grind
    rw [hsum, toInt_add_of_range (by omega) (by omega)]
    omega
  · have hsum : -(t.placeObjects p).depth + t.argumentDepth p = v := by
      rw [hv]
      grind
    rw [hsum]
    omega

end

/-! ## When frame indices are replaced -/

/-- What a function keeps of its planned frame, as far as the scavenging slot is concerned. -/
structure KeepsSlot (t : Target) (p q : Procedure) : Prop where
  frame : ∃ offsetAdjustment, q.frame = { (t.planned p).frame with offsetAdjustment }
  outside : q.layout.area (t.planned p).frame.scavengingIndex = .outside
  pointer : t.hasPointer q = t.needsPointer p
  saved : t.needsPointer p → ∃ σ ∈ (t.planned p).frame.saved, ∃ o,
    (t.planned p).frame.object? σ.index = some o ∧
      q.layout.fpSpillOffset = o.offset + (t.planned p).frame.stackSize

section
variable {t : Target} {w : WideSet} {p m q : Procedure} {k : Nat} {v : Visit} {n : Fin 16}
  {o : FrameObject} {spAdj : Int64}

/-- The decision on the frame pointer stays in the layout. -/
theorem hasPointer_of_sameChoice (hp : p.IsUnplanned)
    (hq : (t.planned p).layout.SameChoice q.layout) : t.hasPointer q = t.needsPointer p := by
  obtain ⟨⟨_, _, _, hlayout⟩, -⟩ :=
    layout_finalizeSpillSet t t.config.scavenging (isUnplanned_decidePointer t hp).unframed
  obtain ⟨-, -, hreg, hdecided⟩ := hq
  change q.layout.framePointer = (t.finalizeSpillSet t.config.scavenging
    (t.decidePointer p.markUsed)).layout.framePointer at hreg
  change q.layout.hasFramePointer = (t.finalizeSpillSet t.config.scavenging
    (t.decidePointer p.markUsed)).layout.hasFramePointer at hdecided
  rw [hlayout] at hreg hdecided
  obtain ⟨x, hx⟩ := t.framePointer_core
  have hne : q.layout.framePointer ≠ .noreg := by
    rw [hreg]
    show t.framePointer ≠ .noreg
    rw [hx]
    exact Reg.noConfusion
  rw [hasPointer, if_pos hne, hdecided]
  rfl

theorem scavengingIndex_planned (t : Target) (p : Procedure) :
    (t.planned p).frame.scavengingIndex = (t.finalizeSpillSet t.config.scavenging
      (t.decidePointer p.markUsed)).frame.scavengingIndex := by
  obtain ⟨_, _, _, hplaced⟩ := t.placeFrame_frame (t.assignSlots (t.finalizeSpillSet
    t.config.scavenging (t.decidePointer p.markUsed)))
  rw [planned, hplaced]
  rfl

/-- A slot for scavenging is made only in a stack frame. -/
theorem hasStackFrame_of_slot (hw : t.wide? = some w) (hp : p.IsUnplanned)
    (hslot : (t.planned p).frame.scavengingIndex ≠ noIndex) :
    (t.planned p).layout.hasStackFrame := by
  rw [scavengingIndex_planned] at hslot
  show (t.finalizeSpillSet t.config.scavenging (t.decidePointer p.markUsed)).layout.hasStackFrame
  rcases finalizeSpillSet_cases_of_wide (p := t.decidePointer p.markUsed) t.config.scavenging
    (thumb1Only_of_wide hw) with ⟨-, hplan⟩ | ⟨-, -, hsame⟩
  · obtain ⟨_, _, _, hproc, -⟩ := t.planHeadroom_shape (t.decidePointer p.markUsed)
      t.config.scavenging
    rw [hplan, hproc]
  · rw [hsame] at hslot
    exact absurd hp.unscavenged hslot

/-- It is a word. -/
theorem exists_scavengingSlot (hp : p.IsUnplanned)
    (hcount : p.frame.objects.length + 27 < 2 ^ 63)
    (hslot : (t.planned p).frame.scavengingIndex ≠ noIndex) :
    ∃ o, (t.planned p).frame.object? (t.planned p).frame.scavengingIndex = some o ∧
      o.size = 4 ∧ o.align = 4 := by
  rw [scavengingIndex_planned] at hslot ⊢
  have hchosen : (t.assignSlots (t.finalizeSpillSet t.config.scavenging
      (t.decidePointer p.markUsed))).frame.object? (t.finalizeSpillSet t.config.scavenging
        (t.decidePointer p.markUsed)).frame.scavengingIndex = some scavengingSlot := by
    apply object?_assignSlots
    obtain ⟨_, _, frame, hchosen, hframe⟩ :=
      t.finalizeSpillSet_shape t.config.scavenging (t.decidePointer p.markUsed)
    rw [hchosen] at hslot ⊢
    rcases hframe with rfl | rfl
    · exact absurd hp.unscavenged hslot
    · show (withScavenging p.frame).object? (Int64.ofNat p.frame.objects.length) = _
      rw [Frame.object?_ofNat _ (by omega)]
      simp [withScavenging]
  have hmoves := (t.moves_placeObjects (t.assignSlots (t.finalizeSpillSet t.config.scavenging
    (t.decidePointer p.markUsed)))).objects (t.finalizeSpillSet t.config.scavenging
      (t.decidePointer p.markUsed)).frame.scavengingIndex
  rw [hchosen, Option.map_some, Option.map_eq_some_iff] at hmoves
  obtain ⟨o, ho, hsame⟩ := hmoves
  obtain ⟨size, align, _⟩ := o
  injection hsame with hsize halign
  exact ⟨_, ho, hsize, halign⟩

/-- Code that is inserted does not concern the slot. -/
theorem keepsSlot_of_prepared (h : t.prepared? p = some m) (hw : t.wide? = some w)
    (hp : p.IsUnplanned) (hcount : p.frame.objects.length + 27 < 2 ^ 63)
    (hslot : (t.planned p).frame.scavengingIndex ≠ noIndex) : t.KeepsSlot p m := by
  obtain ⟨g, m₀, hlayout, hprologue, hepilogues⟩ := prepared?_cases h
  obtain ⟨-, blocks, fresh, hspill⟩ := grows_insertSpillCode (t := t) .arm (t.planned p) 0
  rw [hspill] at hlayout
  obtain ⟨⟨layout, rfl, hchoice⟩, hgrouped, houtside⟩ :=
    computeLayout_facts hlayout (areas_planned hp) (nodup_index_planned hcount)
  obtain ⟨-, blocks₁, fresh₁, offsetAdjustment, rfl⟩ := grows_emitPrologue hw hprologue
  obtain ⟨-, blocks₂, fresh₂, rfl⟩ := grows_emitEpilogues [] 0 hw hepilogues
  have hpointer : t.hasPointer { t.planned p with blocks, fresh, layout } = t.needsPointer p :=
    hasPointer_of_sameChoice hp hchoice
  refine ⟨⟨offsetAdjustment, rfl⟩, houtside _ ?_, hpointer, fun hneeds => ?_⟩
  · show (t.planned p).frame.scavengingIndex ∉ (t.planned p).frame.saved.map SavedSlot.index
    have hlen := length_assignSlots_le t t.config.scavenging (t.decidePointer p.markUsed)
    rw [scavengingIndex_planned, saved_planned]
    exact scavengingIndex_notMem (isUnplanned_decidePointer t hp).unscavenged
      (Nat.lt_of_le_of_lt hlen hcount)
  · have hsets : t.setsPointer { t.planned p with blocks, fresh, layout } := by
      rw [setsPointer, hpointer, hneeds, Bool.or_true]
    obtain ⟨σ, hσ, -, -, o, ho, hspilled⟩ :=
      (hgrouped (hasStackFrame_of_slot hw hp hslot)).pointer hsets
    exact ⟨σ, hσ, o, ho, hspilled⟩

theorem KeepsSlot.of_visits (h : t.KeepsSlot p m) (hv : t.Visits m k v) (hw : t.wide? = some w) :
    t.KeepsSlot p v.function := by
  obtain ⟨⟨blocks, fresh, hshape⟩, -⟩ := hv.shape hw
  rw [hshape]
  exact ⟨h.frame, h.outside, h.pointer, h.saved⟩

/-- The depth at which the scavenging slot is put if there is a frame pointer. -/
theorem offset_of_pointer (hp : p.IsUnplanned) (hcount : p.frame.objects.length + 27 < 2 ^ 63)
    (hneeds : t.needsPointer p)
    (ho : (t.planned p).frame.object? (t.planned p).frame.scavengingIndex = some o)
    (hsize : o.size = 4) (halign : o.align = 4) :
    o.offset = -alignTo (alignTo p.fixedDepth 4 +
      Int64.ofNat (savedBytes (t.planned p).frame.saved) + 4) 4 := by
  have hlen := length_assignSlots_le t t.config.scavenging (t.decidePointer p.markUsed)
  rw [scavengingIndex_planned] at ho
  have hpointer : t.hasPointer (t.assignSlots (t.finalizeSpillSet t.config.scavenging
      (t.decidePointer p.markUsed))) = t.needsPointer p :=
    hasPointer_of_sameChoice hp ⟨rfl, rfl, rfl, rfl⟩
  rw [offset_of_first (hpointer.trans hneeds) ho, hsize, halign,
    (stacks_packed (Nat.lt_of_le_of_lt hlen hcount)).2.1, fixedDepth_finalizeSpillSet,
    saved_planned]

/-- The frame pointer is at the slot of a saved register, so that all slots are near. -/
theorem KeepsSlot.isNear (h : t.KeepsSlot p q) (hp : p.IsUnplanned)
    (hcount : p.frame.objects.length + 27 < 2 ^ 63) (hneeds : t.needsPointer p)
    (ho : (t.planned p).frame.object? (t.planned p).frame.scavengingIndex = some o)
    (hsize : o.size = 4) (halign : o.align = 4) :
    IsNear (o.offset + (t.planned p).frame.stackSize - q.layout.fpSpillOffset) := by
  obtain ⟨σ, hσ, oσ, hoσ, hspill⟩ := h.saved hneeds
  obtain ⟨pre, post, hsplit⟩ := List.append_of_mem hσ
  have hstacks := stacks_planned (t := t) hp hcount
  rw [hsplit] at hstacks
  obtain ⟨oσ', hoσ', -, hoffset⟩ := hstacks.split
  obtain rfl := Option.some.inj (hoσ.symm.trans hoσ')
  have hfew := savedBytes_savedSlots_le (t := t)
    (p := t.finalizeSpillSet t.config.scavenging (t.decidePointer p.markUsed))
  have hslot := offset_of_pointer hp hcount hneeds ho hsize halign
  rw [← saved_planned] at hfew
  rw [hsplit, savedBytes_append, savedBytes_cons] at hfew hslot
  generalize alignTo p.fixedDepth 4 = depth at hslot hoffset
  generalize hx : depth + Int64.ofNat (savedBytes pre + (σ.bytes + savedBytes post)) + 4 = x
    at hslot
  obtain ⟨hlo, hhi⟩ := toInt_alignTo_sub (n := x) (a := 4) (by decide) (by decide)
  -- what is between the two slots, the rest of the saved registers and the padding
  have hdistance : o.offset + (t.planned p).frame.stackSize - q.layout.fpSpillOffset =
      -((alignTo x 4 - x) + Int64.ofNat (savedBytes post + 4)) := by
    rw [hslot, hspill, hoffset, Int64.ofNat_add, Int64.ofNat_add, ← hx, Int64.ofNat_add,
      Int64.ofNat_add]
    grind
  have hbytes : (Int64.ofNat (savedBytes post + 4)).toInt = savedBytes post + 4 :=
    Int64.toInt_ofNat_of_lt (by omega)
  have hfour : (4 : Int64).toInt = 4 := rfl
  have hsum : ((alignTo x 4 - x) + Int64.ofNat (savedBytes post + 4)).toInt =
      (alignTo x 4 - x).toInt + (savedBytes post + 4) := by
    rw [toInt_add_of_range (by omega) (by omega), hbytes]
  rw [IsNear, hdistance, toInt_neg_of_range (by omega), hsum]
  omega

/-- A register is stored to the slot without a remainder exactly if there is a frame pointer, or the
slot is in reach from where the stack pointer is. -/
theorem KeepsSlot.foldsWhole_iff (h : t.KeepsSlot p q) (hp : p.IsUnplanned)
    (hcount : p.frame.objects.length + 27 < 2 ^ 63)
    (ho : (t.planned p).frame.object? (t.planned p).frame.scavengingIndex = some o)
    (hsize : o.size = 4) (halign : o.align = 4) :
    t.FoldsWhole w q k (w.set.storeToSlot (.core n) q.frame.scavengingIndex) spAdj ↔
      t.needsPointer p ∨ w.HasReach (o.offset + (t.planned p).frame.stackSize + spAdj) := by
  obtain ⟨offsetAdjustment, hframe⟩ := h.frame
  have hindex : q.frame.scavengingIndex = (t.planned p).frame.scavengingIndex := by rw [hframe]
  have hobject : q.frame.object? (t.planned p).frame.scavengingIndex = some o := by
    rw [hframe]
    exact ho
  rw [hindex]
  cases hneeds : t.needsPointer p with
  | true =>
    have ha : t.address q (t.planned p).frame.scavengingIndex o spAdj = .ok ⟨t.framePointer,
        o.offset + (t.planned p).frame.stackSize - q.layout.fpSpillOffset⟩ := by
      rw [address, h.outside, if_neg (by simp), h.pointer, hneeds, hframe]
      rfl
    have hnear := h.isNear hp hcount hneeds ho hsize halign
    rw [foldsWhole_storeToSlot_iff hobject ha]
    exact ⟨fun _ => .inl rfl, fun _ => hnear.hasReach w⟩
  | false =>
    have ha : t.address q (t.planned p).frame.scavengingIndex o spAdj = .ok ⟨Reg.sp,
        o.offset + (t.planned p).frame.stackSize + spAdj⟩ := by
      rw [address, h.outside, if_neg (by simp), h.pointer, hneeds, hframe]
      rfl
    rw [foldsWhole_storeToSlot_iff hobject ha]
    exact ⟨.inr, fun h => h.resolve_left Bool.false_ne_true⟩

/-- Where no call frame is open the slot is in reach, unless alignments are large. -/
theorem isNear_of_closed (hp : p.IsUnplanned) (hneeds : t.needsPointer p = false)
    (ho : (t.planned p).frame.object? (t.planned p).frame.scavengingIndex = some o)
    (hargs : 0 ≤ p.frame.maxCallFrameSize.toInt) (hstack : t.abi.stackAlignment ≤ 1024)
    (haligns : ∀ o ∈ p.frame.objects ++ p.frame.fixed, o.align ≤ 1024) :
    IsNear (o.offset + (t.planned p).frame.stackSize) := by
  rw [List.forall_mem_append] at haligns
  rw [scavengingIndex_planned] at ho
  have hpointer : t.hasPointer (t.assignSlots (t.finalizeSpillSet t.config.scavenging
      (t.decidePointer p.markUsed))) = t.needsPointer p :=
    hasPointer_of_sameChoice hp ⟨rfl, rfl, rfl, rfl⟩
  have hargs' : 0 ≤ (t.assignSlots (t.finalizeSpillSet t.config.scavenging
      (t.decidePointer p.markUsed))).frame.maxCallFrameSize.toInt := by
    obtain ⟨_, _, hframe⟩ :=
      t.frame_finalizeSpillSet t.config.scavenging (t.decidePointer p.markUsed)
    rw [assignSlots_frame, hframe]
    exact hargs
  have hmost : (t.placeObjects (t.assignSlots (t.finalizeSpillSet t.config.scavenging
      (t.decidePointer p.markUsed)))).maxAlign ≤ 1024 := by
    refine (allAlign_placeObjects (P := (· ≤ 1024)) (by decide) fun j q hq => ?_).align
    refine forall_object_assignSlots (P := fun o => o.align ≤ 1024) haligns.1 haligns.2 ?_ ?_ hq
    · decide
    · intro cs
      show (t.savedClass cs.reg).size ≤ 1024
      cases t.savedClass cs.reg
      all_goals decide
  obtain ⟨hlo, hhi⟩ := stackSize_sub_depth hargs' hstack hmost
  rw [offset_of_last (hpointer.trans hneeds) ho]
  exact ⟨Int.le_trans (by decide) hlo, Int.le_trans hhi (by decide)⟩

end

section
variable {t : Target} {w : WideSet} {p : Procedure} {block : Nat} {i : Inst} {rest : List Inst}
  {spAdj : Int64} {r : Rebased} {b : Borrow}

/-- A slot out of reach is accessed through `r12`, or not at all. -/
theorem Borrows.through_r12 (h : t.Borrows w p block i rest spAdj r b) (hw : t.wide? = some w)
    (hfar : ¬ t.FoldsWhole w p block b.spill spAdj)
    (hok : (t.expandBorrowed w p block r b spAdj).failure = none) :
    b.reg ≠ Reg.r12 ∧ ∃ spill reload, t.rebase w p block b.spill spAdj = .ok spill ∧
      spill.rest ≠ 0 ∧ t.rebase w p block b.reload spAdj = .ok reload ∧ reload.rest ≠ 0 ∧
      t.expandBorrowed w p block r b spAdj =
        ⟨spill.chain w Reg.r12 ++ spill.through Reg.r12 :: r.chain w b.reg, r.through b.reg,
          reload.chain w Reg.r12 ++ [reload.through Reg.r12], none⟩ := by
  obtain ⟨n, hn, hstore, hload, -⟩ := h.cases hw
  have hfar' : ¬ t.FoldsWhole w p block b.reload spAdj := by
    rw [hload, ← foldsWhole_slot_iff, ← hstore]
    exact hfar
  rw [expandBorrowed] at hok ⊢
  cases hf : (t.expandDirect w p block b.spill spAdj).failure with
  | some f => simp [hf] at hok
  | none =>
    simp only [hf] at hok ⊢
    obtain ⟨spill, hspill, hcase⟩ := expandDirect_cases rfl hf
    obtain ⟨reload, hreload, hcase'⟩ := expandDirect_cases rfl hok
    rcases hcase with ⟨hrest, -⟩ | ⟨hrest, hrefers, hbefore, hinst⟩
    · exact absurd ⟨spill, hspill, hrest⟩ hfar
    rcases hcase' with ⟨hrest', -⟩ | ⟨hrest', -, hbefore', hinst'⟩
    · exact absurd ⟨reload, hreload, hrest'⟩ hfar'
    refine ⟨fun hsame => ?_, spill, reload, hspill, hrest, hreload, hrest', ?_⟩
    · -- the store names the register that is borrowed
      apply ((isScratch_r12 hrefers).of_rebase hspill).unnamed
      obtain ⟨_, _, hzero⟩ :=
        (w.isSlotAccess_storeToSlot (.inl ⟨n, rfl⟩) p.frame.scavengingIndex).register
      rw [hstore, ← hsame, hn]
      exact Inst.refers_of_operand hzero Reg.noConfusion
    · rw [hbefore, hinst, hbefore', hinst', hok]

end

/-- Wherever the walk borrows a register, its store and its load are rewritten in place exactly if
there is a frame pointer or the scavenging slot is in reach from the stack pointer, with the call
frames that are open there. Then nothing fails and no register but the borrowed one is used.
Otherwise both go through `r12`, or the walk fails, as it does if `r12` is what is borrowed. While
no call frame is open the slot is in reach, if no alignment is above 1024. -/
theorem foldsWhole_iff_of_visits {t : Target} {w : WideSet} {p m : Procedure} {k : Nat} {v : Visit}
    {r : Rebased} {b : Borrow} (hw : t.wide? = some w) (hscavenging : t.config.scavenging)
    (hp : p.IsUnplanned) (hcount : p.frame.objects.length + 27 < 2 ^ 63)
    (hslot : (t.planned p).frame.scavengingIndex ≠ noIndex) (hm : t.prepared? p = some m)
    (hv : t.Visits m k v)
    (hb : t.Borrows w v.function k v.line.inst (v.after.map Line.inst) v.spAdj r b) :
    ∃ o, (t.planned p).frame.object? (t.planned p).frame.scavengingIndex = some o ∧
      (t.FoldsWhole w v.function k b.spill v.spAdj ↔ t.needsPointer p ∨
        w.HasReach (o.offset + (t.planned p).frame.stackSize + v.spAdj)) ∧
      (t.FoldsWhole w v.function k b.reload v.spAdj ↔
        t.FoldsWhole w v.function k b.spill v.spAdj) ∧
      (t.FoldsWhole w v.function k b.spill v.spAdj → ∃ spill reload,
        t.rebase w v.function k b.spill v.spAdj = .ok spill ∧ spill.rest = 0 ∧
        t.rebase w v.function k b.reload v.spAdj = .ok reload ∧ reload.rest = 0 ∧
        t.expand v.function k v.line.inst (v.after.map Line.inst) v.spAdj t.config.scavenging =
          ⟨spill.inst :: r.chain w b.reg, r.through b.reg, [reload.inst], none⟩) ∧
      (¬ t.FoldsWhole w v.function k b.spill v.spAdj →
        (t.expand v.function k v.line.inst (v.after.map Line.inst) v.spAdj
          t.config.scavenging).failure = none →
        b.reg ≠ Reg.r12 ∧ ∃ spill reload,
          t.rebase w v.function k b.spill v.spAdj = .ok spill ∧ spill.rest ≠ 0 ∧
          t.rebase w v.function k b.reload v.spAdj = .ok reload ∧ reload.rest ≠ 0 ∧
          t.expand v.function k v.line.inst (v.after.map Line.inst) v.spAdj t.config.scavenging =
            ⟨spill.chain w Reg.r12 ++ spill.through Reg.r12 :: r.chain w b.reg, r.through b.reg,
              reload.chain w Reg.r12 ++ [reload.through Reg.r12], none⟩) ∧
      (v.spAdj = 0 → 0 ≤ p.frame.maxCallFrameSize.toInt → t.abi.stackAlignment ≤ 1024 →
        (∀ o ∈ p.frame.objects ++ p.frame.fixed, o.align ≤ 1024) →
        t.FoldsWhole w v.function k b.spill v.spAdj) := by
  obtain ⟨o, ho, hsize, halign⟩ := exists_scavengingSlot hp hcount hslot
  have hkeeps := (keepsSlot_of_prepared hm hw hp hcount hslot).of_visits hv hw
  obtain ⟨n, -, hspill, hreload, -⟩ := hb.cases hw
  have hreach : t.FoldsWhole w v.function k b.spill v.spAdj ↔ t.needsPointer p ∨
      w.HasReach (o.offset + (t.planned p).frame.stackSize + v.spAdj) := by
    rw [hspill]
    exact hkeeps.foldsWhole_iff hp hcount ho hsize halign
  rw [hscavenging, hb.expand_eq hw]
  refine ⟨o, ho, hreach, ?_, hb.expandBorrowed_eq hw, hb.through_r12 hw, ?_⟩
  · rw [hspill, hreload, foldsWhole_slot_iff]
  · intro hclosed hargs hstack haligns
    rw [hreach, hclosed, Int64.add_zero]
    cases hneeds : t.needsPointer p with
    | true => exact .inl rfl
    | false => exact .inr ((isNear_of_closed hp hneeds ho hargs hstack haligns).hasReach w)

/-! ## A slot in reach, and one that is not -/

deriving instance DecidableEq for Stuck, Rebased

/-- An addition that is out of reach by itself. -/
def farSum : Line :=
  ⟨10, .make .addri [.use (.core 12), .frameIndex 0, .imm 4100, .cond .al, .use .noreg]⟩

/-- The function `crowded` with that addition and without the call. -/
def roomy : Procedure :=
  { crowded with
    blocks := [{ lines := (crowded.lines 0).take 9 ++ farSum :: (crowded.lines 0).drop 12 }]
    frame := { crowded.frame with maxCallFrameSize := 0 } }

/-- A function when its frame indices are to be replaced, if it gets there. -/
def preparedOf (p : Procedure) : Procedure :=
  (plainDefault.prepared? p).getD p

/-- The walk through the first block of a function comes to line `n`, which is `l`, after it has
counted `spAdj` bytes; there `r.rest` is left to add, and `lr` is borrowed for it. -/
def LendsLink (p : Procedure) (n : Nat) (l : Line) (spAdj : Int64) (r : Rebased) : Prop :=
  (preparedOf p).lines 0 = ((preparedOf p).lines 0).take n ++
    l :: ((preparedOf p).lines 0).drop (n + 1) ∧
  plainDefault.openFrame (preparedOf p) (((preparedOf p).lines 0).take n) = spAdj ∧
  plainDefault.rebase .arm (preparedOf p) 0 l.inst spAdj = .ok r ∧ r.rest ≠ 0 ∧
  plainDefault.freeScratch? (preparedOf p)
    ⟨0, r.inst, (((preparedOf p).lines 0).drop (n + 1)).map Line.inst⟩ = none ∧
  plainDefault.borrow (preparedOf p)
    ⟨0, r.inst, (((preparedOf p).lines 0).drop (n + 1)).map Line.inst⟩ .gpr =
      .ok (plainDefault.lend (preparedOf p) Reg.lr)

instance (p : Procedure) (n : Nat) (l : Line) (spAdj : Int64) (r : Rebased) :
    Decidable (LendsLink p n l spAdj r) :=
  inferInstanceAs (Decidable (_ ∧ _))

theorem LendsLink.exists_borrows {p : Procedure} {n : Nat} {l : Line} {spAdj : Int64} {r : Rebased}
    (h : LendsLink p n l spAdj r) (hok : (plainDefault.lower p).failure = none) :
    plainDefault.prepared? p = some (preparedOf p) ∧ ∃ v, plainDefault.Visits (preparedOf p) 0 v ∧
      v.function = preparedOf p ∧ v.line = l ∧ v.spAdj = spAdj ∧
      v.after = ((preparedOf p).lines 0).drop (n + 1) ∧
      plainDefault.Borrows .arm v.function 0 v.line.inst (v.after.map Line.inst) v.spAdj r
        (plainDefault.lend (preparedOf p) Reg.lr) := by
  obtain ⟨hlines, hopen, hrebased, hleft, hbusy, hlent⟩ := h
  obtain ⟨m, hm, hreplace⟩ := exists_prepared_of_lower hok
  have hcode : preparedOf p = m := by rw [preparedOf, hm, Option.getD_some]
  rw [hcode] at hlines hopen hrebased hbusy hlent ⊢
  have hw : plainDefault.wide? = some .arm := rfl
  obtain ⟨v, hv, hbefore, hline, hafter⟩ := exists_visit hw hreplace hlines
  have hfunction : v.function = m := (EStateM.Result.ok.inj hv.reached).2.symm
  have hcount : v.spAdj = spAdj := by rw [hv.spAdj_eq hw, hbefore, hopen]
  refine ⟨hm, v, hv, hfunction, hline, hcount, hafter, ?_⟩
  rw [hfunction, hline, hafter, hcount]
  exact ⟨hrebased, hleft, hbusy, hlent⟩

/-- What is left to add for the addition in `roomy`. -/
def farSum.rebased : Rebased :=
  ⟨⟨.addri, [.reg (.core 12) true false, .use Reg.sp, .imm 8, .cond .al, .use .noreg]⟩, 1, Reg.sp,
    4096⟩

theorem foldsWhole_iff_of_visits_roomy : ∃ m v r b, plainDefault.prepared? roomy = some m ∧
    plainDefault.Visits m 0 v ∧ v.line = farSum ∧ b.reg ≠ Reg.r12 ∧
    plainDefault.Borrows .arm v.function 0 v.line.inst (v.after.map Line.inst) v.spAdj r b ∧
    plainDefault.FoldsWhole .arm v.function 0 b.spill v.spAdj ∧ ∃ spill reload,
      plainDefault.rebase .arm v.function 0 b.spill v.spAdj = .ok spill ∧
      plainDefault.rebase .arm v.function 0 b.reload v.spAdj = .ok reload ∧
      plainDefault.expand v.function 0 v.line.inst (v.after.map Line.inst) v.spAdj true =
        ⟨spill.inst :: r.chain .arm b.reg, r.through b.reg, [reload.inst], none⟩ := by
  have hlends : LendsLink roomy 21 farSum 0 farSum.rebased := by decide +kernel
  have hok : (plainDefault.lower roomy).failure = none := by decide +kernel
  have hslot : (plainDefault.planned roomy).frame.scavengingIndex ≠ noIndex := by decide +kernel
  have hlr : Reg.lr ≠ Reg.r12 := by decide
  obtain ⟨hm, v, hv, -, hline, hcount, -, hborrows⟩ := hlends.exists_borrows hok
  obtain ⟨o, -, -, -, hplaced, -, hreach⟩ := foldsWhole_iff_of_visits rfl rfl ⟨rfl, rfl, rfl, rfl⟩
    (by decide) hslot hm hv hborrows
  have hfolds := hreach hcount (by decide) (by decide) (by decide)
  obtain ⟨spill, reload, hspill, -, hreload, -, hexpand⟩ := hplaced hfolds
  exact ⟨_, v, _, _, hm, hv, hline, hlr, hborrows, hfolds, spill, reload, hspill, hreload,
    hexpand⟩

/-- What is left to add for the addition in `crowded`, in the call frame. -/
def sumLine.rebased : Rebased :=
  ⟨⟨.addri, [.reg (.core 12) true false, .use Reg.sp, .imm 844, .cond .al, .use .noreg]⟩, 1, Reg.sp,
    7168⟩

/-- In an open call frame the slot is 8008 bytes from the stack pointer. Both the store of the
borrowed register and its load go through `r12`, which is the register that the addition defines. -/
theorem spills_through_r12_crowded : ∃ m v r b, plainDefault.prepared? crowded = some m ∧
    plainDefault.Visits m 0 v ∧ v.line = sumLine ∧ v.spAdj = 8008 ∧
    plainDefault.Borrows .arm v.function 0 v.line.inst (v.after.map Line.inst) v.spAdj r b ∧
    ¬ plainDefault.FoldsWhole .arm v.function 0 b.spill v.spAdj ∧
    ¬ plainDefault.FoldsWhole .arm v.function 0 b.reload v.spAdj ∧
    (plainDefault.expand v.function 0 v.line.inst (v.after.map Line.inst) v.spAdj true).after =
      (loweredSum.drop 1).map Line.inst := by
  have hlends : LendsLink crowded 22 sumLine 8008 sumLine.rebased := by decide +kernel
  have hfar (i : Inst) (h : (plainDefault.rebase .arm (preparedOf crowded) 0 i 8008).toOption.any
      (·.rest ≠ 0)) : ¬ plainDefault.FoldsWhole .arm (preparedOf crowded) 0 i 8008 := by
    rintro ⟨r, hr, hrest⟩
    simp [hr, hrest, Except.toOption] at h
  obtain ⟨hm, v, hv, hfunction, hline, hcount, hafter, hborrows⟩ :=
    hlends.exists_borrows lowered_crowded.1
  refine ⟨_, v, _, _, hm, hv, hline, hcount, hborrows, ?_⟩
  rw [hfunction, hcount, hline, hafter]
  refine ⟨hfar _ ?_, hfar _ ?_, ?_⟩ <;> decide +kernel

end Target

end FrameLowering
