import FrameLowering.Proofs.SavedAreas
import FrameLowering.Proofs.SpillChoice

/-!
# Slots and offsets of a frame

A slot is made for each spilled register, after the objects that there are, and all slots
and objects are placed. The slots tile the top of the frame, the objects keep their indices,
and the scavenging slot is apart from the slots of saved registers as long as offsets do not
get out of hand.
-/

namespace FrameLowering

open ImmediateField (word)

theorem ImmediateField.toNat_word (v : Int64) : ((word v).toNat : Int) = v.toInt % 2 ^ 32 := by
  have hint := BitVec.toInt_eq_toNat_cond v.toBitVec
  rw [Int64.toInt_toBitVec] at hint
  have hlt := v.toBitVec.isLt
  rw [word, BitVec.toNat_setWidth]
  split at hint <;> omega

/-- Ranges of bytes at offsets from a common address that do not meet. -/
theorem Memory.not_within_of_apart {base c : Word} {a b : Int64} {m n : Nat}
    (hab : b.toInt + n ≤ a.toInt) (hwrap : a.toInt + m ≤ b.toInt + 2 ^ 32)
    (h : Within (base + word a) m c) : ¬ Within (base + word b) n c := by
  have hsum : c - (base + word b) = c - (base + word a) + (word a - word b) := by bv_omega
  have ha := ImmediateField.toNat_word a
  have hb := ImmediateField.toNat_word b
  rw [Within] at h ⊢
  rw [hsum]
  generalize c - (base + word a) = x at h ⊢
  rw [BitVec.toNat_add, BitVec.toNat_sub]
  have := (word a).isLt
  have := (word b).isLt
  omega

/-- Sizes and alignments that a frame of moderate size can have. -/
def FrameObject.IsModerate (o : FrameObject) : Prop :=
  0 ≤ o.size.toInt ∧ o.size.toInt < 2 ^ 31 ∧ 0 < o.align.toInt ∧ o.align.toInt ≤ 2 ^ 62

/-- An alignment is a power of two, so that there is room above it. -/
theorem FrameObject.isModerate_of_isShape {o : FrameObject} (h : Frame.isShape o.size o.align)
    (hsize : o.size.toInt < 2 ^ 31) : o.IsModerate := by
  simp only [Frame.isShape, Bool.and_eq_true, decide_eq_true_eq, Int64.le_iff_toInt_le,
    Int64.lt_iff_toInt_lt, Int64.toInt_zero] at h
  obtain ⟨⟨hlo, hpos⟩, hpow⟩ := h
  refine ⟨hlo, hsize, hpos, ?_⟩
  by_contra hbig
  -- Above that, the alignment and the number before it have their second highest bit in common.
  have hint := BitVec.toInt_eq_toNat_cond o.align.toBitVec
  rw [Int64.toInt_toBitVec] at hint
  have hlt := o.align.toBitVec.isLt
  have hbv : o.align.toBitVec &&& (o.align.toBitVec - 1#64) = 0#64 := congrArg Int64.toBitVec hpow
  have hbit := congrArg (fun x : BitVec 64 => x.getLsbD 62) hbv
  have hone : o.align.toBitVec.getLsbD 62 = true := by
    rw [BitVec.getLsbD, Nat.testBit_eq_decide_div_mod_eq, decide_eq_true_eq]
    split at hint <;> omega
  have hbefore : (o.align.toBitVec - 1#64).getLsbD 62 = true := by
    rw [BitVec.getLsbD, Nat.testBit_eq_decide_div_mod_eq, decide_eq_true_eq, BitVec.toNat_sub]
    simp only [BitVec.toNat_ofNat]
    split at hint <;> omega
  simp only [BitVec.getLsbD_and, hone, hbefore, BitVec.getLsbD_zero] at hbit
  cases hbit

namespace Target

section
variable {t : Target} {p : Procedure}

/-- The slots that are made for spilled registers. -/
def savedSlots (t : Target) (p : Procedure) : List SavedSlot :=
  (t.spilledSaved p).zipIdx.map fun e =>
    ⟨e.1.reg, Int64.ofNat (p.frame.objects.length + e.2), e.1.area⟩

theorem savedSlots_map {α : Type} (g : Reg → Area → α) :
    (t.savedSlots p).map (fun σ => g σ.reg σ.area) =
      (t.spilledSaved p).map fun cs => g cs.reg cs.area := by
  have hfst : ((t.spilledSaved p).zipIdx.map Prod.fst) = t.spilledSaved p := List.zipIdx_map_fst _ _
  rw [savedSlots, List.map_map]
  conv => rhs; rw [← hfst, List.map_map]
  rfl

theorem mem_savedSlots {σ : SavedSlot} (h : σ ∈ t.savedSlots p) :
    ∃ cs ∈ t.spilledSaved p, ∃ k, cs.reg = σ.reg ∧ cs.area = σ.area ∧
      (t.spilledSaved p)[k]? = some cs ∧ σ.index = Int64.ofNat (p.frame.objects.length + k) := by
  obtain ⟨⟨cs, k⟩, hmem, rfl⟩ := List.mem_map.1 h
  have hk := List.mk_mem_zipIdx_iff_getElem?.1 hmem
  exact ⟨cs, List.mem_of_getElem? hk, k, rfl, rfl, hk, rfl⟩

theorem isSavedRow_savedSlots : t.IsSavedRow (t.savedSlots p) := by
  refine ⟨fun σ hσ => ?_, ?_, ?_⟩
  · obtain ⟨cs, hcs, -, hreg, harea, -⟩ := mem_savedSlots hσ
    exact ⟨cs, (List.mem_filter.1 hcs).1, hreg, harea⟩
  · have hmap := savedSlots_map (t := t) (p := p) fun r _ => r
    rw [hmap]
    exact t.nodup_calleeSaved.sublist (List.filter_sublist.map _)
  · have hpair : ((t.spilledSaved p).map fun cs => cs.area).Pairwise
        fun a b => a.code ≤ b.code := by
      rw [List.pairwise_map]
      exact t.pairwise_calleeSaved.sublist List.filter_sublist
    have hmap := savedSlots_map (t := t) (p := p) fun _ a => a
    rw [← hmap, List.pairwise_map] at hpair
    exact hpair

/-- A callee-saved register has a slot if it is spilled. -/
theorem isSpilled_iff_mem {cs : CalleeSaved} (hcs : cs ∈ t.calleeSaved) :
    p.layout.isSpilled cs.reg ↔ ∃ σ ∈ t.savedSlots p, σ.reg = cs.reg := by
  have hmap := savedSlots_map (t := t) (p := p) fun r _ => r
  have hmem : (∃ σ ∈ t.savedSlots p, σ.reg = cs.reg) ↔
      cs.reg ∈ (t.spilledSaved p).map fun cs => cs.reg := by
    rw [← hmap, List.mem_map]
  rw [hmem, List.mem_map]
  constructor
  · intro h
    exact ⟨cs, List.mem_filter.2 ⟨hcs, h⟩, rfl⟩
  · rintro ⟨x, hx, heq⟩
    rw [← heq]
    exact (List.mem_filter.1 hx).2

theorem length_savedSlots_le : (t.savedSlots p).length ≤ 26 :=
  isSavedRow_savedSlots.length_total_le

theorem savedBytes_savedSlots_le : savedBytes (t.savedSlots p) ≤ 136 :=
  isSavedRow_savedSlots.savedBytes_le

theorem length_assignSlots : (t.assignSlots p).frame.objects.length =
    p.frame.objects.length + (t.spilledSaved p).length := by
  simp [assignSlots]

/-- There are few callee-saved registers, so slots for them do not exhaust the indices. -/
theorem length_assignSlots_lt (hlen : p.frame.objects.length < 2 ^ 31) :
    (t.assignSlots p).frame.objects.length < 2 ^ 63 := by
  have hle := length_savedSlots_le (t := t) (p := p)
  rw [savedSlots, List.length_map, List.length_zipIdx] at hle
  rw [length_assignSlots]
  omega

/-- The indices of the slots come after those of the objects. -/
theorem index_savedSlots {σ : SavedSlot}
    (hlen : (t.assignSlots p).frame.objects.length < 2 ^ 63) (h : σ ∈ t.savedSlots p) :
    ∃ n, σ.index = Int64.ofNat n ∧ p.frame.objects.length ≤ n ∧ n < 2 ^ 63 := by
  obtain ⟨cs, -, k, -, -, hk, hindex⟩ := mem_savedSlots h
  obtain ⟨hlt, -⟩ := List.getElem?_eq_some_iff.1 hk
  rw [length_assignSlots] at hlen
  exact ⟨_, hindex, by omega, by omega⟩

theorem ofNat_inj {m n : Nat} (hm : m < 2 ^ 63) (hn : n < 2 ^ 63)
    (h : Int64.ofNat m = Int64.ofNat n) : m = n := by
  have := congrArg Int64.toInt h
  rw [Int64.toInt_ofNat_of_lt hm, Int64.toInt_ofNat_of_lt hn] at this
  omega

/-- The slots have the indices after those of the objects. -/
theorem map_index_savedSlots : (t.savedSlots p).map SavedSlot.index =
    (List.range' 0 (t.spilledSaved p).length).map fun k =>
      Int64.ofNat (p.frame.objects.length + k) := by
  rw [← List.zipIdx_map_snd, List.map_map, savedSlots, List.map_map]
  rfl

theorem nodup_index_of_length (hlen : (t.assignSlots p).frame.objects.length < 2 ^ 63) :
    ((t.savedSlots p).map SavedSlot.index).Nodup := by
  rw [length_assignSlots] at hlen
  rw [map_index_savedSlots]
  refine List.Nodup.map_on ?_ List.nodup_range'
  intro m hm n hn h
  have hm' := (List.mem_range'_1.1 hm).2
  have hn' := (List.mem_range'_1.1 hn).2
  have := ofNat_inj (by omega) (by omega) h
  omega

/-! ## The frame before placement -/

theorem assignSlots_frame : (t.assignSlots p).frame = { p.frame with
    objects := p.frame.objects ++ (t.spilledSaved p).map t.slotFor
    saved := t.savedSlots p } := rfl

/-- Objects keep their indices when slots are made. -/
theorem object?_assignSlots {j : Int64} {o : FrameObject} (h : p.frame.object? j = some o) :
    (t.assignSlots p).frame.object? j = some o := by
  rw [Frame.object?] at h ⊢
  split at h
  · next hj =>
    rw [if_pos hj, assignSlots_frame, List.getElem?_append_left]
    · exact h
    · exact (List.getElem?_eq_some_iff.1 h).1
  · next hj =>
    rw [if_neg hj]
    exact h

/-- Objects that there were have other indices than the slots. -/
theorem notMem_index_of_length (hlen : (t.assignSlots p).frame.objects.length < 2 ^ 63) {j : Int64}
    (hj : j < 0 ∨ ∃ o, p.frame.object? j = some o) :
    j ∉ (t.savedSlots p).map SavedSlot.index := by
  intro hmem
  obtain ⟨σ, hσ, rfl⟩ := List.mem_map.1 hmem
  obtain ⟨n, hn, hle, hlt⟩ := index_savedSlots hlen hσ
  rw [hn] at hj
  obtain ⟨hnonneg, -⟩ := Frame.position_ofNat hlt
  rcases hj with hneg | ⟨o, ho⟩
  · exact absurd hnonneg (Int64.not_le.2 hneg)
  · rw [p.frame.object?_ofNat hlt] at ho
    have := (List.getElem?_eq_some_iff.1 ho).1
    omega

/-- The size of a slot is that of its register, on Thumb-1 too. -/
theorem size_slotFor_eq {cs : CalleeSaved} (hcs : cs ∈ t.calleeSaved) :
    (t.slotFor cs).size = Int64.ofNat (4 * cs.reg.cells.length) := by
  show (t.savedClass cs.reg).size = _
  rcases hasSlot_of_mem_calleeSaved hcs with ⟨n, hn⟩ | ⟨n, hn⟩
  · rw [hn]
    show (if t.abi.thumb1Only && (Reg.core n).isLow then RegClass.tgpr else .gpr).size = _
    split
    · rfl
    · rfl
  · rw [hn]
    rfl

/-- A slot is one or two words, and is aligned like them. -/
theorem isModerate_slotFor {cs : CalleeSaved} (hcs : cs ∈ t.calleeSaved) :
    (t.slotFor cs).IsModerate := by
  have halign : (t.slotFor cs).align = (t.slotFor cs).size := rfl
  rw [FrameObject.IsModerate, halign, size_slotFor_eq hcs]
  rcases hasSlot_of_mem_calleeSaved hcs with ⟨n, hn⟩ | ⟨n, hn⟩
  · have hone : cs.reg.cells.length = 1 := by rw [hn]; rfl
    rw [hone]
    decide
  · have htwo : cs.reg.cells.length = 2 := by rw [hn]; rfl
    rw [htwo]
    decide

/-- A slot is one of the objects once it is made. -/
theorem object?_slot (hlen : (t.assignSlots p).frame.objects.length < 2 ^ 63) {σ : SavedSlot}
    (h : σ ∈ t.savedSlots p) :
    ∃ o, (t.assignSlots p).frame.object? σ.index = some o ∧ o.size = Int64.ofNat σ.bytes := by
  obtain ⟨cs, hcs, k, hreg, -, hk, hindex⟩ := mem_savedSlots h
  obtain ⟨hlt, -⟩ := List.getElem?_eq_some_iff.1 hk
  rw [length_assignSlots] at hlen
  refine ⟨t.slotFor cs, ?_, ?_⟩
  · rw [hindex, Frame.object?_ofNat _ (by omega), assignSlots_frame,
      List.getElem?_append_right (by omega), Nat.add_sub_cancel_left, List.getElem?_map, hk]
    rfl
  · rw [size_slotFor_eq (List.mem_filter.1 hcs).1, hreg, SavedSlot.bytes]

/-- The index of a slot stands for an object. -/
theorem index_ne_noIndex (hlen : (t.assignSlots p).frame.objects.length < 2 ^ 63) {σ : SavedSlot}
    (hσ : σ ∈ t.savedSlots p) : σ.index ≠ noIndex := by
  intro hno
  obtain ⟨n, hn, -, hlt⟩ := index_savedSlots hlen hσ
  have hnonneg := (Frame.position_ofNat hlt).1
  rw [← hn, hno] at hnonneg
  exact absurd hnonneg (by decide)

/-- A register that is spilled has a slot if it is preserved. -/
theorem exists_slot_of_isSpilled {r : Reg} (hr : t.isCalleeSaved r)
    (hspilled : p.layout.isSpilled r) : ∃ σ ∈ t.savedSlots p, σ.reg = r := by
  obtain ⟨cs, hcs, hreg⟩ := List.any_eq_true.1 hr
  rw [← of_decide_eq_true hreg] at hspilled ⊢
  exact (isSpilled_iff_mem hcs).1 hspilled

theorem fixedDepth_eq_zero (h : ∀ o ∈ p.frame.fixed, 0 ≤ o.offset) : p.fixedDepth = 0 := by
  rw [Procedure.fixedDepth]
  generalize p.frame.fixed = os at h
  induction os with
  | nil => rfl
  | cons o os ih =>
    have ho := h o List.mem_cons_self
    have hstep : ¬ (0 : Int64) < -o.offset := by
      rw [Int64.le_iff_toInt_le, Int64.toInt_zero] at ho
      rw [Int64.lt_iff_toInt_lt, Int64.toInt_zero, toInt_neg_of_range (by omega)]
      omega
    rw [List.foldl_cons, if_neg hstep]
    exact ih fun q hq => h q (List.mem_cons_of_mem _ hq)

/-! ## The frame after placement -/

/-- What is taken before anything is placed. -/
def startPlacement (p : Procedure) : Placement :=
  { frame := p.frame, depth := alignTo p.fixedDepth 4 }

/-- The slots of saved registers in their places. -/
def packedPlacement (p : Procedure) : Placement :=
  p.frame.saved.foldl Placement.pack (startPlacement p)

theorem placeObjects_eq (t : Target) (p : Procedure) :
    t.placeObjects p = (t.placementOrder p).foldl Placement.place (packedPlacement p) := rfl

theorem moves_packedPlacement (p : Procedure) : p.frame.Moves (packedPlacement p).frame :=
  Placement.moves_foldl_pack (startPlacement p) _

theorem moves_placeObjects (t : Target) (p : Procedure) :
    p.frame.Moves (t.placeObjects p).frame :=
  (moves_packedPlacement p).trans (Placement.foldl_place_facts _ _).1

/-- Placement changes the offsets of objects and the size of the frame only. -/
theorem placeFrame_frame (t : Target) (p : Procedure) : ∃ objects fixed stackSize,
    (t.placeFrame p).frame = { p.frame with objects, fixed, stackSize } := by
  obtain ⟨objects, fixed, hplaced⟩ := (t.moves_placeObjects p).same
  exact ⟨objects, fixed, _, by rw [placeFrame, hplaced]⟩

theorem saved_placeFrame (t : Target) (p : Procedure) :
    (t.placeFrame (t.assignSlots p)).frame.saved = t.savedSlots p := by
  obtain ⟨_, _, _, hplaced⟩ := t.placeFrame_frame (t.assignSlots p)
  rw [hplaced]
  rfl

/-- The slots in their places, before anything else is placed. -/
theorem stacks_packed (hlen : (t.assignSlots p).frame.objects.length < 2 ^ 63) :
    (packedPlacement (t.assignSlots p)).frame.Stacks (alignTo p.fixedDepth 4) (t.savedSlots p) ∧
      (packedPlacement (t.assignSlots p)).depth =
        alignTo p.fixedDepth 4 + Int64.ofNat (savedBytes (t.savedSlots p)) ∧
      ∀ j, j ∉ (t.savedSlots p).map SavedSlot.index →
        (packedPlacement (t.assignSlots p)).frame.object? j = (t.assignSlots p).frame.object? j :=
  Placement.stacks_foldl_pack (s := startPlacement (t.assignSlots p))
    (fun _ hσ => object?_slot hlen hσ) (nodup_index_of_length hlen)

/-- Without fixed objects below the stack pointer, nothing is taken but the slots. -/
theorem depth_packed_of_fixed (hlen : (t.assignSlots p).frame.objects.length < 2 ^ 63)
    (hfixed : ∀ o ∈ p.frame.fixed, 0 ≤ o.offset) :
    (packedPlacement (t.assignSlots p)).depth.toInt = savedBytes (t.savedSlots p) := by
  have hbytes := savedBytes_savedSlots_le (t := t) (p := p)
  have hzero : (alignTo p.fixedDepth 4).toInt = 0 := by
    rw [fixedDepth_eq_zero hfixed]
    decide
  have hslots : (Int64.ofNat (savedBytes (t.savedSlots p))).toInt = savedBytes (t.savedSlots p) :=
    Int64.toInt_ofNat_of_lt (by omega)
  rw [(stacks_packed hlen).2.1, toInt_add_of_range (by omega) (by omega), hzero, hslots,
    Int.zero_add]

/-- Indices that are placed one by one are not those of the slots. -/
theorem notMem_placementOrder {σ : SavedSlot} (hσ : σ ∈ t.savedSlots p)
    (hscavenging : p.frame.scavengingIndex ∉ (t.savedSlots p).map SavedSlot.index) :
    σ.index ∉ t.placementOrder (t.assignSlots p) := by
  have hne : σ.index ≠ p.frame.scavengingIndex :=
    fun h => hscavenging (h ▸ List.mem_map_of_mem hσ)
  have hlocal : σ.index ∉ localIndices (t.assignSlots p).frame := by
    intro hmem
    obtain ⟨e, he, heq⟩ := List.mem_map.1 hmem
    obtain ⟨-, hkept⟩ := List.mem_filter.1 he
    have hsaved : ((t.assignSlots p).frame.saved.any fun s => s.index = e.1) = true :=
      List.any_eq_true.2 ⟨σ, hσ, decide_eq_true heq.symm⟩
    rw [hsaved] at hkept
    simp at hkept
  rw [placementOrder]
  split
  · rw [List.mem_cons, not_or]
    exact ⟨hne, hlocal⟩
  · rw [List.mem_append, not_or]
    exact ⟨hlocal, fun h => hne (List.mem_singleton.1 h)⟩

/-- Objects have different indices. -/
theorem nodup_indexed {f : Frame} (hlen : f.objects.length < 2 ^ 63) :
    (f.indexed.map Prod.fst).Nodup := by
  have heq : f.indexed.map Prod.fst = (List.range' 0 f.objects.length).map Int64.ofNat := by
    rw [← List.zipIdx_map_snd, List.map_map, Frame.indexed, List.map_map]
    rfl
  rw [heq]
  refine List.Nodup.map_on ?_ List.nodup_range'
  intro m hm n hn h
  have hm' := (List.mem_range'_1.1 hm).2
  have hn' := (List.mem_range'_1.1 hn).2
  exact ofNat_inj (by omega) (by omega) h

theorem nodup_placementOrder (hlen : (t.assignSlots p).frame.objects.length < 2 ^ 63) :
    (t.placementOrder (t.assignSlots p)).Nodup := by
  have hlocal : (localIndices (t.assignSlots p).frame).Nodup := by
    exact (nodup_indexed hlen).sublist (List.filter_sublist.map _)
  have hout : (t.assignSlots p).frame.scavengingIndex ∉ localIndices (t.assignSlots p).frame := by
    intro hmem
    obtain ⟨e, he, heq⟩ := List.mem_map.1 hmem
    obtain ⟨-, hkept⟩ := List.mem_filter.1 he
    simp [heq] at hkept
  rw [placementOrder]
  split
  · exact List.nodup_cons.2 ⟨hout, hlocal⟩
  · refine List.nodup_append.2 ⟨hlocal, List.nodup_singleton _, ?_⟩
    intro a ha b hb heq
    obtain rfl := List.mem_singleton.1 hb
    exact hout (heq ▸ ha)

/-- The slots begin where the fixed objects end. -/
theorem stacks_placeFrame (hlen : (t.assignSlots p).frame.objects.length < 2 ^ 63)
    (hscavenging : p.frame.scavengingIndex ∉ (t.savedSlots p).map SavedSlot.index) :
    (t.placeFrame (t.assignSlots p)).frame.Stacks (alignTo p.fixedDepth 4) (t.savedSlots p) := by
  refine (stacks_packed hlen).1.congr fun σ hσ => ?_
  exact (Placement.foldl_place_facts _ _).2 _ (notMem_placementOrder hσ hscavenging)

/-- Without fixed objects below the stack pointer the slots begin there. -/
theorem tiles_placeFrame (hlen : (t.assignSlots p).frame.objects.length < 2 ^ 63)
    (hscavenging : p.frame.scavengingIndex ∉ (t.savedSlots p).map SavedSlot.index)
    (hfixed : ∀ o ∈ p.frame.fixed, 0 ≤ o.offset) :
    (t.placeFrame (t.assignSlots p)).frame.Tiles 0 (t.savedSlots p) := by
  have hbytes := savedBytes_savedSlots_le (t := t) (p := p)
  refine (stacks_placeFrame hlen hscavenging).tiles ?_ (by omega)
  rw [fixedDepth_eq_zero hfixed]
  decide

/-- The scavenging slot is placed below the saved registers, as long as offsets are in range. -/
theorem offset_scavenging_le (hlen : (t.assignSlots p).frame.objects.length < 2 ^ 63)
    (hfixed : ∀ o ∈ p.frame.fixed, 0 ≤ o.offset)
    (hrange : ∀ j o, (t.placeObjects (t.assignSlots p)).frame.object? j = some o →
      -2 ^ 32 ≤ o.offset.toInt)
    (hshape : ∀ j o, (t.assignSlots p).frame.object? j = some o →
      j ∈ t.placementOrder (t.assignSlots p) → o.IsModerate) {o : FrameObject}
    (ho : (t.placeObjects (t.assignSlots p)).frame.object? p.frame.scavengingIndex = some o) :
    o.offset.toInt ≤ -(savedBytes (t.savedSlots p) + o.size.toInt) := by
  have hbytes := savedBytes_savedSlots_le (t := t) (p := p)
  have hdepth := depth_packed_of_fixed hlen hfixed
  have hmem : p.frame.scavengingIndex ∈ t.placementOrder (t.assignSlots p) := by
    rw [placementOrder]
    split
    · exact List.mem_cons_self
    · exact List.mem_append_right _ List.mem_cons_self
  have hmoderate : ∀ j o, (packedPlacement (t.assignSlots p)).frame.object? j = some o →
      j ∈ t.placementOrder (t.assignSlots p) → o.IsModerate := by
    intro j r hr hj
    obtain ⟨r', hr', hsize, halign⟩ := (moves_packedPlacement _).object hr
    rw [FrameObject.IsModerate, ← hsize, ← halign]
    exact hshape j r' hr' hj
  have hbelow := Placement.foldl_place_below (nodup_placementOrder hlen) (by omega) (by omega)
    hmoderate hrange _ hmem o ho
  omega

/-- With a frame pointer the scavenging slot is placed first, right below the saved registers. -/
theorem offset_scavenging_of_pointer (hlen : (t.assignSlots p).frame.objects.length < 2 ^ 63)
    (hfixed : ∀ o ∈ p.frame.fixed, 0 ≤ o.offset)
    (hscavenging : p.frame.scavengingIndex ∉ (t.savedSlots p).map SavedSlot.index)
    (hpointer : t.hasPointer p)
    (hslot : (t.assignSlots p).frame.object? p.frame.scavengingIndex = some scavengingSlot)
    {o : FrameObject}
    (ho : (t.placeObjects (t.assignSlots p)).frame.object? p.frame.scavengingIndex = some o) :
    o.offset.toInt ≤ -(savedBytes (t.savedSlots p) + 4 : Int) ∧
      -(savedBytes (t.savedSlots p) + 8 : Int) < o.offset.toInt := by
  have hbytes := savedBytes_savedSlots_le (t := t) (p := p)
  have hdepth := depth_packed_of_fixed hlen hfixed
  have horder : t.placementOrder (t.assignSlots p) =
      p.frame.scavengingIndex :: localIndices (t.assignSlots p).frame := if_pos hpointer
  have hnodup := nodup_placementOrder hlen
  rw [placeObjects_eq, horder] at ho
  rw [horder] at hnodup
  have hstays := ((stacks_packed hlen).2.2 _ hscavenging).trans hslot
  have hnext := Placement.foldl_place_first (List.nodup_cons.1 hnodup).1 (by omega) (by omega)
    ⟨by decide, by decide⟩ ⟨by decide, by decide⟩ hstays ho
  have hsize : scavengingSlot.size.toInt = 4 := by decide
  have halign : scavengingSlot.align.toInt = 4 := by decide
  omega

/-- The frame of a function after its slots and objects were placed. -/
structure Places (t : Target) (p q : Procedure) : Prop where
  shape : ∃ objects fixed stackSize, q = { p with
    frame := { p.frame with objects, fixed, stackSize, saved := t.savedSlots p } }
  tiles : q.frame.Tiles 0 (t.savedSlots p)
  moves : ∀ j o, q.frame.object? j = some o → ∃ o', (t.assignSlots p).frame.object? j = some o' ∧
    o'.size = o.size
  object : ∀ j o, p.frame.object? j = some o → ∃ o', q.frame.object? j = some o' ∧
    o'.size = o.size
  below : (∀ j o, q.frame.object? j = some o → -2 ^ 32 ≤ o.offset.toInt) →
    (∀ j o, (t.assignSlots p).frame.object? j = some o →
      j ∈ t.placementOrder (t.assignSlots p) → o.IsModerate) →
    ∀ o, q.frame.object? p.frame.scavengingIndex = some o →
      o.offset.toInt ≤ -(savedBytes (t.savedSlots p) + o.size.toInt)
  /-- With a frame pointer the scavenging slot is next to the saved registers. -/
  next : t.hasPointer p → (t.assignSlots p).frame.object? p.frame.scavengingIndex =
      some scavengingSlot → ∀ o, q.frame.object? p.frame.scavengingIndex = some o →
    o.offset.toInt ≤ -(savedBytes (t.savedSlots p) + 4 : Int) ∧
      -(savedBytes (t.savedSlots p) + 8 : Int) < o.offset.toInt

theorem places_placeFrame (hlen : (t.assignSlots p).frame.objects.length < 2 ^ 63)
    (hfixed : ∀ o ∈ p.frame.fixed, 0 ≤ o.offset)
    (hscavenging : p.frame.scavengingIndex ∉ (t.savedSlots p).map SavedSlot.index) :
    t.Places p (t.placeFrame (t.assignSlots p)) := by
  have hmoves := t.moves_placeObjects (t.assignSlots p)
  refine ⟨?_, tiles_placeFrame hlen hscavenging hfixed, ?_, ?_, ?_, ?_⟩
  · obtain ⟨objects, fixed, stackSize, hframe⟩ := t.placeFrame_frame (t.assignSlots p)
    refine ⟨objects, fixed, stackSize, ?_⟩
    show ({ t.assignSlots p with frame := (t.placeFrame (t.assignSlots p)).frame } : Procedure) = _
    rw [hframe]
    rfl
  · intro j o ho
    obtain ⟨o', ho', hsize, -⟩ := hmoves.object ho
    exact ⟨o', ho', hsize⟩
  · intro j o ho
    have hj := hmoves.objects j
    rw [object?_assignSlots ho, Option.map_some, Option.map_eq_some_iff] at hj
    obtain ⟨q, hq, heq⟩ := hj
    exact ⟨q, hq, (FrameObject.mk.inj heq).1⟩
  · intro hrange hshape o ho
    exact offset_scavenging_le hlen hfixed hrange hshape ho
  · intro hpointer hslot o ho
    exact offset_scavenging_of_pointer hlen hfixed hscavenging hpointer hslot ho

/-- A scavenging slot, if there is one, is among the objects. -/
structure HasScavenging (p : Procedure) : Prop where
  slot : p.frame.scavengingIndex = noIndex ∨
    ∃ k, p.frame.scavengingIndex = Int64.ofNat k ∧ p.frame.objects[k]? = some scavengingSlot
  few : p.frame.objects.length < 2 ^ 31 ∧ p.frame.fixed.length < 2 ^ 31

theorem HasScavenging.notMem (h : HasScavenging p) :
    p.frame.scavengingIndex ∉ (t.savedSlots p).map SavedSlot.index := by
  refine notMem_index_of_length (length_assignSlots_lt h.few.1) ?_
  rcases h.slot with hnone | ⟨k, hk, hslot⟩
  · rw [hnone]
    exact .inl (by decide)
  · have := (List.getElem?_eq_some_iff.1 hslot).1
    have := h.few.1
    refine .inr ⟨scavengingSlot, ?_⟩
    rw [hk, p.frame.object?_ofNat (by omega), hslot]

theorem HasScavenging.object (h : HasScavenging p) {o : FrameObject}
    (ho : (t.assignSlots p).frame.object? p.frame.scavengingIndex = some o) :
    o = scavengingSlot := by
  rcases h.slot with hnone | ⟨k, hk, hslot⟩
  · have hfixed : (t.assignSlots p).frame.fixed = p.frame.fixed := rfl
    rw [hnone, Frame.object?_noIndex (hfixed ▸ h.few.2)] at ho
    cases ho
  · have hlt := (List.getElem?_eq_some_iff.1 hslot).1
    have hlen := h.few.1
    have hp : p.frame.object? p.frame.scavengingIndex = some scavengingSlot := by
      rw [hk, p.frame.object?_ofNat (by omega), hslot]
    rw [object?_assignSlots hp] at ho
    exact (Option.some.inj ho).symm

/-- Objects of moderate size are placed, and no others. -/
theorem isModerate_of_mem_placementOrder (hscavenging : HasScavenging p)
    (hobjects : ∀ o ∈ p.frame.objects, o.IsModerate) {j : Int64} {o : FrameObject}
    (ho : (t.assignSlots p).frame.object? j = some o)
    (hj : j ∈ t.placementOrder (t.assignSlots p)) : o.IsModerate := by
  by_cases hscav : j = p.frame.scavengingIndex
  · rw [hscav] at ho
    rw [hscavenging.object ho]
    exact ⟨by decide, by decide, by decide, by decide⟩
  · have hlocal : j ∈ localIndices (t.assignSlots p).frame := by
      rw [placementOrder] at hj
      split at hj
      · exact (List.mem_cons.1 hj).resolve_left hscav
      · exact (List.mem_append.1 hj).resolve_right fun h => hscav (List.mem_singleton.1 h)
    obtain ⟨e, he, rfl⟩ := List.mem_map.1 hlocal
    obtain ⟨⟨q, k⟩, hk, rfl⟩ := List.mem_map.1 (List.mem_filter.1 he).1
    have hget := List.mk_mem_zipIdx_iff_getElem?.1 hk
    have hlt := (List.getElem?_eq_some_iff.1 hget).1
    have hlen := length_assignSlots_lt (t := t) hscavenging.few.1
    rw [Frame.object?_ofNat _ (Nat.lt_trans hlt hlen)] at ho
    rw [assignSlots_frame] at ho
    rcases List.mem_append.1 (List.mem_of_getElem? ho) with hmem | hmem
    · exact hobjects o hmem
    · obtain ⟨cs, hcs, rfl⟩ := List.mem_map.1 hmem
      exact isModerate_slotFor (List.mem_filter.1 hcs).1

/-- The scavenging slot is below the saved registers, and does not wrap around to them. -/
theorem scavenging_of_places {q : Procedure} (h : t.Places p q) (hscavenging : HasScavenging p)
    (hobjects : ∀ o ∈ p.frame.objects, o.IsModerate)
    (hrange : ¬ t.hasPointer p → ∀ j o, q.frame.object? j = some o → -2 ^ 32 ≤ o.offset.toInt)
    {o : FrameObject} (ho : q.frame.object? p.frame.scavengingIndex = some o) :
    o.size.toInt = 4 ∧ o.offset.toInt ≤ -(savedBytes (t.savedSlots p) + 4 : Int) ∧
      -2 ^ 32 ≤ o.offset.toInt := by
  have hbytes := savedBytes_savedSlots_le (t := t) (p := p)
  obtain ⟨o', ho', hsize⟩ := h.moves _ o ho
  obtain rfl := hscavenging.object ho'
  have hfour : o.size.toInt = 4 := by
    rw [← hsize]
    decide
  by_cases hpointer : t.hasPointer p
  · obtain ⟨hle, hge⟩ := h.next hpointer ho' o ho
    exact ⟨hfour, hle, by omega⟩
  · have hbelow := h.below (hrange hpointer)
      (fun j x => isModerate_of_mem_placementOrder hscavenging hobjects) o ho
    exact ⟨hfour, by omega, hrange hpointer _ o ho⟩

/-- The slots of a frame whose offsets are in range. -/
theorem hasSlots_of_places {q : Procedure} (h : t.Places p q) (hscavenging : HasScavenging p)
    (hobjects : ∀ o ∈ p.frame.objects, o.IsModerate)
    (hrange : ¬ t.hasPointer p → ∀ j o, q.frame.object? j = some o → -2 ^ 32 ≤ o.offset.toInt)
    (entry : State) : t.HasSlots q entry := by
  have hbytes := savedBytes_savedSlots_le (t := t) (p := p)
  have hsaved : q.frame.saved = t.savedSlots p := by
    obtain ⟨_, _, _, rfl⟩ := h.shape
    rfl
  have hindex : q.frame.scavengingIndex = p.frame.scavengingIndex := by
    obtain ⟨_, _, _, rfl⟩ := h.shape
    rfl
  have htile : ∀ σ ∈ q.frame.saved, ∀ o, q.frame.object? σ.index = some o →
      o.size.toInt = σ.bytes ∧ -(savedBytes (t.savedSlots p) : Int) ≤ o.offset.toInt ∧
        o.offset.toInt ≤ -(σ.bytes : Int) := by
    intro σ hσ o ho
    obtain ⟨o', ho', hsize, hlo, hhi⟩ := h.tiles.mem (hsaved ▸ hσ)
    obtain rfl := Option.some.inj (ho.symm.trans ho')
    exact ⟨hsize, by omega, by omega⟩
  refine ⟨fun σ hσ o ho => ?_, fun o ho => ?_, fun σ hσ o r ho hr b hb => ?_⟩
  · rw [(htile σ hσ o ho).1, SavedSlot.bytes]
    omega
  · exact (scavenging_of_places h hscavenging hobjects hrange (hindex ▸ ho)).1
  · obtain ⟨-, hlo, hhi⟩ := htile σ hσ o ho
    obtain ⟨-, hbelow, hwrap⟩ :=
      scavenging_of_places h hscavenging hobjects hrange (hindex ▸ hr)
    have hlen := length_cells_le σ.reg
    simp only [SavedSlot.bytes] at hhi
    exact Memory.not_within_of_apart (by omega) (by omega) hb

end

end Target

end FrameLowering
