import FrameLowering.Proofs.WordAlignment

/-!
# The estimated size of a frame

Before slots are made for the saved registers, the size of the rest of the frame is estimated: the
objects are placed one below the other, as they will be later, from the end of the fixed objects on.
The placement itself starts lower, at a multiple of a word and below the saved registers, and it may
begin with the scavenging slot, which the estimate places last. A start that is lower by a multiple of
all alignments lowers the end by as much (`foldl_depthBelow_le`), so that the two are apart by the
coarsest alignment at most. What the estimate does not have at all is the space for outgoing
arguments and the rounding of the frame's size (`Target.estimate_bounds`). Outgoing arguments can
take a large part of a frame (`Target.understated_callFrame`).
-/

namespace FrameLowering

/-! ## Two starts -/

/-- A multiple of a number of words next to a number of words. -/
theorem exists_multiple {q x : Int} (hq : 0 < q) (hword : 4 ∣ q) (hx : 4 ∣ x) :
    ∃ k, q ∣ k ∧ x ≤ k ∧ k ≤ x + q - 4 := by
  have hle := Int.ediv_mul_le (x + q - 4) (Int.ne_of_gt hq)
  have hlt := Int.lt_ediv_add_one_mul_self (x + q - 4) hq
  have hdvd : q ∣ (x + q - 4) / q * q := Int.dvd_mul_left _ _
  have hwords := hword.trans hdvd
  rw [Int.add_mul, Int.one_mul] at hlt
  exact ⟨_, hdvd, by omega, hle⟩

/-- Objects below two depths that differ by some words, and by `lead` bytes more at most, end at
depths that differ by almost as much. -/
theorem foldl_depthBelow_bounds {os : List FrameObject} {q x lead m n : Int} (hq : 0 < q)
    (hword : 4 ∣ q) (hos : ∀ o ∈ os, 0 < o.align.toInt ∧ o.align.toInt ∣ q) (hx : 4 ∣ x)
    (hlead : 4 ∣ lead) (hlo : n + x ≤ m) (hhi : m ≤ n + x + lead) :
    os.foldl FrameObject.depthBelow m - x ≤
        os.foldl FrameObject.depthBelow n + lead + (q - 4) ∧
      os.foldl FrameObject.depthBelow n ≤ os.foldl FrameObject.depthBelow m - x + (q - 4) := by
  have hdvd {k : Int} (hk : q ∣ k) : ∀ o ∈ os, 0 < o.align.toInt ∧ o.align.toInt ∣ k :=
    fun o ho => ⟨(hos o ho).1, (hos o ho).2.trans hk⟩
  constructor
  · obtain ⟨k, hk, hge, hle⟩ := exists_multiple hq hword (Int.dvd_add hx hlead)
    have := foldl_depthBelow_le (m := m) (n := n) (hdvd hk) (by omega)
    omega
  · obtain ⟨k, hk, hge, hle⟩ := exists_multiple (x := x - (q - 4)) hq hword (by omega)
    have := foldl_depthBelow_le (m := n) (n := m) (hdvd (Int.dvd_neg.2 hk)) (by omega)
    omega

/-- The same if the scavenging slot comes first below one depth, and last below the other. -/
theorem foldl_depthBelow_bounds_slot {os : List FrameObject} {slot : Option FrameObject}
    (first : Bool) {q x lead m n : Int} (hslot : ∀ o ∈ slot, o = scavengingSlot) (hq : 0 < q)
    (hword : 4 ∣ q) (hos : ∀ o ∈ os, 0 < o.align.toInt ∧ o.align.toInt ∣ q) (hx : 4 ∣ x)
    (hlead : 4 ∣ lead) (hm : 4 ∣ m) (hlo : n + x ≤ m) (hhi : m ≤ n + x + lead) :
    (if first then slot.toList ++ os else os ++ slot.toList).foldl FrameObject.depthBelow m - x ≤
        (os ++ slot.toList).foldl FrameObject.depthBelow n + lead + (q - 4) ∧
      (os ++ slot.toList).foldl FrameObject.depthBelow n ≤
        (if first then slot.toList ++ os else os ++ slot.toList).foldl FrameObject.depthBelow m -
          x + (q - 1) := by
  have hall : ∀ o ∈ os ++ slot.toList, 0 < o.align.toInt ∧ o.align.toInt ∣ q := by
    intro o ho
    rcases List.mem_append.1 ho with ho | ho
    · exact hos o ho
    · rw [hslot o (Option.mem_toList.1 ho)]
      exact ⟨by decide, hword⟩
  by_cases horder : first = true ∧ slot.isSome = true
  · obtain ⟨rfl, hsome⟩ := horder
    obtain ⟨o, rfl⟩ := Option.isSome_iff_exists.1 hsome
    obtain rfl := hslot o rfl
    -- below a number of words, the slot takes one more
    have hfirst : scavengingSlot.depthBelow m = m + 4 := by
      show (m + 4 + 4 - 1) / 4 * 4 = _
      omega
    obtain ⟨hge, hlt⟩ := FrameObject.depthBelow_bounds (o := scavengingSlot)
      (n := os.foldl FrameObject.depthBelow n) (by decide)
    obtain ⟨hle, hle'⟩ := foldl_depthBelow_bounds (x := x + 4) (m := m + 4) (n := n) hq hword hos
      (by omega) hlead (by omega) (by omega)
    have hfour : scavengingSlot.size.toInt = 4 ∧ scavengingSlot.align.toInt = 4 := ⟨rfl, rfl⟩
    rw [if_pos rfl, Option.toList_some, List.singleton_append, List.foldl_cons, hfirst,
      List.foldl_append, List.foldl_cons, List.foldl_nil]
    omega
  · have hsame : (if first then slot.toList ++ os else os ++ slot.toList) = os ++ slot.toList := by
      cases slot with
      | none => simp
      | some o =>
        have hlast : ¬ first = true := fun h => horder ⟨h, rfl⟩
        rw [if_neg hlast]
    obtain ⟨hle, hle'⟩ := foldl_depthBelow_bounds hq hword hall hx hlead hlo hhi
    rw [hsame]
    omega

/-! ## The two sums -/

/-- Objects that take up space, in the order of their indices. -/
def Frame.live (f : Frame) : List FrameObject :=
  f.objects.filter fun o => !o.dead

/-- No sum leaves the range of offsets when objects are placed below `n` bytes. -/
def RangeBelow : (n : Int) → List FrameObject → Prop
  | _, [] => True
  | n, o :: os => n + o.size.toInt + o.align.toInt ≤ 2 ^ 63 ∧ RangeBelow (o.depthBelow n) os

instance decidableRangeBelow : (n : Int) → (os : List FrameObject) → Decidable (RangeBelow n os)
  | _, [] => isTrue trivial
  | n, o :: os =>
    have := decidableRangeBelow (o.depthBelow n) os
    inferInstanceAs (Decidable (_ ∧ RangeBelow (o.depthBelow n) os))

/-- The estimate is the depth of the last object below the fixed ones. -/
theorem Procedure.toInt_estimateSize {p : Procedure}
    (hshaped : ∀ o ∈ p.frame.objects, Frame.isShape o.size o.align)
    (hdepth : 0 ≤ p.fixedDepth.toInt) (hrange : RangeBelow p.fixedDepth.toInt p.frame.live) :
    p.estimateSize.toInt = p.frame.live.foldl FrameObject.depthBelow p.fixedDepth.toInt := by
  rw [estimateSize]
  generalize p.fixedDepth = depth at *
  rw [Frame.live] at *
  generalize p.frame.objects = os at *
  induction os generalizing depth with
  | nil => rfl
  | cons o os ih =>
    obtain ⟨hshape, hshaped⟩ := List.forall_mem_cons.1 hshaped
    rw [List.foldl_cons]
    by_cases hdead : o.dead
    · rw [List.filter_cons_of_neg (by simp [hdead])] at hrange ⊢
      rw [if_pos hdead]
      exact ih depth hdepth hshaped hrange
    · rw [List.filter_cons_of_pos (by simp [hdead])] at hrange ⊢
      obtain ⟨hroom, hrange⟩ := hrange
      have hplace := FrameObject.toInt_alignTo hdepth hshape hroom
      have hbounds := FrameObject.depthBelow_bounds (n := depth.toInt) (positive_of_isShape hshape).2
      have hsize := (positive_of_isShape hshape).1
      rw [if_neg hdead, List.foldl_cons, ← hplace]
      exact ih _ (by omega) hshaped (by rw [hplace]; exact hrange)

/-! ## What is placed -/

/-- Objects that are looked up by their indices. -/
theorem Frame.filterMap_object? {f : Frame} {es : List (Int64 × FrameObject)}
    (hlen : f.objects.length < 2 ^ 63) (h : ∀ e ∈ es, e ∈ f.indexed) :
    (es.map Prod.fst).filterMap f.object? = es.map Prod.snd := by
  induction es with
  | nil => rfl
  | cons e es ih =>
    obtain ⟨he, hes⟩ := List.forall_mem_cons.1 h
    rw [List.map_cons, List.filterMap_cons_some ((mem_indexed hlen).1 he).2, ih hes, List.map_cons]

namespace Target

/-- The objects before some index are placed as they are, if all after it are slots. -/
theorem filterMap_localIndices {f : Frame} {os rest : List FrameObject}
    (hlen : f.objects.length < 2 ^ 63) (hobjects : f.objects = os ++ rest)
    (hbefore : ∀ n < os.length, Int64.ofNat n ∉ f.saved.map SavedSlot.index ∧
      Int64.ofNat n ≠ f.scavengingIndex)
    (hafter : ∀ n, os.length ≤ n → n < f.objects.length →
      Int64.ofNat n ∈ f.saved.map SavedSlot.index ∨ Int64.ofNat n = f.scavengingIndex) :
    (localIndices f).filterMap f.object? = os.filter fun o => !o.dead := by
  have hany (j : Int64) : (f.saved.any fun s => s.index = j) = true ↔
      j ∈ f.saved.map SavedSlot.index := by
    simp [List.any_eq_true, List.mem_map]
  have hsplit : f.indexed = os.zipIdx.map (fun e => (Int64.ofNat e.2, e.1)) ++
      (rest.zipIdx os.length).map fun e => (Int64.ofNat e.2, e.1) := by
    rw [Frame.indexed, hobjects, List.zipIdx_append, List.map_append, Nat.zero_add]
  have hkept : f.indexed.filter (fun e => !e.2.dead &&
      !(f.saved.any fun s => s.index = e.1) && e.1 ≠ f.scavengingIndex) =
        (os.zipIdx.map fun e => (Int64.ofNat e.2, e.1)).filter fun e => !e.2.dead := by
    rw [hsplit, List.filter_append]
    -- all that comes after the objects is left out
    have hnone : ((rest.zipIdx os.length).map fun e => (Int64.ofNat e.2, e.1)).filter
        (fun e => !e.2.dead && !(f.saved.any fun s => s.index = e.1) &&
          e.1 ≠ f.scavengingIndex) = [] := by
      rw [List.filter_eq_nil_iff]
      intro e he
      obtain ⟨⟨o, n⟩, hmem, rfl⟩ := List.mem_map.1 he
      obtain ⟨hge, hlt, -⟩ := List.mem_zipIdx hmem
      have hslot := hafter n hge (by rw [hobjects, List.length_append]; omega)
      rw [← hany] at hslot
      rcases hslot with hslot | hslot <;> simp [hslot]
    rw [hnone, List.append_nil]
    apply List.filter_congr
    intro e he
    obtain ⟨⟨o, n⟩, hmem, rfl⟩ := List.mem_map.1 he
    obtain ⟨-, hlt, -⟩ := List.mem_zipIdx hmem
    obtain ⟨hslot, hscavenging⟩ := hbefore n (by omega)
    rw [← hany, Bool.not_eq_true] at hslot
    simp [hslot, hscavenging]
  rw [localIndices, hkept, Frame.filterMap_object? hlen, List.filter_map, List.map_map]
  · conv => rhs; rw [← List.zipIdx_map_fst 0 os, List.filter_map]
    rfl
  · intro e he
    rw [← hkept] at he
    exact (List.mem_filter.1 he).1

section
variable {t : Target} {p : Procedure}

/-- Where the scavenging slot is the only object after some others, or there is none, these are
placed together with it, and without the slots of saved registers. -/
theorem filterMap_placementOrder {os : List FrameObject} {slot : Option FrameObject}
    (hlen : (t.assignSlots p).frame.objects.length < 2 ^ 63)
    (hobjects : p.frame.objects = os ++ slot.toList)
    (hslot : (t.assignSlots p).frame.object? p.frame.scavengingIndex = slot)
    (hbefore : ∀ n < os.length, Int64.ofNat n ≠ p.frame.scavengingIndex)
    (hafter : slot.isSome → Int64.ofNat os.length = p.frame.scavengingIndex) :
    (t.placementOrder (t.assignSlots p)).filterMap (t.assignSlots p).frame.object? =
      if t.hasPointer p then slot.toList ++ os.filter (fun o => !o.dead)
      else os.filter (fun o => !o.dead) ++ slot.toList := by
  have hlength := congrArg List.length hobjects
  rw [List.length_append] at hlength
  have hlocals : (localIndices (t.assignSlots p).frame).filterMap (t.assignSlots p).frame.object? =
      os.filter fun o => !o.dead := by
    have hsplit : (t.assignSlots p).frame.objects =
        os ++ (slot.toList ++ (t.spilledSaved p).map t.slotFor) := by
      show p.frame.objects ++ _ = _
      rw [hobjects, List.append_assoc]
    -- after the others come the scavenging slot and the slots of saved registers
    refine filterMap_localIndices hlen hsplit ?_ ?_
    · intro n hn
      refine ⟨?_, hbefore n hn⟩
      intro hmem
      obtain ⟨σ, hσ, hindex⟩ := List.mem_map.1 hmem
      obtain ⟨m, hm, hge, hlt⟩ := index_savedSlots hlen hσ
      have := ofNat_inj (by omega) hlt (hindex.symm.trans hm)
      omega
    · intro n hge hlt
      rw [length_assignSlots] at hlt
      by_cases hn : n < p.frame.objects.length
      · right
        cases slot with
        | none =>
          rw [Option.toList_none, List.length_nil] at hlength
          omega
        | some o =>
          rw [Option.toList_some, List.length_singleton] at hlength
          rw [show n = os.length by omega]
          exact hafter rfl
      · left
        show _ ∈ (t.savedSlots p).map SavedSlot.index
        rw [map_index_savedSlots, List.mem_map]
        exact ⟨n - p.frame.objects.length, List.mem_range'_1.2 ⟨Nat.zero_le _, by omega⟩,
          by rw [Nat.add_sub_cancel' (by omega)]⟩
  have hone : [p.frame.scavengingIndex].filterMap (t.assignSlots p).frame.object? = slot.toList := by
    rw [List.filterMap_cons, hslot, List.filterMap_nil]
    cases slot with
    | none => rfl
    | some o => rfl
  show (if t.hasPointer p then p.frame.scavengingIndex :: localIndices (t.assignSlots p).frame
    else localIndices (t.assignSlots p).frame ++ [p.frame.scavengingIndex]).filterMap _ = _
  split
  · rw [← List.singleton_append, List.filterMap_append, hone, hlocals]
  · rw [List.filterMap_append, hone, hlocals]

/-- The choice of the spill set adds the scavenging slot at most. The estimate places it last, and the
placement next to the register that will address it. -/
theorem objects_finalizeSpillSet {scavenger : Bool} (h : p.frame.IsBare)
    (hlen : (t.assignSlots (t.finalizeSpillSet scavenger p)).frame.objects.length < 2 ^ 63) :
    ∃ slot : Option FrameObject, (∀ o ∈ slot, o = scavengingSlot) ∧
      (t.finalizeSpillSet scavenger p).frame.live = p.frame.live ++ slot.toList ∧
      (t.placementOrder (t.assignSlots (t.finalizeSpillSet scavenger p))).filterMap
          (t.assignSlots (t.finalizeSpillSet scavenger p)).frame.object? =
        if t.hasPointer (t.finalizeSpillSet scavenger p) then slot.toList ++ p.frame.live
        else p.frame.live ++ slot.toList := by
  obtain ⟨regs, layout, frame, hchosen, hframe⟩ := t.finalizeSpillSet_shape scavenger p
  rw [hchosen] at hlen ⊢
  have hcount := hlen
  rw [length_assignSlots] at hcount
  rcases hframe with rfl | rfl
  · -- no slot was added, and the index for no object has none
    change p.frame.objects.length + _ < 2 ^ 63 at hcount
    refine ⟨none, fun o ho => absurd ho (Option.not_mem_none o), (List.append_nil _).symm, ?_⟩
    refine filterMap_placementOrder hlen (List.append_nil _).symm ?_ ?_ (fun hsome => by cases hsome)
    · have hfree := h.free
      rw [Frame.object?, if_neg (by decide)] at hfree
      show Frame.object? _ p.frame.scavengingIndex = none
      rw [h.unscavenged, Frame.object?, if_neg (by decide)]
      exact hfree
    · intro n hn hno
      have hnonneg := (Frame.position_ofNat (n := n) (by omega)).1
      rw [hno] at hnonneg
      change (0 : Int64) ≤ p.frame.scavengingIndex at hnonneg
      rw [h.unscavenged] at hnonneg
      exact absurd hnonneg (by decide)
  · -- the slot is the last object
    have hlt : p.frame.objects.length < 2 ^ 63 := by
      simp only [withScavenging, List.length_append] at hcount
      omega
    refine ⟨some scavengingSlot, fun o ho => (Option.mem_some.1 ho).symm, ?_, ?_⟩
    · show (p.frame.objects ++ [scavengingSlot]).filter _ = _
      rw [List.filter_append]
      rfl
    · refine filterMap_placementOrder hlen rfl ?_ ?_ fun _ => rfl
      · show Frame.object? _ (Int64.ofNat p.frame.objects.length) = _
        rw [Frame.object?_ofNat _ hlt]
        simp [assignSlots, withScavenging]
      · intro n hn heq
        have := ofNat_inj (by omega) hlt heq
        omega

end

/-! ## The size of the frame -/

/-- Bytes of outgoing arguments that are allocated with the frame. -/
def argumentBytes (t : Target) (p : Procedure) : Int :=
  if t.reservesCallFrame p then p.frame.maxCallFrameSize.toInt else 0

/-- Bytes that rounding the frame's size can add. -/
def roundingBytes (t : Target) (p : Procedure) : Int :=
  if p.frame.hasCalls || p.frame.hasVarSized then
    (max t.abi.stackAlignment (t.placeObjects p).maxAlign).toInt - 1
  else 0

/-- The coarsest alignment of what is placed, and at least that of a word. -/
def coarsest (t : Target) (p : Procedure) : Int :=
  (max 4 (t.placeObjects p).maxAlign).toInt

/-- Bytes by which padding can grow since the placement starts below the saved registers, and at a
multiple of a word. -/
def shiftBytes (t : Target) (p : Procedure) : Int :=
  if 4 ∣ p.fixedDepth.toInt then t.coarsest p - 4 else t.coarsest p

section
variable {t : Target} {p : Procedure}

theorem stackSize_bounds (h : t.IsPlaceable p) (hsums : t.SumsInRange p) :
    (t.placeObjects p).depth.toInt + t.argumentBytes p ≤ (t.placeFrame p).frame.stackSize.toInt ∧
      (t.placeFrame p).frame.stackSize.toInt ≤
        (t.placeObjects p).depth.toInt + t.argumentBytes p + t.roundingBytes p := by
  obtain ⟨-, htop⟩ := depth_startPlacement hsums
  have hdepth := (isLaid_placeObjects h hsums).depth
  have harguments := h.arguments
  have hsum : (t.argumentDepth p).toInt = (t.placeObjects p).depth.toInt + t.argumentBytes p := by
    rw [argumentDepth, argumentBytes]
    split
    · next hreserved => exact toInt_add_of_range (by omega) (hsums.arguments hreserved)
    · omega
  have hnonneg : 0 ≤ t.argumentBytes p := by
    rw [argumentBytes]
    split <;> omega
  rw [← hsum, roundingBytes]
  show _ ≤ (if p.frame.hasCalls || p.frame.hasVarSized then
    alignTo (t.argumentDepth p) (max t.abi.stackAlignment (t.placeObjects p).maxAlign)
    else t.argumentDepth p).toInt ∧ (if p.frame.hasCalls || p.frame.hasVarSized then
    alignTo (t.argumentDepth p) (max t.abi.stackAlignment (t.placeObjects p).maxAlign)
    else t.argumentDepth p).toInt ≤ _
  by_cases hcalls : p.frame.hasCalls || p.frame.hasVarSized
  · have hpower := t.isPower_stackAlignment.max (isSeated_placeObjects h hsums).aligned.align
    obtain ⟨hge, hlt, -⟩ := toInt_alignTo (n := t.argumentDepth p) (by omega) hpower.pos
      (hsums.size hcalls)
    rw [if_pos hcalls, if_pos hcalls]
    omega
  · rw [if_neg hcalls, if_neg hcalls]
    omega

/-- The coarsest alignment is a multiple of all that are placed. -/
theorem dvd_coarsest (h : t.IsPlaceable p) (hsums : t.SumsInRange p) {o : FrameObject}
    (ho : o ∈ (t.placementOrder p).filterMap p.frame.object?) :
    0 < o.align.toInt ∧ o.align.toInt ∣ t.coarsest p := by
  obtain ⟨j, hj, ho⟩ := List.mem_filterMap.1 ho
  have hseated := isSeated_placeObjects h hsums
  have hmoved := (t.moves_placeObjects p).objects j
  rw [ho, Option.map_some, Option.map_eq_some_iff] at hmoved
  obtain ⟨r, hr, heq⟩ := hmoved
  obtain ⟨-, halign, -⟩ := FrameObject.mk.inj heq
  have hle := (hseated.seats j (List.mem_reverse.2 hj) r hr).2
  rw [halign] at hle
  have hpower := isPower_of_isShape (h.shaped j o ho)
  refine ⟨(h.shape ho).2, (hpower.dvd_of_le hseated.aligned.align hle).trans ?_⟩
  exact IsPower.dvd_max_right (a := 4) ⟨2, rfl⟩ hseated.aligned.align

theorem four_dvd_coarsest (h : t.IsPlaceable p) (hsums : t.SumsInRange p) :
    0 < t.coarsest p ∧ 4 ∣ t.coarsest p := by
  have hpower := (isSeated_placeObjects h hsums).aligned.align
  exact ⟨(IsPower.max (a := 4) ⟨2, rfl⟩ hpower).pos, IsPower.dvd_max (a := 4) ⟨2, rfl⟩ hpower⟩

/-- The slots of saved registers take as many bytes as they have. -/
theorem toInt_depth_packedPlacement (h : t.IsPlaceable (t.assignSlots p))
    (hsums : t.SumsInRange (t.assignSlots p)) :
    (packedPlacement (t.assignSlots p)).depth.toInt =
      (alignTo p.fixedDepth 4).toInt + savedBytes (t.savedSlots p) := by
  have hge : (alignTo p.fixedDepth 4).toInt ≤ (packedPlacement (t.assignSlots p)).depth.toInt :=
    (isLaid_packedPlacement h hsums).depth
  have hnonneg : 0 ≤ (alignTo p.fixedDepth 4).toInt := (depth_startPlacement hsums).2
  have hbytes := savedBytes_savedSlots_le (t := t) (p := p)
  have hlt := (alignTo p.fixedDepth 4).toInt_lt
  have hlt' := (packedPlacement (t.assignSlots p)).depth.toInt_lt
  -- a sum that wrapped around would not be above where it started
  have hwrap := Int.bmod_add_bdiv ((alignTo p.fixedDepth 4).toInt + savedBytes (t.savedSlots p))
    (2 ^ 64)
  rw [(stacks_packed hsums.count).2.1, Int64.toInt_add, Int64.toInt_ofNat_of_lt (by omega)] at *
  omega

/-- The end of the last object, where the saved registers are not counted, and the estimate. -/
theorem depth_bounds {os : List FrameObject} {slot : Option FrameObject}
    (h : t.IsPlaceable (t.assignSlots p)) (hsums : t.SumsInRange (t.assignSlots p))
    (hshaped : ∀ o ∈ p.frame.objects, Frame.isShape o.size o.align)
    (hrange : RangeBelow p.fixedDepth.toInt p.frame.live)
    (hslot : ∀ o ∈ slot, o = scavengingSlot) (hlive : p.frame.live = os ++ slot.toList)
    (horder : (t.placementOrder (t.assignSlots p)).filterMap (t.assignSlots p).frame.object? =
      if t.hasPointer p then slot.toList ++ os else os ++ slot.toList) :
    (t.placeObjects (t.assignSlots p)).depth.toInt - savedBytes (t.savedSlots p) ≤
        p.estimateSize.toInt + t.shiftBytes (t.assignSlots p) ∧
      p.estimateSize.toInt ≤ (t.placeObjects (t.assignSlots p)).depth.toInt -
        savedBytes (t.savedSlots p) + (t.coarsest (t.assignSlots p) - 1) := by
  -- where the two start
  have hnonneg : 0 ≤ p.fixedDepth.toInt := (le_fixedDepth hsums.fixed).1
  obtain ⟨hge, hlt, hfour⟩ := toInt_alignTo (n := p.fixedDepth) (a := 4) hnonneg (by decide)
    hsums.start
  change (alignTo p.fixedDepth 4).toInt < p.fixedDepth.toInt + 4 at hlt
  change 4 ∣ (alignTo p.fixedDepth 4).toInt at hfour
  have hstart := toInt_depth_packedPlacement h hsums
  have hbytes : (4 : Int) ∣ savedBytes (t.savedSlots p) :=
    Int.natCast_dvd_natCast.2 (four_dvd_savedBytes _)
  have hdepth : 0 ≤ (packedPlacement (t.assignSlots p)).depth.toInt := by omega
  -- where they end
  have hestimate := Procedure.toInt_estimateSize hshaped hnonneg hrange
  have hplaced : (t.placeObjects (t.assignSlots p)).depth.toInt =
      ((t.placementOrder (t.assignSlots p)).filterMap (t.assignSlots p).frame.object?).foldl
        FrameObject.depthBelow (packedPlacement (t.assignSlots p)).depth.toInt :=
    Placement.toInt_depth_foldl_place (moves_packedPlacement (t.assignSlots p))
      h.shaped hsums.placed hdepth
  obtain ⟨hpos, hwords⟩ := four_dvd_coarsest h hsums
  have hos : ∀ o ∈ os, 0 < o.align.toInt ∧ o.align.toInt ∣ t.coarsest (t.assignSlots p) := by
    intro o ho
    apply dvd_coarsest h hsums
    rw [horder]
    split
    · exact List.mem_append_right _ ho
    · exact List.mem_append_left _ ho
  obtain ⟨lead, hlead, hlast, hshift⟩ : ∃ lead, 4 ∣ lead ∧
      (alignTo p.fixedDepth 4).toInt ≤ p.fixedDepth.toInt + lead ∧
      t.shiftBytes (t.assignSlots p) = lead + (t.coarsest (t.assignSlots p) - 4) := by
    by_cases haligned : 4 ∣ p.fixedDepth.toInt
    · exact ⟨0, Int.dvd_zero _, by omega, (if_pos haligned).trans (Int.zero_add _).symm⟩
    · exact ⟨4, Int.dvd_refl _, by omega, (if_neg haligned).trans (by omega)⟩
  obtain ⟨hle, hle'⟩ := foldl_depthBelow_bounds_slot (t.hasPointer p)
    (m := (alignTo p.fixedDepth 4).toInt + savedBytes (t.savedSlots p))
    (n := p.fixedDepth.toInt) hslot hpos hwords hos hbytes hlead (by omega) (by omega) (by omega)
  rw [hplaced, horder, hstart, hestimate, hlive, hshift]
  omega

end

/-- Let the spill set be chosen, slots be made for it and all objects be placed. Apart from the
slots of saved registers, the frame has at most as many bytes as was estimated, plus those of
outgoing arguments, those of rounding, and those of one coarsest alignment. The estimate is too
large by less than the coarsest alignment. -/
theorem estimate_bounds (t : Target) (scavenger : Bool) {p : Procedure} (h : p.frame.IsBare)
    (hsums : t.SumsInRange (t.assignSlots (t.finalizeSpillSet scavenger p)))
    (hrange : RangeBelow (t.finalizeSpillSet scavenger p).fixedDepth.toInt
      (t.finalizeSpillSet scavenger p).frame.live) :
    let c := t.finalizeSpillSet scavenger p
    let q := t.placeFrame (t.assignSlots c)
    q.frame.stackSize.toInt - savedBytes q.frame.saved ≤
        c.estimateSize.toInt + t.argumentBytes (t.assignSlots c) +
          t.roundingBytes (t.assignSlots c) + t.shiftBytes (t.assignSlots c) ∧
      c.estimateSize.toInt + t.argumentBytes (t.assignSlots c) ≤
        q.frame.stackSize.toInt - savedBytes q.frame.saved + (t.coarsest (t.assignSlots c) - 1) := by
  intro c q
  have hplaceable : t.IsPlaceable (t.assignSlots c) := isPlaceable_assignSlots h hsums.count
  have hshaped : ∀ o ∈ c.frame.objects, Frame.isShape o.size o.align := by
    intro o ho
    rcases mem_objects_assignSlots (List.mem_append_left _ ho) with ho | rfl | ⟨cs, rfl⟩
    · exact h.shaped.objects o ho
    · decide
    · exact t.isShape_slotFor cs
  obtain ⟨slot, hslot, hlive, horder⟩ := objects_finalizeSpillSet h hsums.count
  obtain ⟨hle, hle'⟩ := depth_bounds hplaceable hsums hshaped hrange hslot hlive horder
  obtain ⟨hsize, hsize'⟩ : _ ≤ q.frame.stackSize.toInt ∧ q.frame.stackSize.toInt ≤ _ :=
    stackSize_bounds hplaceable hsums
  have hsaved : q.frame.saved = t.savedSlots c := t.saved_placeFrame c
  rw [hsaved]
  constructor
  · omega
  · omega

/-- Of 56 bytes, 23 were estimated, 12 are those of arguments, and the others are padding. -/
theorem estimate_bounds_mixedFunction :
    let c := plainDefault.finalizeSpillSet true mixedFunction.proc
    let q := plainDefault.placeFrame (plainDefault.assignSlots c)
    mixedFunction.proc.frame.IsBare ∧ c.estimateSize.toInt = 23 ∧
      q.frame.stackSize.toInt - savedBytes q.frame.saved = 56 ∧
      plainDefault.argumentBytes (plainDefault.assignSlots c) = 12 ∧
      q.frame.stackSize.toInt - savedBytes q.frame.saved ≤
        c.estimateSize.toInt + plainDefault.argumentBytes (plainDefault.assignSlots c) +
          plainDefault.roundingBytes (plainDefault.assignSlots c) +
            plainDefault.shiftBytes (plainDefault.assignSlots c) := by
  have hbuild : mixedObjects.build = .ok mixedFunction := by decide +kernel
  have hbare := FunctionDesc.isBare_of_build hbuild (by decide)
  have hbounds := estimate_bounds plainDefault true hbare sumsInRange_mixedFunction
    (by decide +kernel)
  refine ⟨hbare, ?_, ?_, ?_, hbounds.1⟩
  · decide +kernel
  · decide +kernel
  · decide +kernel

/-- A function with an object of 3000 bytes and calls with 2000 bytes of arguments. -/
def callsWithArguments : Described where
  abi := none
  proc := {
    name := "f"
    blocks := [{ lines := Line.number 0 [
      .make .str [.use (.core 0), .frameIndex 0, .use .noreg, .imm 0, .cond .al, .use .noreg],
      .make .bxRet [.cond .al, .use .noreg]] }]
    frame := {
      objects := [{ size := 3000, align := 4 }]
      maxCallFrameSize := 2000
      hasCalls := true }
    regs := (({} : RegTable).use (.core 4)).use (.core 14)
    fresh := 2 }

/-- Its frame has 5000 bytes besides the slots of saved registers. The estimate is below the limit of
offsets, so that no more than the two registers in use are saved. -/
theorem understated_callFrame :
    let p := plainDefault.decidePointer callsWithArguments.proc.markUsed
    let c := plainDefault.finalizeSpillSet true p
    let q := plainDefault.placeFrame (plainDefault.assignSlots c)
    (∃ d : FunctionDesc, d.build = .ok callsWithArguments) ∧
      plainDefault.SumsInRange (plainDefault.assignSlots c) ∧
      RangeBelow c.fixedDepth.toInt c.frame.live ∧ c.estimateSize.toInt = 3000 ∧
      q.frame.stackSize.toInt - savedBytes q.frame.saved = 5000 ∧
      c.narrowestLimit.toInt = 4095 ∧ q.frame.saved.length = 2 := by
  intro p c q
  refine ⟨⟨{
      name := "f"
      hasCalls := true
      maxCallFrameSize := 2000
      used := ["r4", "lr"]
      objects := [{ size := 3000, align := 4 }]
      blocks := [{ insts := ["STR r0, fi:0, noreg, #0, cc:al, noreg", "BX_RET cc:al, noreg"] }] },
    ?_⟩, ?_, ?_, ?_, ?_, ?_, ?_⟩
  · decide +kernel
  · decide +kernel
  · decide +kernel
  · decide +kernel
  · decide +kernel
  · decide +kernel
  · decide +kernel

end Target

end FrameLowering
