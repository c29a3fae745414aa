import FrameLowering.Proofs.ObjectDepths
import FrameLowering.Proofs.SpillCoverage

/-!
# Frames that are not a number of words

The slots of saved registers are words below a multiple of a word. What is placed below them can be
of any size, and only objects with the alignment of a word or more get the frame back to a multiple
of one. `Target.overhang` follows the bytes beyond it. The size of a frame is rounded only where
there can be calls, so without them it is a multiple of a word exactly if nothing hangs over; and
only then are words of the frame at multiples of a word from the stack pointer, where loads and
stores of floating-point registers can reach them (`Target.four_dvd_stackSize_iff`). A single byte
at the end of a frame is enough to put them out of reach (`Target.unaligned_loadsDouble`).
-/

namespace FrameLowering

/-! ## Multiples of a word -/

/-- Wrapping around keeps multiples of a word. -/
theorem four_dvd_bmod {x : Int} : 4 ∣ x.bmod (2 ^ 64) ↔ 4 ∣ x := by
  have hsum := Int.bmod_add_bdiv x (2 ^ 64)
  omega

theorem four_dvd_add {a b : Int64} (h : 4 ∣ b.toInt) : 4 ∣ (a + b).toInt ↔ 4 ∣ a.toInt := by
  rw [Int64.toInt_add, four_dvd_bmod]
  omega

/-- Alignments below a word. -/
theorem IsPower.eq_one_or_two {a : Int64} (h : IsPower a) (hlt : a.toInt < 4) :
    a.toInt = 1 ∨ a.toInt = 2 := by
  obtain ⟨k, hk⟩ := h
  have hk2 : k < 2 := by
    rw [hk] at hlt
    exact (Nat.pow_lt_pow_iff_right (by decide)).1 (Int.ofNat_lt.1 hlt : 2 ^ k < 2 ^ 2)
  obtain rfl | rfl : k = 0 ∨ k = 1 := by omega
  · exact .inl hk
  · exact .inr hk

/-- The bytes below a multiple of a word after an object was placed, if there were `n` before. -/
def FrameObject.overhang (n : Int) (o : FrameObject) : Int :=
  if 4 ≤ o.align.toInt then 0
  else (n + o.size.toInt + o.align.toInt - 1) / o.align.toInt * o.align.toInt

section
variable {o : FrameObject} {os : List FrameObject} {m n : Int}

/-- An object takes as many bytes as its overhang says, up to multiples of a word. -/
theorem FrameObject.four_dvd_depthBelow (hshape : Frame.isShape o.size o.align) (h : 4 ∣ m - n) :
    4 ∣ o.depthBelow m - o.overhang n := by
  have hpower := isPower_of_isShape hshape
  rw [depthBelow, overhang]
  split
  · next hword =>
    have hfour : 4 ∣ o.align.toInt := by
      have hle : (4 : Int64) ≤ o.align := Int64.le_iff_toInt_le.2 hword
      exact IsPower.dvd_of_le (a := 4) ⟨2, rfl⟩ hpower hle
    rw [Int.sub_zero]
    exact hfour.mul_left _
  · next hword =>
    -- rounding to less than a word depends on the bytes within a word only
    rcases hpower.eq_one_or_two (Int.not_le.1 hword) with hone | htwo
    · rw [hone]
      omega
    · rw [htwo]
      omega

/-- Objects one below the other. -/
theorem four_dvd_foldl_depthBelow (hos : ∀ o ∈ os, Frame.isShape o.size o.align)
    (h : 4 ∣ m - n) :
    4 ∣ os.foldl FrameObject.depthBelow m - os.foldl FrameObject.overhang n := by
  induction os generalizing m n with
  | nil => exact h
  | cons o os ih =>
    obtain ⟨ho, hos⟩ := List.forall_mem_cons.1 hos
    exact ih hos (FrameObject.four_dvd_depthBelow ho h)

end

theorem four_dvd_savedBytes (σs : List SavedSlot) : 4 ∣ savedBytes σs := by
  induction σs with
  | nil => exact Nat.dvd_zero 4
  | cons σ σs ih =>
    rw [savedBytes_cons]
    exact Nat.dvd_add (Nat.dvd_mul_right 4 _) ih

namespace Target

/-! ## The size of a frame -/

/-- Bytes that the objects of a frame, and the outgoing arguments that are allocated with it, take
beyond a number of words, if it is not rounded. -/
def overhang (t : Target) (p : Procedure) : Int :=
  ((t.placementOrder p).filterMap p.frame.object?).foldl FrameObject.overhang 0 +
    if t.reservesCallFrame p then p.frame.maxCallFrameSize.toInt else 0

section
variable {t : Target} {p : Procedure}

theorem four_dvd_packedPlacement (hlen : (t.assignSlots p).frame.objects.length < 2 ^ 63) :
    4 ∣ (packedPlacement (t.assignSlots p)).depth.toInt := by
  have hbytes := savedBytes_savedSlots_le (t := t) (p := p)
  have hslots : 4 ∣ (Int64.ofNat (savedBytes (t.savedSlots p))).toInt := by
    rw [Int64.toInt_ofNat_of_lt (by omega)]
    exact Int.natCast_dvd_natCast.2 (four_dvd_savedBytes _)
  rw [(stacks_packed hlen).2.1, four_dvd_add hslots]
  exact IsPower.dvd_alignTo (a := 4) ⟨2, rfl⟩ _

/-- Before the size of a frame is rounded, it is a number of words up to the overhang. -/
theorem four_dvd_argumentDepth (h : t.IsPlaceable (t.assignSlots p))
    (hsums : t.SumsInRange (t.assignSlots p)) :
    4 ∣ (t.argumentDepth (t.assignSlots p)).toInt - t.overhang (t.assignSlots p) := by
  obtain ⟨-, htop⟩ := depth_startPlacement hsums
  have hpacked := htop.trans (isLaid_packedPlacement h hsums).depth
  have hmoves := moves_packedPlacement (t.assignSlots p)
  have hplaced : 4 ∣ (t.placeObjects (t.assignSlots p)).depth.toInt -
      ((t.placementOrder (t.assignSlots p)).filterMap (t.assignSlots p).frame.object?).foldl
        FrameObject.overhang 0 := by
    rw [placeObjects_eq,
      Placement.toInt_depth_foldl_place hmoves h.shaped hsums.placed hpacked]
    apply four_dvd_foldl_depthBelow
    · intro o ho
      obtain ⟨j, -, ho⟩ := List.mem_filterMap.1 ho
      exact h.shaped j o ho
    · rw [Int.sub_zero]
      exact four_dvd_packedPlacement hsums.count
  rw [argumentDepth, overhang]
  split
  · next hreserves =>
    have hargs := h.arguments
    have hlaid := (isLaid_placeObjects h hsums).depth
    rw [toInt_add_of_range (by omega) (hsums.arguments hreserves)]
    omega
  · omega

/-- The size of a frame is a number of words if it is rounded or nothing hangs over. -/
theorem four_dvd_stackSize_placeFrame_iff (h : t.IsPlaceable (t.assignSlots p))
    (hsums : t.SumsInRange (t.assignSlots p)) :
    4 ∣ (t.placeFrame (t.assignSlots p)).frame.stackSize.toInt ↔
      p.frame.hasCalls ∨ p.frame.hasVarSized ∨ 4 ∣ t.overhang (t.assignSlots p) := by
  have hdepth := four_dvd_argumentDepth h hsums
  by_cases hcalls : p.frame.hasCalls || p.frame.hasVarSized
  · have hrounded := (dvd_stackSize h hsums hcalls).1
    rw [Bool.or_eq_true] at hcalls
    exact ⟨fun _ => or_assoc.1 (.inl hcalls), fun _ => t.four_dvd_stackAlignment.trans hrounded⟩
  · have hsize : (t.placeFrame (t.assignSlots p)).frame.stackSize =
        t.argumentDepth (t.assignSlots p) := if_neg hcalls
    rw [Bool.or_eq_true] at hcalls
    rw [hsize, ← or_assoc, or_iff_right hcalls]
    omega

/-- Open call frames are numbers of words. -/
theorem four_dvd_openFrame (t : Target) (q : Procedure) (ls : List Line) :
    4 ∣ (t.openFrame q ls).toInt :=
  t.four_dvd_stackAlignment.trans (t.dvd_openFrame q ls)

end

/-! ## Loads and stores of floating-point registers -/

end Target

section
variable {i : Inst} {v offset : Int64} {base : Reg}

theorem four_dvd_decode (v : Int64) : 4 ∣ (Family.mode5.field.decode v).toInt := by
  have hscaled : 4 ∣ ((v &&& Family.mode5.field.mask) * 4).toInt := by
    rw [Int64.toInt_mul, four_dvd_bmod]
    exact Int.dvd_mul_left _ _
  show 4 ∣ (if v &&& Family.mode5.field.directionBit ≠ 0 then
    -((v &&& Family.mode5.field.mask) * 4) else (v &&& Family.mode5.field.mask) * 4).toInt
  split
  · rw [Int64.toInt_neg, four_dvd_bmod]
    exact Int.dvd_neg.2 hscaled
  · exact hscaled

theorem Inst.rest_foldOffset_mode5 (hfamily : i.info.family = .mode5) {place immediate : Nat} :
    (i.foldOffset place immediate base offset).rest =
      .ok (Family.mode5.field.split offset).2 := by
  have horient : i.orient offset = i := by
    rw [orient, hfamily]
    exact if_neg (by simp [Family.field])
  have hinfo : (i.setOperand place (.use base)).info.family = .mode5 := hfamily
  simp only [foldOffset, horient, hinfo]
  rfl

/-- They take multiples of a word only. -/
theorem Inst.foldMemory_mode5_iff (hfamily : i.info.family = .mode5)
    (himm : i.operands[2]? = some (.imm v)) :
    (∃ rest, (i.foldMemory 1 base offset).rest = .ok rest) ↔ 4 ∣ offset.toInt := by
  have hmultiple : (offset + Family.mode5.field.decode v) % 4 = 0 ↔ 4 ∣ offset.toInt := by
    rw [← four_dvd_add (four_dvd_decode v), ← Int64.toInt_inj, Int64.toInt_mod]
    exact Int.dvd_iff_tmod_eq_zero.symm
  have hfold : i.foldMemory 1 base offset =
      if (offset + Family.mode5.field.decode v) % 4 ≠ 0 then
        ⟨i, .error (.unencodable, .notMultiple (offset + Family.mode5.field.decode v) 4)⟩
      else i.foldOffset 1 2 base (offset + Family.mode5.field.decode v) := by
    rw [foldMemory, hfamily]
    simp only [himm, Family.isFoldable, Family.field]
    rfl
  rw [hfold, ← hmultiple]
  by_cases hzero : (offset + Family.mode5.field.decode v) % 4 = 0
  · rw [if_neg (not_not_intro hzero), rest_foldOffset_mode5 hfamily]
    exact ⟨fun _ => hzero, fun _ => ⟨_, rfl⟩⟩
  · rw [if_pos hzero]
    refine ⟨?_, fun h => absurd h hzero⟩
    rintro ⟨rest, hrest⟩
    cases hrest

end

namespace Target

/-- The size of a frame is a number of words exactly if it is rounded, since there can be calls, or
no bytes hang over; and exactly then the words of the frame are at multiples of a word from the
stack pointer, whatever call frames are open, so that loads and stores of floating-point registers
can be rewritten. -/
theorem four_dvd_stackSize_iff (t : Target) (scavenger : Bool) {p : Procedure}
    (h : p.frame.IsBare)
    (hsums : t.SumsInRange (t.assignSlots (t.finalizeSpillSet scavenger p))) :
    let q := t.placeFrame (t.assignSlots (t.finalizeSpillSet scavenger p))
    (4 ∣ q.frame.stackSize.toInt ↔ p.frame.hasCalls ∨ p.frame.hasVarSized ∨
      4 ∣ t.overhang (t.assignSlots (t.finalizeSpillSet scavenger p))) ∧
    ∀ j o ls, q.frame.object? j = some o → 4 ∣ o.offset.toInt →
      (4 ∣ (o.offset + q.frame.stackSize + t.openFrame q ls).toInt ↔
        4 ∣ q.frame.stackSize.toInt) ∧
      ∀ w i v, i.info.family = .mode5 → i.operands[2]? = some (.imm v) →
        ((∃ rest, (t.fold w i 1
            ⟨Reg.sp, o.offset + q.frame.stackSize + t.openFrame q ls⟩).rest = .ok rest) ↔
          4 ∣ q.frame.stackSize.toInt) := by
  intro q
  have hplaceable := isPlaceable_assignSlots h hsums.count
  obtain ⟨objects, scavengingIndex, hframe⟩ := t.frame_finalizeSpillSet scavenger p
  have hsize := four_dvd_stackSize_placeFrame_iff hplaceable hsums
  rw [hframe] at hsize
  refine ⟨hsize, fun j o ls _ ho => ?_⟩
  have hword : 4 ∣ (o.offset + q.frame.stackSize + t.openFrame q ls).toInt ↔
      4 ∣ q.frame.stackSize.toInt := by
    rw [four_dvd_add (t.four_dvd_openFrame q ls), Int64.add_comm, four_dvd_add ho]
  refine ⟨hword, fun w i v hfamily himm => ?_⟩
  have hadd : i.op ≠ w.add := by
    intro hop
    rw [Inst.info, hop] at hfamily
    cases w <;> cases hfamily
  rw [fold, if_neg hadd, Inst.foldMemory_mode5_iff hfamily himm, hword]

/-! ## Functions without calls -/

/-- Loads the first object of a function to a floating-point register. -/
def loadDouble : Inst :=
  .make .fldd [.use (.double 0), .frameIndex 0, .imm 0, .cond .al, .use .noreg]

/-- A function that does so, and calls nothing. -/
def loadsDouble (objects : List FrameObject) : Described where
  abi := none
  proc := {
    name := "f"
    blocks := [{ lines := Line.number 0 [loadDouble, .make .bxRet [.cond .al, .use .noreg]] }]
    frame := { objects }
    fresh := 2 }

/-- Its description. -/
def describedLoad (objects : List ObjectDesc) : FunctionDesc where
  name := "f"
  objects := objects
  blocks := [{ insts := ["FLDD d0, fi:0, #0, cc:al, noreg", "BX_RET cc:al, noreg"] }]

/-- A double word with objects below it that together are two words. -/
def evenObjects : List FrameObject :=
  [{ size := 8, align := 8 }, { size := 1, align := 1 }, { size := 2, align := 2 },
    { size := 4, align := 1 }]

theorem sumsInRange_evenObjects : plainDefault.SumsInRange (plainDefault.assignSlots
    (plainDefault.finalizeSpillSet true (loadsDouble evenObjects).proc)) := by
  decide +kernel

theorem four_dvd_stackSize_iff_evenObjects :
    let c := plainDefault.assignSlots (plainDefault.finalizeSpillSet true
      (loadsDouble evenObjects).proc)
    (loadsDouble evenObjects).proc.frame.IsBare ∧ plainDefault.SumsInRange c ∧
    plainDefault.overhang c = 8 ∧ 4 ∣ (plainDefault.placeFrame c).frame.stackSize.toInt ∧
    ∃ o rest, (plainDefault.placeFrame c).frame.object? 0 = some o ∧ (plainDefault.fold .arm
      loadDouble 1 ⟨Reg.sp, o.offset + (plainDefault.placeFrame c).frame.stackSize +
        plainDefault.openFrame (plainDefault.placeFrame c) []⟩).rest = .ok rest := by
  intro c
  have hbuild : (describedLoad [{ size := 8, align := 8 }, { size := 1, align := 1 },
      { size := 2, align := 2 }, { size := 4, align := 1 }]).build =
        .ok (loadsDouble evenObjects) := by decide +kernel
  have hbare := FunctionDesc.isBare_of_build hbuild (by decide)
  have hover : plainDefault.overhang c = 8 := by decide +kernel
  have ho : (plainDefault.placeFrame c).frame.object? 0 =
      some { size := 8, align := 8, offset := -8 } := by decide +kernel
  obtain ⟨hsize, hwords⟩ := four_dvd_stackSize_iff plainDefault true hbare sumsInRange_evenObjects
  have hdvd : 4 ∣ (plainDefault.placeFrame c).frame.stackSize.toInt :=
    hsize.2 (.inr (.inr (by rw [hover]; decide)))
  obtain ⟨rest, hrest⟩ := ((hwords 0 _ [] ho (by decide)).2 .arm loadDouble 0 rfl rfl).2 hdvd
  exact ⟨hbare, sumsInRange_evenObjects, hover, hdvd, _, rest, ho, hrest⟩

/-- With one more byte below a double word, the size of the frame is no number of words. The double
word is at a multiple of eight bytes from the stack pointer on entry and at one byte from it in the
body, and the function cannot be lowered. -/
theorem unaligned_loadsDouble : ∃ objects : List FrameObject,
    (describedLoad [{ size := 8, align := 8 }, { size := 1, align := 1 }]).build =
      .ok (loadsDouble objects) ∧
    ¬ 4 ∣ (plainDefault.placeFrame (plainDefault.assignSlots
      (plainDefault.finalizeSpillSet true (loadsDouble objects).proc))).frame.stackSize.toInt ∧
    (plainDefault.lower (loadsDouble objects).proc).proc.frame.object? 0 =
      some { size := 8, align := 8, offset := -8 } ∧
    (plainDefault.lower (loadsDouble objects).proc).failure =
      some (.error (.inst "f" 0 loadDouble .unencodable (.notMultiple 1 4))) := by
  refine ⟨[{ size := 8, align := 8 }, { size := 1, align := 1 }], ?_, ?_, ?_, ?_⟩
  all_goals decide +kernel

end Target

end FrameLowering
