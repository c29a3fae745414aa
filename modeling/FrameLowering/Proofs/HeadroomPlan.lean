import FrameLowering.Proofs.IdleRegisters
import FrameLowering.Proofs.Leftovers

/-!
# The plan for headroom

When a frame may be too large for some instruction, the choice of the spill set makes sure of a
scratch register: it spills registers that the function does not use (`Target.headroom`), or makes
a slot for scavenging if there are too few of them. Here is what either choice leaves behind: a
spare register without a slot (`NeedsHeadroom.isSpare`), or a slot that lies right below the saved
registers if there is a frame pointer (`NeedsHeadroom.slot_of_unspilled`).
-/

namespace FrameLowering

namespace Target

/-- The function with the decision about the frame pointer made. -/
def decided (t : Target) (p : Procedure) : Procedure :=
  t.decidePointer p.markUsed

/-- The plan for the spill set of a function with a stack frame, before headroom is made. -/
def framedPlan (t : Target) (p : Procedure) : SpillPlan :=
  let s := t.startPlan p
  t.planAlignment p (t.planPointer p (t.planLink p
    { s with proc := { s.proc with layout := { s.proc.layout with hasStackFrame := true } } }))

/-- Number of registers that are spilled for headroom. -/
def headroomCount (t : Target) : Nat :=
  (t.abi.stackAlignment / 4).toInt.toNat

/-- Registers that are spilled for headroom, or as many as there are. -/
def headroom (t : Target) (p : Procedure) : List Reg :=
  let s := t.framedPlan (t.decided p)
  ((s.free1.reverse ++ s.free2.reverse).filter fun r => !t.isReserved (t.decided p) r).take
    t.headroomCount

/-- There are enough registers to spill for headroom; otherwise a slot for scavenging is made. -/
def SpillsHeadroom (t : Target) (p : Procedure) : Prop :=
  (t.headroom p).length = t.headroomCount

/-- The choice of the spill set comes to the question of headroom, and the frame may be too large
for some instruction. -/
structure NeedsHeadroom (t : Target) (p : Procedure) : Prop where
  scavenging : t.config.scavenging
  wide : t.abi.thumb1Only = false
  framed : t.savedInUse (t.decided p) ≠ [] ∨ t.hasPointer (t.decided p)
  extra : (t.framedPlan (t.decided p)).extra = false
  large : ¬ (t.framedPlan (t.decided p)).proc.estimateSize <
    (t.framedPlan (t.decided p)).proc.narrowestLimit

instance (t : Target) (p : Procedure) : Decidable (t.SpillsHeadroom p) :=
  inferInstanceAs (Decidable (_ = _))

instance (t : Target) (p : Procedure) : Decidable (t.NeedsHeadroom p) :=
  decidable_of_iff (t.config.scavenging ∧ t.abi.thumb1Only = false ∧
      (t.savedInUse (t.decided p) ≠ [] ∨ t.hasPointer (t.decided p)) ∧
      (t.framedPlan (t.decided p)).extra = false ∧
      ¬ (t.framedPlan (t.decided p)).proc.estimateSize <
        (t.framedPlan (t.decided p)).proc.narrowestLimit)
    ⟨fun ⟨h₁, h₂, h₃, h₄, h₅⟩ => ⟨h₁, h₂, h₃, h₄, h₅⟩,
      fun ⟨h₁, h₂, h₃, h₄, h₅⟩ => ⟨h₁, h₂, h₃, h₄, h₅⟩⟩

section
variable {t : Target} {p : Procedure} {r : Reg}

/-! ## Registers that are not in use -/

theorem free_planLink {s : SpillPlan}
    (h : r ∈ (t.planLink p s).free1 ∨ r ∈ (t.planLink p s).free2) : r ∈ s.free1 ∨ r ∈ s.free2 := by
  rw [planLink] at h
  split at h
  · exact h.imp List.mem_of_mem_erase id
  · exact h

theorem free_planPointer {s : SpillPlan}
    (h : r ∈ (t.planPointer p s).free1 ∨ r ∈ (t.planPointer p s).free2) :
    r ∈ s.free1 ∨ r ∈ s.free2 := by
  rw [planPointer] at h
  split at h
  · dsimp only at h
    split at h
    · exact h.imp List.mem_of_mem_erase List.mem_of_mem_erase
    · exact h.imp List.mem_of_mem_erase List.mem_of_mem_erase
  · exact h

theorem free_planAlignment {s : SpillPlan}
    (h : r ∈ (t.planAlignment p s).free1 ∨ r ∈ (t.planAlignment p s).free2) :
    r ∈ s.free1 ∨ r ∈ s.free2 := by
  rw [planAlignment] at h
  split at h
  · split at h
    · exact h.imp List.mem_of_mem_erase List.mem_of_mem_erase
    · exact h
  · exact h

/-- The registers that are free to be spilled are callee-saved core registers not in use. -/
theorem unused_of_free (h : r ∈ (t.framedPlan p).free1 ∨ r ∈ (t.framedPlan p).free2) :
    ∃ cs ∈ t.savedCores, cs.reg = r ∧ p.isUsed r = false := by
  have hstart := free_planLink (free_planPointer (free_planAlignment h))
  have hfree : ∃ cs ∈ t.savedCores.filter fun cs => !p.isUsed cs.reg, cs.reg = r := by
    rcases hstart with h | h
    · obtain ⟨cs, hcs, rfl⟩ := List.mem_map.1 h
      exact ⟨cs, (List.mem_filter.1 hcs).1, rfl⟩
    · obtain ⟨cs, hcs, rfl⟩ := List.mem_map.1 h
      exact ⟨cs, (List.mem_filter.1 hcs).1, rfl⟩
  obtain ⟨cs, hcs, rfl⟩ := hfree
  obtain ⟨hmem, hunused⟩ := List.mem_filter.1 hcs
  exact ⟨cs, hmem, rfl, by simpa using hunused⟩

/-- A callee-saved register that is spilled as a core register is one. -/
theorem core_of_mem_savedCores {cs : CalleeSaved} (h : cs ∈ t.savedCores) :
    cs ∈ t.calleeSaved ∧ ∃ n, cs.reg = .core n := by
  obtain ⟨hmem, hclass⟩ := List.mem_filter.1 h
  refine ⟨hmem, ?_⟩
  rcases hasSlot_of_mem_calleeSaved hmem with hcore | ⟨n, hn⟩
  · exact hcore
  · rw [hn] at hclass
    cases hclass

theorem mem_headroom_facts (h : r ∈ t.headroom p) :
    t.isReserved (t.decided p) r = false ∧ ∃ cs ∈ t.calleeSaved, ∃ n, cs.reg = r ∧ r = .core n ∧
      p.markUsed.isUsed r = false := by
  obtain ⟨hfree, hreserved⟩ := List.mem_filter.1 (List.mem_of_mem_take h)
  have hlists : r ∈ (t.framedPlan (t.decided p)).free1 ∨ r ∈ (t.framedPlan (t.decided p)).free2 :=
    (List.mem_append.1 hfree).imp List.mem_reverse.1 List.mem_reverse.1
  obtain ⟨cs, hcs, rfl, hunused⟩ := unused_of_free hlists
  obtain ⟨hmem, n, hn⟩ := core_of_mem_savedCores hcs
  exact ⟨by simpa using hreserved, cs, hmem, n, rfl, hn, hunused⟩

/-! ## What is chosen -/

/-- Without Thumb-1 nothing is spilled for the sake of far branches. -/
theorem farJump_framedPlan (hwide : t.abi.thumb1Only = false) :
    (t.framedPlan p).farJump = false := by
  have hstart : (t.startPlan p).farJump = false := by
    show (!t.linkInUse p && t.abi.thumb1Only && decide _) = false
    rw [hwide, Bool.and_false, Bool.false_and]
  rw [framedPlan]
  exact (planAlignment_facts t p _).2.trans
    ((planPointer_facts t p _).2.1.trans ((planLink_facts t p _).2 hstart))

theorem NeedsHeadroom.finalizeSpillSet_eq (h : t.NeedsHeadroom p) :
    t.finalizeSpillSet t.config.scavenging (t.decided p) =
      t.reserveHeadroom (t.decided p) (t.framedPlan (t.decided p)) := by
  have hfar := farJump_framedPlan (p := t.decided p) h.wide
  have hframed : (t.savedInUse (t.decided p) ≠ [] || (t.startPlan (t.decided p)).farJump ||
      t.hasPointer (t.decided p)) = true := by
    rcases h.framed with hused | hpointer
    · simp [hused]
    · simp [hpointer]
  have hroom : t.planHeadroom (t.decided p) true (t.framedPlan (t.decided p)) =
      { t.framedPlan (t.decided p) with
        proc := t.reserveHeadroom (t.decided p) (t.framedPlan (t.decided p)) } := by
    rw [planHeadroom, if_pos (by simp [h.extra, h.wide])]
  rw [h.scavenging, finalizeSpillSet, if_pos hframed]
  show spillForFarJump (t.planHeadroom (t.decided p) true (t.framedPlan (t.decided p))) = _
  rw [hroom, spillForFarJump, if_neg (by simp [hfar])]

/-- With enough registers to spill, they are spilled and the objects stay as they are. -/
theorem NeedsHeadroom.chosen_of_spills (h : t.NeedsHeadroom p) (hspills : t.SpillsHeadroom p) :
    t.finalizeSpillSet t.config.scavenging (t.decided p) =
      (t.headroom p).foldl Procedure.spill (t.framedPlan (t.decided p)).proc := by
  rw [h.finalizeSpillSet_eq, reserveHeadroom, if_neg h.large]
  exact if_pos hspills

/-- Otherwise there is a new object. -/
theorem NeedsHeadroom.chosen_of_unspilled (h : t.NeedsHeadroom p) (hspills : ¬ t.SpillsHeadroom p) :
    t.finalizeSpillSet t.config.scavenging (t.decided p) =
      { (t.framedPlan (t.decided p)).proc with
        frame := withScavenging (t.framedPlan (t.decided p)).proc.frame } := by
  rw [h.finalizeSpillSet_eq, reserveHeadroom, if_neg h.large]
  exact if_neg hspills

theorem isSpilled_foldl_spill {rs : List Reg} (h : r ∈ rs) :
    (rs.foldl Procedure.spill p).layout.isSpilled r :=
  foldl_of_mem (P := fun p : Procedure => p.layout.isSpilled r)
    (fun _ _ h => RegSet.contains_insert.2 (.inr h)) (fun p => p.isSpilled_spill r) (.inr h)

theorem frame_framedPlan (t : Target) (p : Procedure) : (t.framedPlan p).proc.frame = p.frame := by
  obtain ⟨_, _, hproc, -⟩ := ((planLink_facts t p _).1.trans (planPointer_facts t p _).1).trans
    (planAlignment_facts t p _).1
  rw [framedPlan, hproc]
  rfl

/-- A register that was spilled for headroom is spare. -/
theorem NeedsHeadroom.isSpare {q : Procedure} {n : Fin 16} (h : t.NeedsHeadroom p)
    (hp : p.IsUnframed) (hspills : t.SpillsHeadroom p) (hn : .core n ∈ t.headroom p)
    (hpointer : .core n ≠ t.framePointer) (hsaved : q.frame.saved = (t.planned p).frame.saved) :
    t.IsSpare p q n := by
  obtain ⟨-, cs, hcs, _, hreg, -, hunused⟩ := mem_headroom_facts hn
  refine ⟨?_, ?_, hreg ▸ ne_sp_of_mem_calleeSaved hcs, hpointer⟩
  · intro i hi hx
    have hover : (Reg.core n).overlaps cs.reg := by
      rw [hreg]
      simp [Reg.overlaps]
    have hused := isUsed_of_overlaps hcs hi hx hover
    rw [hreg, hunused] at hused
    cases hused
  · have hplans := plans_placeFrame t.config.scavenging h.wide hp
    have hspilled : (t.planned p).layout.isSpilled cs.reg := by
      show (t.finalizeSpillSet t.config.scavenging (t.decided p)).layout.isSpilled cs.reg
      rw [h.chosen_of_spills hspills, hreg]
      exact isSpilled_foldl_spill hn
    obtain ⟨σ, hσ, hσreg⟩ := (hplans.spilled cs hcs).1 hspilled
    rw [hsaved]
    exact ⟨σ, hσ, hσreg.trans hreg⟩

/-- With registers spilled for headroom there is no slot for scavenging. -/
theorem NeedsHeadroom.object?_of_spills (h : t.NeedsHeadroom p) (hp : p.IsUnframed)
    (hspills : t.SpillsHeadroom p) :
    (t.planned p).frame.object? (t.planned p).frame.scavengingIndex = none := by
  obtain ⟨c, hc, -, hscavenging, hplaced⟩ :=
    places_of_isUnframed t.config.scavenging h.wide hp
  have hframe : c.frame = p.markUsed.frame := by
    obtain ⟨_, _, hspill, -⟩ :=
      Procedure.spills_foldl (t.framedPlan (t.decided p)).proc (t.headroom p)
    rw [hc]
    show (t.finalizeSpillSet t.config.scavenging (t.decided p)).frame = _
    rw [h.chosen_of_spills hspills, hspill]
    exact t.frame_framedPlan (t.decided p)
  have hplanned : t.planned p = t.placeFrame (t.assignSlots c) := by
    rw [planned, hc]
  rw [hplanned]
  have hindex : (t.placeFrame (t.assignSlots c)).frame.scavengingIndex = noIndex := by
    obtain ⟨_, _, _, hshape⟩ := hplaced.shape
    rw [hshape]
    show c.frame.scavengingIndex = _
    rw [hframe]
    exact hp.unscavenged
  cases hobject : (t.placeFrame (t.assignSlots c)).frame.object?
      (t.placeFrame (t.assignSlots c)).frame.scavengingIndex with
  | none => rfl
  | some o =>
    obtain ⟨o', ho', -⟩ := hplaced.moves _ o hobject
    have hfixed : (t.assignSlots c).frame.fixed.length < 2 ^ 31 := hscavenging.few.2
    rw [hindex, Frame.object?_noIndex hfixed] at ho'
    cases ho'

/-- Otherwise there is one. With a frame pointer it is next to the saved registers. -/
theorem NeedsHeadroom.slot_of_unspilled (h : t.NeedsHeadroom p) (hp : p.IsUnframed)
    (hspills : ¬ t.SpillsHeadroom p) :
    ∃ o, (t.planned p).frame.object? (t.planned p).frame.scavengingIndex = some o ∧
      (t.hasPointer p →
        -(savedBytes (t.planned p).frame.saved + 8 : Int) < o.offset.toInt ∧
        o.offset.toInt ≤ -(savedBytes (t.planned p).frame.saved + 4 : Int)) := by
  obtain ⟨c, hc, hchosen, hscavenging, hplaced⟩ :=
    places_of_isUnframed t.config.scavenging h.wide hp
  have hframe : c.frame = withScavenging p.markUsed.frame := by
    rw [hc]
    show (t.finalizeSpillSet t.config.scavenging (t.decided p)).frame = _
    rw [h.chosen_of_unspilled hspills]
    exact congrArg withScavenging (t.frame_framedPlan (t.decided p))
  have hslot : c.frame.object? c.frame.scavengingIndex = some scavengingSlot := by
    have hfew : p.markUsed.frame.objects.length < 2 ^ 63 := by
      have : p.markUsed.frame.objects.length + 1 < 2 ^ 31 := hp.few.1
      omega
    rw [hframe]
    show (withScavenging p.markUsed.frame).object?
      (Int64.ofNat p.markUsed.frame.objects.length) = _
    rw [Frame.object?_ofNat _ hfew]
    exact List.getElem?_concat_length
  have hplanned : t.planned p = t.placeFrame (t.assignSlots c) := by
    rw [planned, hc]
  rw [hplanned]
  obtain ⟨_, _, _, hshape⟩ := id hplaced.shape
  have hindex : (t.placeFrame (t.assignSlots c)).frame.scavengingIndex =
      c.frame.scavengingIndex := by
    rw [hshape]
  have hsaved : (t.placeFrame (t.assignSlots c)).frame.saved = t.savedSlots c := by
    rw [hshape]
  obtain ⟨o, ho, -⟩ := hplaced.object _ _ hslot
  rw [hindex, hsaved]
  refine ⟨o, ho, ?_⟩
  intro hpointer
  have hdecided : t.hasPointer c := by
    rw [hchosen.hasPointer_eq, hasPointer_decidePointer hp.layout]
    exact hpointer
  exact (hplaced.next hdecided (object?_assignSlots hslot) o ho).symm

end

end Target

end FrameLowering
