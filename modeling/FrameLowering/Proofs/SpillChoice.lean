import FrameLowering.Proofs.FrameInvariant

/-!
# What the spill set contains

Whatever else the choice of the spill set adds, the callee-saved registers in use are
spilled, and with a stack frame so is a frame pointer that is set up. Nothing but the spill
set, the register table and possibly one new object for scavenging changes.
-/

namespace FrameLowering

theorem RegSet.contains_insert {s : RegSet} {r x : Reg} :
    (s.insert r).contains x ↔ x = r ∨ s.contains x := by
  rw [insert]
  split
  · next h =>
    constructor
    · exact .inr
    · rintro (rfl | hx)
      · exact h
      · exact hx
  · simp [contains]

/-! ## Registers in use -/

/-- What holds after the step for one of some elements, and is kept by all steps, holds after the
steps for all of them. -/
theorem foldl_of_mem {α β : Type} {f : β → α → β} {P : β → Prop} {x : α} {xs : List α} {b : β}
    (hkeep : ∀ b y, P b → P (f b y)) (hmake : ∀ b, P (f b x)) (h : P b ∨ x ∈ xs) :
    P (xs.foldl f b) := by
  induction xs generalizing b with
  | nil => simpa using h
  | cons y xs ih =>
    refine ih ?_
    rcases h with h | h
    · exact .inl (hkeep b y h)
    · rcases List.mem_cons.1 h with rfl | h
      · exact .inl (hmake b)
      · exact .inr h

namespace RegTable

theorem isUsed_foldl {t : RegTable} {rs : List Reg} {r : Reg} (h : t.isUsed r ∨ r ∈ rs) :
    (rs.foldl use t).isUsed r :=
  foldl_of_mem (P := fun t : RegTable => t.isUsed r)
    (fun _ _ h => RegSet.contains_insert.2 (.inr h))
    (fun _ => RegSet.contains_insert.2 (.inl rfl)) h

theorem isUsed_foldl_usesOf {t : RegTable} {is : List Inst} {i : Inst} {r : Reg} (hi : i ∈ is)
    (hr : r ∈ Procedure.usesOf i) :
    (is.foldl (fun t i => (Procedure.usesOf i).foldl use t) t).isUsed r :=
  foldl_of_mem (P := fun t : RegTable => t.isUsed r) (fun _ _ h => isUsed_foldl (.inl h))
    (fun _ => isUsed_foldl (.inr hr)) (.inr hi)

end RegTable

theorem Inst.mem_usesOf {i : Inst} {r : Reg} (h : r ∈ i.reach) (hphysical : r.isPhysical)
    (hspecial : r.isSpecial = false) : r ∈ Procedure.usesOf i := by
  rcases List.mem_append.1 h with h | h
  · exact List.mem_append_left _ (List.mem_filter.2 ⟨h, by simp [hphysical, hspecial]⟩)
  · exact List.mem_append_right _ h

/-- A callee-saved register is in use if an instruction can change its storage. -/
theorem Target.isUsed_of_overlaps {t : Target} {p : Procedure} {cs : CalleeSaved} {i : Inst}
    {x : Reg} (hcs : cs ∈ t.calleeSaved) (hi : i ∈ p.insts) (hx : x ∈ i.reach)
    (hover : x.overlaps cs.reg) : p.markUsed.isUsed cs.reg := by
  have hused {r : Reg} (hr : r ∈ Procedure.usesOf i) : p.markUsed.regs.isUsed r :=
    RegTable.isUsed_foldl_usesOf hi hr
  rcases hasSlot_of_mem_calleeSaved hcs with ⟨n, hn⟩ | ⟨n, hn⟩
  · have hspecial : (Reg.core n).isSpecial = false := by
      rw [← hn]
      rcases t.abi.area_cases (mem_calleeSaved_facts hcs).saved with ⟨hmem, -⟩ | ⟨hmem, -⟩
      all_goals
        revert hmem
        generalize cs.reg = r
        revert r
        decide
    rw [hn] at hover ⊢
    obtain rfl := Reg.overlaps_core_iff.1 hover
    exact Bool.or_eq_true_iff.2 (.inl (hused (Inst.mem_usesOf hx rfl hspecial)))
  · rw [hn] at hover ⊢
    rcases Bool.or_eq_true_iff.1 hover with heq | halias
    · obtain rfl := of_decide_eq_true heq
      exact Bool.or_eq_true_iff.2 (.inl (hused (Inst.mem_usesOf hx rfl rfl)))
    · -- Half of the register is changed through a single-precision register.
      cases x with
      | single k =>
        simp only [Reg.aliases, List.mem_singleton, Reg.double.injEq, decide_eq_true_eq] at halias
        subst halias
        refine Bool.or_eq_true_iff.2 (.inr (List.any_eq_true.2 ⟨_, ?_, hused
          (Inst.mem_usesOf hx rfl rfl)⟩))
        have hlt : k.val / 2 < 16 := by omega
        simp only [Reg.aliases, dif_pos hlt, List.mem_cons, Reg.single.injEq, Fin.ext_iff,
          List.not_mem_nil, or_false]
        omega
      | double m =>
        simp only [Reg.aliases] at halias
        split at halias <;> simp at halias
      | _ => simp [Reg.aliases] at halias

/-! ## Stages of the choice -/

/-- A function with more registers spilled than another. -/
def Procedure.Spills (p q : Procedure) : Prop :=
  ∃ regs spilled, q = { p with regs, layout := { p.layout with spilled } } ∧
    ∀ r, p.layout.isSpilled r → q.layout.isSpilled r

namespace Procedure

theorem Spills.refl (p : Procedure) : p.Spills p :=
  ⟨p.regs, p.layout.spilled, rfl, fun _ => id⟩

theorem Spills.trans {p q r : Procedure} (h : p.Spills q) (h' : q.Spills r) : p.Spills r := by
  obtain ⟨_, _, rfl, hs⟩ := h
  obtain ⟨regs, spilled, rfl, hs'⟩ := h'
  exact ⟨regs, spilled, rfl, fun x hx => hs' x (hs x hx)⟩

theorem spills_spill (p : Procedure) (r : Reg) : p.Spills (p.spill r) :=
  ⟨_, _, rfl, fun _ hx => RegSet.contains_insert.2 (.inr hx)⟩

theorem isSpilled_spill (p : Procedure) (r : Reg) : (p.spill r).layout.isSpilled r :=
  RegSet.contains_insert.2 (.inl rfl)

theorem spills_foldl (p : Procedure) (rs : List Reg) : p.Spills (rs.foldl spill p) := by
  induction rs generalizing p with
  | nil => exact .refl p
  | cons r rs ih => exact (p.spills_spill r).trans (ih _)

end Procedure

/-- The slot for a register that is borrowed. -/
def scavengingSlot : FrameObject :=
  { size := 4, align := 4 }

namespace Target

section
variable (t : Target) (p : Procedure) (s : SpillPlan)

theorem planLink_facts : s.proc.Spills (t.planLink p s).proc ∧
    (s.farJump = false → (t.planLink p s).farJump = false) := by
  rw [planLink]
  split
  · exact ⟨s.proc.spills_spill _, fun _ => rfl⟩
  · exact ⟨.refl _, id⟩

theorem planPointer_facts : s.proc.Spills (t.planPointer p s).proc ∧
    (t.planPointer p s).farJump = s.farJump ∧
    (t.abi.darwin || t.hasPointer p → (t.planPointer p s).proc.layout.isSpilled t.framePointer) := by
  rw [planPointer]
  split
  · dsimp only
    by_cases hfp : s.proc.layout.isSpilled t.framePointer
    · rw [if_pos hfp]
      exact ⟨.refl _, rfl, fun _ => hfp⟩
    · rw [if_neg hfp]
      exact ⟨s.proc.spills_spill _, rfl, fun _ => s.proc.isSpilled_spill _⟩
  · next h => exact ⟨.refl _, rfl, fun h' => absurd h' h⟩

theorem planAlignment_facts : s.proc.Spills (t.planAlignment p s).proc ∧
    (t.planAlignment p s).farJump = s.farJump := by
  rw [planAlignment]
  split
  · split
    · exact ⟨s.proc.spills_spill _, rfl⟩
    · exact ⟨.refl _, rfl⟩
  · exact ⟨.refl _, rfl⟩

/-- Headroom is a matter of more spilled registers or of a slot for scavenging. -/
theorem planHeadroom_facts (scavenger : Bool) :
    (t.planHeadroom p scavenger s).farJump = s.farJump ∧
      ∃ q, s.proc.Spills q ∧ ((t.planHeadroom p scavenger s).proc = q ∨
        (t.planHeadroom p scavenger s).proc = { q with frame := { q.frame with
          objects := q.frame.objects ++ [scavengingSlot]
          scavengingIndex := Int64.ofNat q.frame.objects.length } }) := by
  rw [planHeadroom]
  split
  · refine ⟨rfl, ?_⟩
    show ∃ q, s.proc.Spills q ∧ (t.reserveHeadroom p s = q ∨ t.reserveHeadroom p s = _)
    rw [reserveHeadroom]
    split
    · exact ⟨s.proc, .refl _, .inl rfl⟩
    · simp only
      split
      · exact ⟨_, s.proc.spills_foldl _, .inl rfl⟩
      · exact ⟨s.proc, .refl _, .inr rfl⟩
  · exact ⟨rfl, s.proc, .refl _, .inl rfl⟩

end

/-- The choice of the spill set of a function. -/
structure ChoosesSpills (t : Target) (p q : Procedure) : Prop where
  shape : ∃ regs spilled hasStackFrame objects scavengingIndex,
    q = { p with
      regs
      layout := { p.layout with spilled, hasStackFrame }
      frame := { p.frame with objects, scavengingIndex } }
  objects : (q.frame.objects = p.frame.objects ∧
      q.frame.scavengingIndex = p.frame.scavengingIndex) ∨
    (q.frame.objects = p.frame.objects ++ [scavengingSlot] ∧
      q.frame.scavengingIndex = Int64.ofNat p.frame.objects.length)
  used : ∀ cs ∈ t.calleeSaved, p.isUsed cs.reg → q.layout.isSpilled cs.reg
  pointer : q.layout.hasStackFrame → t.setsPointer p → q.layout.isSpilled t.framePointer
  framed : t.hasPointer p → q.layout.hasStackFrame
  unframed : ¬ q.layout.hasStackFrame → q.layout.spilled = p.layout.spilled

section
variable {t : Target} {p : Procedure}

theorem isSpilled_foldl {l : Layout} {css : List CalleeSaved} {r : Reg}
    (h : l.isSpilled r ∨ ∃ cs ∈ css, cs.reg = r) :
    (css.foldl (fun l cs => l.spill cs.reg) l).isSpilled r := by
  induction css generalizing l with
  | nil => simpa using h
  | cons cs css ih =>
    refine ih ?_
    rcases h with h | ⟨x, hx, rfl⟩
    · exact .inl (RegSet.contains_insert.2 (.inr h))
    · rcases List.mem_cons.1 hx with rfl | hx
      · exact .inl (RegSet.contains_insert.2 (.inl rfl))
      · exact .inr ⟨x, hx, rfl⟩

theorem foldl_spill_eq (l : Layout) (css : List CalleeSaved) :
    ∃ spilled, css.foldl (fun l cs => l.spill cs.reg) l = { l with spilled } := by
  induction css generalizing l with
  | nil => exact ⟨l.spilled, rfl⟩
  | cons cs css ih =>
    obtain ⟨spilled, h⟩ := ih (l.spill cs.reg)
    exact ⟨spilled, h⟩

/-- The choice of the spill set of a function with a stack frame. -/
theorem choosesSpills_of_plan {s : SpillPlan} {spilled : RegSet} (scavenger : Bool)
    (hfar : s.farJump = false)
    (hproc : s.proc = { p with layout := { p.layout with spilled, hasStackFrame := true } })
    (hused : ∀ cs ∈ t.calleeSaved, p.isUsed cs.reg → s.proc.layout.isSpilled cs.reg) :
    t.ChoosesSpills p (spillForFarJump (t.planHeadroom p scavenger
      (t.planAlignment p (t.planPointer p (t.planLink p s))))) := by
  -- Each stage spills more than the one before.
  have link := planLink_facts t p s
  have pointer := planPointer_facts t p (t.planLink p s)
  have alignment := planAlignment_facts t p (t.planPointer p (t.planLink p s))
  obtain ⟨hroomFar, q, hroom, hq⟩ := planHeadroom_facts t p
    (t.planAlignment p (t.planPointer p (t.planLink p s))) scavenger
  have hnofar := hroomFar.trans (alignment.2.trans (pointer.2.1.trans (link.2 hfar)))
  rw [spillForFarJump, if_neg (by simp [hnofar])]
  have hafter := alignment.1.trans hroom
  have hall := (link.1.trans pointer.1).trans hafter
  have hpointer : t.setsPointer p → q.layout.isSpilled t.framePointer := by
    intro hsets
    obtain ⟨_, _, -, hmono⟩ := hafter
    exact hmono _ (pointer.2.2 hsets)
  obtain ⟨regs, spilled', rfl, hmono⟩ := hall
  rw [hproc] at hq hpointer hmono hused
  rcases hq with hq | hq
  · rw [hq]
    exact ⟨⟨regs, spilled', true, _, _, rfl⟩, .inl ⟨rfl, rfl⟩,
      fun cs hcs h => hmono _ (hused cs hcs h), fun _ => hpointer, fun _ => rfl,
      fun h => absurd rfl h⟩
  · rw [hq]
    exact ⟨⟨regs, spilled', true, _, _, rfl⟩, .inr ⟨rfl, rfl⟩,
      fun cs hcs h => hmono _ (hused cs hcs h), fun _ => hpointer, fun _ => rfl,
      fun h => absurd rfl h⟩

/-- The choice of the spill set on an instruction set with wide immediates. -/
theorem choosesSpills_finalizeSpillSet (scavenger : Bool) (hwide : t.abi.thumb1Only = false)
    (hfresh : p.layout.hasStackFrame = false) :
    t.ChoosesSpills p (t.finalizeSpillSet scavenger p) := by
  have hfar : (t.startPlan p).farJump = false := by
    show (!t.linkInUse p && t.abi.thumb1Only && decide _) = false
    rw [hwide, Bool.and_false, Bool.false_and]
  have hused : ∀ cs ∈ t.calleeSaved, p.isUsed cs.reg →
      (t.startPlan p).proc.layout.isSpilled cs.reg := by
    intro cs hcs hused
    exact isSpilled_foldl (.inr ⟨cs, List.mem_filter.2 ⟨hcs, hused⟩, rfl⟩)
  obtain ⟨spilled, hlayout⟩ := foldl_spill_eq p.layout (t.savedInUse p)
  have hproc : (t.startPlan p).proc = { p with layout := { p.layout with spilled } } := by
    rw [← hlayout]
    rfl
  rw [finalizeSpillSet]
  split
  · have hframed : ({ (t.startPlan p).proc with
        layout := { (t.startPlan p).proc.layout with hasStackFrame := true } } : Procedure) =
        { p with layout := { p.layout with spilled, hasStackFrame := true } } := by
      rw [hproc]
    exact choosesSpills_of_plan scavenger hfar hframed hused
  · next hnone =>
    simp only [Bool.or_eq_true, decide_eq_true_eq, not_or, not_not] at hnone
    obtain ⟨⟨hempty, -⟩, hpointer⟩ := hnone
    -- without a stack frame nothing was in use, so that nothing is spilled
    have hsame : (t.startPlan p).proc = p := by
      show ({ p with layout := (t.savedInUse p).foldl (fun l cs => l.spill cs.reg) p.layout } :
        Procedure) = p
      rw [hempty]
      rfl
    rw [spillForFarJump, if_neg (by simp [hfar]), hsame]
    rw [hsame] at hused
    exact ⟨⟨_, _, _, _, _, rfl⟩, .inl ⟨rfl, rfl⟩, hused, fun h => absurd h (by simp [hfresh]),
      fun h => absurd h hpointer, fun _ => rfl⟩

end

end Target

end FrameLowering
