import FrameLowering.Proofs.BuiltFunction
import FrameLowering.Proofs.HeadroomPlan

/-!
# What the spill set covers

The choice of the spill set begins with the callee-saved registers in use and goes through stages,
each of which spills more registers: the link register, the frame pointer, one for alignment, and
some for headroom. Every register that a stage spills is one that it may spill
(`Target.MaySpill`), and is marked as used at the same time. This is preserved by spilling one
register (`Target.Accounts.spill`), so it holds after every stage. `Target.coversUses` is the main
statement. The slots that are made for the spilled registers are in a row below the stack pointer on
entry (`Target.tiles_of_isUnplanned`).
-/

namespace FrameLowering

/-- A function for which no part of the frame has been decided. -/
structure Procedure.IsUnplanned (p : Procedure) : Prop where
  spilled : p.layout.spilled = {}
  unframed : p.layout.hasStackFrame = false
  areas : p.layout.areas = []
  unscavenged : p.frame.scavengingIndex = noIndex

theorem Procedure.IsUnplanned.markUsed {p : Procedure} (h : p.IsUnplanned) :
    p.markUsed.IsUnplanned :=
  ⟨h.spilled, h.unframed, h.areas, h.unscavenged⟩

theorem FunctionDesc.isUnplanned_of_build {d : FunctionDesc} {u : Described}
    (h : d.build = .ok u) : u.proc.IsUnplanned := by
  obtain ⟨-, abi, regs, frame, blocks, fresh, hframe, -, rfl⟩ := build_cases h
  obtain ⟨-, objects, fixed, rfl⟩ := frame_of_buildObjects hframe
    ⟨fun o ho => absurd ho List.not_mem_nil, fun o ho => absurd ho List.not_mem_nil⟩
  exact ⟨rfl, rfl, rfl, rfl⟩

/-- What an instruction writes is in its reach, or shares storage with what is. -/
theorem Inst.exists_reach_of_writes {i : Inst} {r : Reg} (h : i.writes r) :
    ∃ x ∈ i.reach, x.overlaps r := by
  rcases Bool.or_eq_true_iff.1 h with h | h
  · obtain ⟨o, ho, hwrite⟩ := List.any_eq_true.1 h
    exact ⟨o.register, mem_reach_of_operand ho, (Bool.and_eq_true_iff.1 hwrite).2⟩
  · obtain ⟨hcall, hclobber⟩ := Bool.and_eq_true_iff.1 h
    obtain ⟨x, hx, hover⟩ := List.any_eq_true.1 hclobber
    refine ⟨x, List.mem_append_right _ ?_, hover⟩
    rw [if_pos hcall]
    exact hx

theorem Reg.overlaps_of_mem_aliases {r x : Reg} (h : x ∈ r.aliases) : x.overlaps r := by
  refine Bool.or_eq_true_iff.2 (.inr (decide_eq_true ?_))
  cases r with
  | single n =>
    obtain rfl := List.mem_singleton.1 h
    have hlt : n.val / 2 < 16 := by omega
    simp only [aliases, dif_pos hlt, List.mem_cons, Reg.single.injEq, Fin.ext_iff,
      List.not_mem_nil, or_false]
    omega
  | double n =>
    rw [aliases] at h
    split at h
    · simp only [List.mem_cons, List.not_mem_nil, or_false] at h
      rcases h with rfl | rfl
      · simp [aliases]
      · simp only [aliases, List.mem_singleton, Reg.double.injEq, Fin.ext_iff]
        omega
    · exact absurd h List.not_mem_nil
  | _ => exact absurd h List.not_mem_nil

/-- A register in use overlaps one that is marked. -/
theorem Procedure.exists_marked_of_isUsed {p : Procedure} {r : Reg} (h : p.isUsed r) :
    ∃ x, p.regs.isUsed x ∧ x.overlaps r := by
  rcases Bool.or_eq_true_iff.1 h with h | h
  · exact ⟨r, h, Bool.or_eq_true_iff.2 (.inl (decide_eq_true rfl))⟩
  · obtain ⟨x, hx, hused⟩ := List.any_eq_true.1 h
    exact ⟨x, hused, Reg.overlaps_of_mem_aliases hx⟩

theorem Procedure.isUsed_spill {p : Procedure} {r x : Reg} (h : p.isUsed x ∨ x = r) :
    (p.spill r).isUsed x := by
  have hmarked {y : Reg} (hy : p.regs.isUsed y) : (p.spill r).regs.isUsed y :=
    RegSet.contains_insert.2 (.inr hy)
  rcases h with h | rfl
  · rcases Bool.or_eq_true_iff.1 h with h | h
    · exact Bool.or_eq_true_iff.2 (.inl (hmarked h))
    · obtain ⟨y, hy, hused⟩ := List.any_eq_true.1 h
      exact Bool.or_eq_true_iff.2 (.inr (List.any_eq_true.2 ⟨y, hy, hmarked hused⟩))
  · exact Bool.or_eq_true_iff.2 (.inl (RegSet.contains_insert.2 (.inl rfl)))

namespace Target

/-! ## Registers that may be spilled -/

/-- The registers that the choice of the spill set may add to those in use. -/
inductive MaySpill (t : Target) (p : Procedure) : Reg → Prop
  | link : MaySpill t p Reg.lr
  | pointer : MaySpill t p t.framePointer
  | idle {cs : CalleeSaved} (hcs : cs ∈ t.savedCores) (hunused : p.isUsed cs.reg = false)
      (hreserved : t.isReserved p cs.reg = false) : MaySpill t p cs.reg

/-- The plan with the registers in use spilled, for a function that gets a stack frame. -/
def startFramed (t : Target) (p : Procedure) : SpillPlan :=
  { t.startPlan p with
    proc := { (t.startPlan p).proc with
      layout := { (t.startPlan p).proc.layout with hasStackFrame := true } } }

theorem framedPlan_eq (t : Target) (p : Procedure) : t.framedPlan p =
    t.planAlignment p (t.planPointer p (t.planLink p (t.startFramed p))) := rfl

/-- Every spilled register is in use or one that may be spilled, and is marked as used. -/
def Accounts (t : Target) (p q : Procedure) : Prop :=
  ∀ r, q.layout.isSpilled r →
    ((∃ cs ∈ t.calleeSaved, cs.reg = r ∧ p.isUsed r) ∨ t.MaySpill p r) ∧ q.isUsed r

/-- The free registers of a plan are callee-saved registers that are not in use. -/
def FreeUnused (t : Target) (p : Procedure) (s : SpillPlan) : Prop :=
  ∀ r, r ∈ s.free1 ∨ r ∈ s.free2 → ∃ cs ∈ t.savedCores, cs.reg = r ∧ p.isUsed r = false

section
variable {t : Target} {p q : Procedure} {s : SpillPlan} {r : Reg}

theorem FreeUnused.maySpill (h : t.FreeUnused p s) (hr : r ∈ s.free1 ∨ r ∈ s.free2)
    (hreserved : t.isReserved p r = false) : t.MaySpill p r := by
  obtain ⟨cs, hcs, rfl, hunused⟩ := h r hr
  exact .idle hcs hunused hreserved

/-- One more register is spilled. -/
theorem Accounts.spill (h : t.Accounts p q) (hr : t.MaySpill p r) : t.Accounts p (q.spill r) := by
  intro x hx
  rcases RegSet.contains_insert.1 hx with rfl | hx
  · exact ⟨.inr hr, Procedure.isUsed_spill (.inr rfl)⟩
  · obtain ⟨hwhy, hused⟩ := h x hx
    exact ⟨hwhy, Procedure.isUsed_spill (.inl hused)⟩

theorem Accounts.foldl {rs : List Reg} (h : t.Accounts p q) (hrs : ∀ r ∈ rs, t.MaySpill p r) :
    t.Accounts p (rs.foldl Procedure.spill q) := by
  induction rs generalizing q with
  | nil => exact h
  | cons r rs ih =>
    obtain ⟨hr, hrs⟩ := List.forall_mem_cons.1 hrs
    exact ih (h.spill hr) hrs

/-! ## Stages -/

theorem isSpilled_foldl_iff {l : Layout} {css : List CalleeSaved} :
    (css.foldl (fun l cs => l.spill cs.reg) l).isSpilled r ↔
      l.isSpilled r ∨ ∃ cs ∈ css, cs.reg = r := by
  induction css generalizing l with
  | nil => simp
  | cons cs css ih =>
    have hspill : (l.spill cs.reg).isSpilled r ↔ l.isSpilled r ∨ cs.reg = r := by
      rw [or_comm, @eq_comm Reg]
      exact RegSet.contains_insert
    rw [List.foldl_cons, ih, hspill, List.exists_mem_cons_iff, or_assoc]

/-- At the start the registers in use are spilled, and no others. -/
theorem isSpilled_startFramed (hp : p.layout.spilled = {}) :
    (t.startFramed p).proc.layout.isSpilled r ↔ ∃ cs ∈ t.calleeSaved, cs.reg = r ∧ p.isUsed r := by
  have hnone : ¬ p.layout.isSpilled r := by
    rw [Layout.isSpilled, hp]
    exact Bool.false_ne_true
  show ((t.savedInUse p).foldl (fun l cs => l.spill cs.reg) p.layout).isSpilled r ↔ _
  rw [isSpilled_foldl_iff, or_iff_right hnone]
  constructor
  · rintro ⟨cs, hcs, rfl⟩
    obtain ⟨hmem, hused⟩ := List.mem_filter.1 hcs
    exact ⟨cs, hmem, rfl, hused⟩
  · rintro ⟨cs, hcs, rfl, hused⟩
    exact ⟨cs, List.mem_filter.2 ⟨hcs, hused⟩, rfl⟩

theorem accounts_startFramed (hp : p.layout.spilled = {}) :
    t.Accounts p (t.startFramed p).proc := by
  intro r hr
  obtain ⟨cs, hcs, rfl, hused⟩ := (isSpilled_startFramed hp).1 hr
  exact ⟨.inl ⟨cs, hcs, rfl, hused⟩, hused⟩

theorem freeUnused_startFramed : t.FreeUnused p (t.startFramed p) := by
  intro r hr
  have hfree : ∃ cs ∈ t.savedCores.filter fun cs => !p.isUsed cs.reg, cs.reg = r := by
    rcases hr with hr | hr
    · obtain ⟨cs, hcs, rfl⟩ := List.mem_map.1 hr
      exact ⟨cs, (List.mem_filter.1 hcs).1, rfl⟩
    · obtain ⟨cs, hcs, rfl⟩ := List.mem_map.1 hr
      exact ⟨cs, (List.mem_filter.1 hcs).1, rfl⟩
  obtain ⟨cs, hcs, rfl⟩ := hfree
  obtain ⟨hmem, hunused⟩ := List.mem_filter.1 hcs
  exact ⟨cs, hmem, rfl, by simpa using hunused⟩

theorem accounts_planLink (h : t.Accounts p s.proc) : t.Accounts p (t.planLink p s).proc := by
  rw [planLink]
  split
  · exact h.spill .link
  · exact h

theorem accounts_planPointer (h : t.Accounts p s.proc) :
    t.Accounts p (t.planPointer p s).proc := by
  rw [planPointer]
  split
  · dsimp only
    split
    · exact h
    · exact h.spill .pointer
  · exact h

/-- The register that is spilled for alignment is free and not reserved. -/
theorem alignmentSpill?_cases (h : t.alignmentSpill? p s = some r) :
    (r ∈ s.free1 ∨ r ∈ s.free2) ∧ t.isReserved p r = false := by
  rw [alignmentSpill?] at h
  split at h
  · have htest := List.find?_some h
    simp only [Bool.and_eq_true, Bool.not_eq_true'] at htest
    exact ⟨.inl (List.mem_of_find?_eq_some h), htest.1⟩
  split at h
  · cases h
  · have htest := List.find?_some h
    exact ⟨.inr (List.mem_of_find?_eq_some h), by simpa using htest⟩

theorem accounts_planAlignment (h : t.Accounts p s.proc) (hfree : t.FreeUnused p s) :
    t.Accounts p (t.planAlignment p s).proc := by
  rw [planAlignment]
  split
  · split
    · next r hr =>
      obtain ⟨hmem, hreserved⟩ := alignmentSpill?_cases hr
      exact h.spill (hfree.maySpill hmem hreserved)
    · exact h
  · exact h

theorem accounts_planHeadroom (scavenger : Bool) (h : t.Accounts p s.proc)
    (hfree : t.FreeUnused p s) : t.Accounts p (t.planHeadroom p scavenger s).proc := by
  rw [planHeadroom]
  split
  · show t.Accounts p (t.reserveHeadroom p s)
    rw [reserveHeadroom]
    split
    · exact h
    · dsimp only
      split
      · apply h.foldl
        intro r hr
        obtain ⟨hmem, hreserved⟩ := List.mem_filter.1 (List.mem_of_mem_take hr)
        refine hfree.maySpill ?_ (by simpa using hreserved)
        exact (List.mem_append.1 hmem).imp List.mem_reverse.1 List.mem_reverse.1
      · exact h
  · exact h

/-- All stages up to headroom. -/
theorem accounts_framedPlan (hp : p.layout.spilled = {}) :
    t.Accounts p (t.framedPlan p).proc := by
  rw [framedPlan_eq]
  apply accounts_planAlignment
  · exact accounts_planPointer (accounts_planLink (accounts_startFramed hp))
  · intro r hr
    exact freeUnused_startFramed r (free_planLink (free_planPointer hr))

/-- There is a stack frame and every stage is gone through, or there is nothing to do. -/
theorem finalizeSpillSet_cases (t : Target) (scavenger : Bool) (p : Procedure) :
    ((t.savedInUse p ≠ [] ∨ (t.startPlan p).farJump ∨ t.hasPointer p) ∧
        t.finalizeSpillSet scavenger p =
          spillForFarJump (t.planHeadroom p scavenger (t.framedPlan p))) ∨
      t.savedInUse p = [] ∧ t.hasPointer p = false ∧ t.finalizeSpillSet scavenger p = p := by
  rw [finalizeSpillSet]
  split
  · next hframed =>
    left
    constructor
    · simpa [or_assoc] using hframed
    · rfl
  · next hnone =>
    simp only [Bool.or_eq_true, decide_eq_true_eq, not_or, not_not, Bool.not_eq_true] at hnone
    obtain ⟨⟨hunused, hfar⟩, hpointer⟩ := hnone
    refine .inr ⟨hunused, hpointer, ?_⟩
    rw [spillForFarJump, if_neg (by simp [hfar])]
    show ({ p with layout := (t.savedInUse p).foldl (fun l cs => l.spill cs.reg) p.layout } :
      Procedure) = p
    rw [hunused]
    rfl

/-- Without Thumb-1 nothing is spilled for far branches. -/
theorem finalizeSpillSet_cases_of_wide (scavenger : Bool) (hwide : t.abi.thumb1Only = false) :
    ((t.savedInUse p ≠ [] ∨ t.hasPointer p) ∧ t.finalizeSpillSet scavenger p =
        (t.planHeadroom p scavenger (t.framedPlan p)).proc) ∨
      t.savedInUse p = [] ∧ t.hasPointer p = false ∧ t.finalizeSpillSet scavenger p = p := by
  have hstart : (t.startPlan p).farJump = false := by
    show (!t.linkInUse p && t.abi.thumb1Only && decide _) = false
    rw [hwide, Bool.and_false, Bool.false_and]
  have hfar := (planHeadroom_facts t p (t.framedPlan p) scavenger).1.trans
    (farJump_framedPlan hwide)
  refine (t.finalizeSpillSet_cases scavenger p).imp_left ?_
  rintro ⟨hframed, hplan⟩
  constructor
  · simpa [hstart] using hframed
  · rw [hplan, spillForFarJump, if_neg (by simp [hfar])]

theorem accounts_finalizeSpillSet (scavenger : Bool) (hwide : t.abi.thumb1Only = false)
    (hp : p.layout.spilled = {}) : t.Accounts p (t.finalizeSpillSet scavenger p) := by
  rcases finalizeSpillSet_cases_of_wide (p := p) scavenger hwide with ⟨-, hplan⟩ | ⟨-, -, hsame⟩
  · rw [hplan]
    refine accounts_planHeadroom scavenger (accounts_framedPlan hp) ?_
    exact fun r hr => unused_of_free hr
  · rw [hsame]
    intro r hr
    rw [Layout.isSpilled, hp] at hr
    cases hr

/-- All stages keep to the spill set, the registers marked as used, and the objects. -/
theorem planHeadroom_shape (t : Target) (p : Procedure) (scavenger : Bool) :
    ∃ regs spilled frame, (t.planHeadroom p scavenger (t.framedPlan p)).proc =
        { p with regs, frame, layout := { p.layout with spilled, hasStackFrame := true } } ∧
      ∀ r, (t.planPointer p (t.planLink p (t.startFramed p))).proc.layout.isSpilled r →
        (t.planHeadroom p scavenger (t.framedPlan p)).proc.layout.isSpilled r := by
  have hfirst := (planLink_facts t p (t.startFramed p)).1.trans (planPointer_facts t p _).1
  have hthen := (planAlignment_facts t p (t.planPointer p (t.planLink p (t.startFramed p)))).1
  obtain ⟨-, q, hroom, hq⟩ := planHeadroom_facts t p (t.framedPlan p) scavenger
  obtain ⟨_, _, -, hkept⟩ := hthen.trans hroom
  obtain ⟨spilled, hstart⟩ := foldl_spill_eq p.layout (t.savedInUse p)
  have hlayout : (t.startFramed p).proc =
      { p with layout := { p.layout with spilled, hasStackFrame := true } } := by
    show ({ p with layout := { ((t.savedInUse p).foldl (fun l cs => l.spill cs.reg) p.layout) with
      hasStackFrame := true } } : Procedure) = _
    rw [hstart]
  obtain ⟨regs, spilled', hall, -⟩ := (hfirst.trans hthen).trans hroom
  rw [hlayout] at hall
  subst hall
  rcases hq with hq | hq
  · rw [hq]
    exact ⟨regs, spilled', _, rfl, hkept⟩
  · rw [hq]
    exact ⟨regs, spilled', _, rfl, hkept⟩

/-! ## The link register -/

/-- With a register of the first area in use, the link register is in use or spilled along. -/
theorem isSpilled_lr_planLink (hstart : ∀ cs ∈ t.calleeSaved, p.isUsed cs.reg →
    s.proc.layout.isSpilled cs.reg) (hfirst : t.firstAreaInUse p) :
    (t.planLink p s).proc.layout.isSpilled Reg.lr := by
  rw [planLink]
  split
  · exact s.proc.isSpilled_spill _
  · next hlink =>
    simp only [hfirst, Bool.and_true, Bool.not_eq_true', Bool.not_eq_false] at hlink
    obtain ⟨cs, hcs, hused⟩ := List.any_eq_true.1 hlink
    simp only [Bool.and_eq_true, decide_eq_true_eq] at hused
    rw [← hused.2]
    exact hstart cs (List.mem_filter.1 hcs).1 hused.1

end

/-! ## The whole spill set -/

/-- What the spill set of a function covers: `p` is the function with its registers marked, and `q`
is the function once its spill set is chosen. -/
structure CoversUses (t : Target) (p q : Procedure) : Prop where
  written : ∀ cs ∈ t.calleeSaved, ∀ i ∈ p.insts, i.writes cs.reg → q.layout.isSpilled cs.reg
  framed : q.layout.hasStackFrame ↔ (∃ cs ∈ t.calleeSaved, p.isUsed cs.reg) ∨ t.hasPointer p
  link : q.layout.hasStackFrame → (∃ cs ∈ t.calleeSaved, p.isUsed cs.reg ∧ cs.area = .gpr1) →
    q.layout.isSpilled Reg.lr
  pointer : q.layout.hasStackFrame → t.abi.darwin ∨ t.hasPointer p →
    q.layout.isSpilled t.framePointer
  listed : ∀ r, q.layout.isSpilled r → t.isCalleeSaved r ∨ r = t.framePointer
  marked : ∀ r, q.layout.isSpilled r → ∃ x, q.regs.isUsed x ∧ x.overlaps r
  added : ∀ cs ∈ t.calleeSaved, q.layout.isSpilled cs.reg → p.isUsed cs.reg = false →
    cs.reg = Reg.lr ∨ cs.reg = t.framePointer ∨ t.isReserved p cs.reg = false

section
variable {t : Target} {p : Procedure}

/-- There is a stack frame if a callee-saved register is in use or there is a frame pointer. -/
theorem hasStackFrame_finalizeSpillSet (scavenger : Bool) (hwide : t.abi.thumb1Only = false)
    (hp : p.layout.hasStackFrame = false) :
    (t.finalizeSpillSet scavenger p).layout.hasStackFrame ↔
      (∃ cs ∈ t.calleeSaved, p.isUsed cs.reg) ∨ t.hasPointer p := by
  have hused : t.savedInUse p ≠ [] ↔ ∃ cs ∈ t.calleeSaved, p.isUsed cs.reg := by
    rw [ne_eq, savedInUse, List.filter_eq_nil_iff]
    push Not
    rfl
  rw [← hused]
  rcases finalizeSpillSet_cases_of_wide (p := p) scavenger hwide with
    ⟨hframed, hplan⟩ | ⟨hnone, hno, hsame⟩
  · refine iff_of_true ?_ hframed
    obtain ⟨_, _, _, hproc, -⟩ := t.planHeadroom_shape p scavenger
    rw [hplan, hproc]
  · refine iff_of_false ?_ (by simp [hnone, hno])
    rw [hsame, hp]
    exact Bool.false_ne_true

/-- The choice of the spill set, for any target: it leaves the decision about the frame pointer
alone, and spills it if there is a stack frame and it is set up. -/
theorem layout_finalizeSpillSet (t : Target) (scavenger : Bool)
    (hp : p.layout.hasStackFrame = false) :
    (∃ spilled hasStackFrame farJump, (t.finalizeSpillSet scavenger p).layout =
      { p.layout with spilled, hasStackFrame, farJump }) ∧
    ((t.finalizeSpillSet scavenger p).layout.hasStackFrame → t.setsPointer p →
      (t.finalizeSpillSet scavenger p).layout.isSpilled t.framePointer) := by
  rcases t.finalizeSpillSet_cases scavenger p with ⟨-, hplan⟩ | ⟨-, -, hsame⟩
  · obtain ⟨regs, spilled, frame, hproc, hkept⟩ := t.planHeadroom_shape p scavenger
    have hpointer : t.setsPointer p →
        (t.planHeadroom p scavenger (t.framedPlan p)).proc.layout.isSpilled t.framePointer := by
      intro hsets
      exact hkept _ ((planPointer_facts t p (t.planLink p (t.startFramed p))).2.2 hsets)
    rw [hplan, spillForFarJump]
    split
    · refine ⟨⟨spilled.insert Reg.lr, true, true, ?_⟩, ?_⟩
      · rw [hproc]
        rfl
      · intro _ hsets
        exact RegSet.contains_insert.2 (.inr (hpointer hsets))
    · refine ⟨⟨spilled, true, p.layout.farJump, ?_⟩, ?_⟩
      · rw [hproc]
      · intro _ hsets
        exact hpointer hsets
  · rw [hsame]
    refine ⟨⟨p.layout.spilled, p.layout.hasStackFrame, p.layout.farJump, rfl⟩, ?_⟩
    intro hframe
    rw [hp] at hframe
    cases hframe

/-- Without Thumb-1 all core registers are spilled as such. -/
theorem mem_savedCores_iff {cs : CalleeSaved} (hwide : t.abi.thumb1Only = false) :
    cs ∈ t.savedCores ↔ cs ∈ t.calleeSaved ∧ ∃ n, cs.reg = .core n := by
  constructor
  · exact core_of_mem_savedCores
  · rintro ⟨hcs, n, hn⟩
    refine List.mem_filter.2 ⟨hcs, decide_eq_true ?_⟩
    rw [hn]
    show (if t.abi.thumb1Only && _ then _ else _) = _
    rw [hwide]
    rfl

/-- Outside the double-precision area there are core registers only. -/
theorem core_of_area {cs : CalleeSaved} (hcs : cs ∈ t.calleeSaved) (harea : cs.area ≠ .dpr) :
    ∃ n, cs.reg = .core n := by
  rcases hasSlot_of_mem_calleeSaved hcs with hcore | ⟨n, hn⟩
  · exact hcore
  · have hsaved := mem_calleeSaved_facts hcs
    rcases t.abi.area_cases hsaved.saved with ⟨hmem, -⟩ | ⟨-, hdpr⟩
    · have hcores : ∀ r ∈ Abi.savableCores, ∀ n, r ≠ .double n := by decide
      exact absurd hn (hcores _ hmem n)
    · exact absurd (hsaved.area.trans hdpr) harea

theorem firstAreaInUse_of_mem {cs : CalleeSaved} (hwide : t.abi.thumb1Only = false)
    (hcs : cs ∈ t.calleeSaved) (hused : p.isUsed cs.reg) (harea : cs.area = .gpr1) :
    t.firstAreaInUse p := by
  have hcore := core_of_area hcs (by rw [harea]; decide)
  refine List.any_eq_true.2 ⟨cs, (mem_savedCores_iff hwide).2 ⟨hcs, hcore⟩, ?_⟩
  rw [hused, harea]
  rfl

/-- The spill set covers everything that the code may destroy: registers that the function writes
are spilled, with those that the prologue and the epilogue rely on, and no others than a frame
needs. -/
theorem coversUses (t : Target) (scavenger : Bool) {p : Procedure}
    (hwide : t.abi.thumb1Only = false) (hp : p.IsUnplanned) :
    t.CoversUses p.markUsed (t.finalizeSpillSet scavenger p.markUsed) := by
  have hnew := hp.markUsed
  have hchosen := choosesSpills_finalizeSpillSet scavenger hwide hnew.unframed
  have haccounts := accounts_finalizeSpillSet scavenger hwide hnew.spilled
  refine ⟨?_, hasStackFrame_finalizeSpillSet scavenger hwide hnew.unframed, ?_, ?_, ?_, ?_, ?_⟩
  · intro cs hcs i hi hwrites
    obtain ⟨x, hx, hover⟩ := Inst.exists_reach_of_writes hwrites
    exact hchosen.used cs hcs (isUsed_of_overlaps hcs hi hx hover)
  · -- the link register is spilled by the second stage at the latest, and later ones keep it
    rintro - ⟨cs, hcs, hused, harea⟩
    have hfirst := firstAreaInUse_of_mem hwide hcs hused harea
    rcases finalizeSpillSet_cases_of_wide (p := p.markUsed) scavenger hwide with
      ⟨-, hplan⟩ | ⟨hnone, -⟩
    · rw [hplan]
      obtain ⟨_, _, _, -, hkept⟩ := t.planHeadroom_shape p.markUsed scavenger
      obtain ⟨_, _, -, hpointer⟩ := (planPointer_facts t p.markUsed
        (t.planLink p.markUsed (t.startFramed p.markUsed))).1
      apply hkept
      apply hpointer
      refine isSpilled_lr_planLink ?_ hfirst
      intro x hx hxused
      exact (isSpilled_startFramed hnew.spilled).2 ⟨x, hx, rfl, hxused⟩
    · have hmem : cs ∈ t.savedInUse p.markUsed := List.mem_filter.2 ⟨hcs, hused⟩
      rw [hnone] at hmem
      exact absurd hmem List.not_mem_nil
  · intro hframe hsets
    exact hchosen.pointer hframe (Bool.or_eq_true_iff.2 hsets)
  · intro r hr
    rcases (haccounts r hr).1 with ⟨cs, hcs, rfl, -⟩ | hmay
    · exact .inl (isCalleeSaved_of_mem hcs)
    · cases hmay with
      | link => exact .inl t.isCalleeSaved_lr
      | pointer => exact .inr rfl
      | idle hcs => exact .inl (isCalleeSaved_of_mem (List.mem_filter.1 hcs).1)
  · intro r hr
    exact Procedure.exists_marked_of_isUsed (haccounts r hr).2
  · intro cs hcs hspilled hunused
    rcases (haccounts _ hspilled).1 with ⟨-, -, -, hused⟩ | hmay
    · rw [hunused] at hused
      cases hused
    · -- the index of `MaySpill` has to be a variable
      generalize cs.reg = r at hmay
      cases hmay with
      | link => exact .inl rfl
      | pointer => exact .inr (.inl rfl)
      | idle _ _ hreserved => exact .inr (.inr hreserved)

end

/-- A function that loads the second half of `d8`. -/
def loadsHalf : Procedure where
  name := "f"
  blocks := [{ lines := Line.number 0 [
    .make .flds [.use (.single 17), .use (.core 0), .imm 0, .cond .al, .use .noreg],
    .make .bxRet [.cond .al, .use .noreg]] }]
  fresh := 2

theorem coversUses_loadsHalf :
    (∃ i ∈ loadsHalf.insts, i.writes (.double 8)) ∧
      plainDefault.CoversUses loadsHalf.markUsed
        (plainDefault.finalizeSpillSet true loadsHalf.markUsed) :=
  ⟨by decide, coversUses plainDefault true rfl ⟨rfl, rfl, rfl, rfl⟩⟩

/-! ## Slots of the spilled registers -/

section
variable {t : Target} {p : Procedure}

/-- The scavenging slot of a function is none of the slots of saved registers. -/
theorem scavengingIndex_notMem {scavenger : Bool} (hp : p.frame.scavengingIndex = noIndex)
    (hlen : (t.assignSlots (t.finalizeSpillSet scavenger p)).frame.objects.length < 2 ^ 63) :
    (t.finalizeSpillSet scavenger p).frame.scavengingIndex ∉
      (t.savedSlots (t.finalizeSpillSet scavenger p)).map SavedSlot.index := by
  apply notMem_index_of_length hlen
  rw [length_assignSlots] at hlen
  obtain ⟨regs, layout, frame, hchosen, hframe⟩ := t.finalizeSpillSet_shape scavenger p
  rw [hchosen] at hlen ⊢
  rcases hframe with rfl | rfl
  · left
    show p.frame.scavengingIndex < 0
    rw [hp]
    decide
  · right
    have hlt : p.frame.objects.length < 2 ^ 63 := by
      simp only [withScavenging, List.length_append] at hlen
      omega
    refine ⟨scavengingSlot, ?_⟩
    show (withScavenging p.frame).object? (Int64.ofNat p.frame.objects.length) = _
    rw [Frame.object?_ofNat _ hlt]
    simp [withScavenging]

/-- The slots of a function for which the spill set was chosen. -/
theorem tiles_of_isUnplanned {scavenger : Bool} (hp : p.IsUnplanned)
    (hfixed : ∀ o ∈ p.frame.fixed, 0 ≤ o.offset)
    (hlen : (t.assignSlots (t.finalizeSpillSet scavenger p)).frame.objects.length < 2 ^ 63) :
    (t.placeFrame (t.assignSlots (t.finalizeSpillSet scavenger p))).frame.Tiles 0
      (t.savedSlots (t.finalizeSpillSet scavenger p)) := by
  refine tiles_placeFrame hlen (scavengingIndex_notMem hp.unscavenged hlen) ?_
  obtain ⟨objects, scavengingIndex, hframe⟩ := t.frame_finalizeSpillSet scavenger p
  rw [hframe]
  exact hfixed

end

end Target

end FrameLowering
