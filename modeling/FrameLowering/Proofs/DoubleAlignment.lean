import FrameLowering.Proofs.SpillCoverage

/-!
# Alignment of double-precision saves

Core registers take four bytes each and double-precision registers eight, below them. The slot of a
double-precision register is therefore at a multiple of eight just if an even number of core
registers is spilled. The choice of the spill set means to see to this on a stack that is aligned to
eight bytes, and the stages are followed here with the numbers of spilled and free core registers
(`Target.Tracks`, `Target.Counts`).

It does not always succeed (`Target.aligned_iff_even`). The frame pointer is spilled after the
registers in use are looked at. If no other register of the first area is in use, only the second
area is searched for one more register (`Target.PointerAlone`), and if the frame pointer is not
preserved it is counted all the same but gets no slot (`Target.LosesPointer`).
-/

namespace FrameLowering

namespace Target

/-! ## Spilled and free core registers -/

/-- Callee-saved core registers that are spilled. -/
def coreSlots (t : Target) (q : Procedure) : List CalleeSaved :=
  t.savedCores.filter fun cs => q.layout.isSpilled cs.reg

/-- Callee-saved core registers that are not spilled. -/
def freeCores (t : Target) (q : Procedure) : List CalleeSaved :=
  t.savedCores.filter fun cs => !q.layout.isSpilled cs.reg

section
variable {t : Target} {p q : Procedure} {s : SpillPlan} {r : Reg}

theorem length_coreSlots_add (t : Target) (q : Procedure) :
    (t.coreSlots q).length + (t.freeCores q).length = t.savedCores.length :=
  (List.length_eq_length_filter_add _).symm

theorem nodup_savedCores (t : Target) : (t.savedCores.map CalleeSaved.reg).Nodup :=
  t.nodup_calleeSaved.sublist (List.filter_sublist.map _)

theorem mem_map_freeCores {test : CalleeSaved → Bool} :
    r ∈ ((t.freeCores q).filter test).map CalleeSaved.reg ↔
      ∃ cs ∈ t.savedCores, cs.reg = r ∧ test cs ∧ q.layout.isSpilled r = false := by
  rw [List.mem_map]
  constructor
  · rintro ⟨cs, hcs, rfl⟩
    obtain ⟨hfree, htest⟩ := List.mem_filter.1 hcs
    obtain ⟨hmem, hunspilled⟩ := List.mem_filter.1 hfree
    exact ⟨cs, hmem, rfl, htest, by simpa using hunspilled⟩
  · rintro ⟨cs, hcs, rfl, htest, hunspilled⟩
    refine ⟨cs, List.mem_filter.2 ⟨List.mem_filter.2 ⟨hcs, ?_⟩, htest⟩, rfl⟩
    rw [hunspilled]
    rfl

/-- A core register that is not spilled is free. -/
theorem isFree_iff : r ∈ (t.freeCores q).map CalleeSaved.reg ↔
    (∃ cs ∈ t.savedCores, cs.reg = r) ∧ q.layout.isSpilled r = false := by
  have h : r ∈ ((t.freeCores q).filter fun _ => true).map CalleeSaved.reg ↔ _ := mem_map_freeCores
  rw [List.filter_true] at h
  simpa only [true_and, ← exists_and_right, and_assoc] using h

/-- A register that is spilled is no longer among the free ones. -/
theorem map_filter_freeCores_spill (test : CalleeSaved → Bool) :
    ((t.freeCores (q.spill r)).filter test).map CalleeSaved.reg =
      (((t.freeCores q).filter test).map CalleeSaved.reg).erase r := by
  have hnodup : (((t.freeCores q).filter test).map CalleeSaved.reg).Nodup :=
    t.nodup_savedCores.sublist ((List.filter_sublist.trans List.filter_sublist).map _)
  rw [hnodup.erase_eq_filter, List.filter_map, freeCores, freeCores, List.filter_filter,
    List.filter_filter, List.filter_filter]
  congr 1
  apply List.filter_congr
  intro cs _
  have hspill : (q.spill r).layout.isSpilled cs.reg =
      (decide (cs.reg = r) || q.layout.isSpilled cs.reg) := by
    rw [Bool.eq_iff_iff, Bool.or_eq_true, decide_eq_true_eq]
    exact RegSet.contains_insert
  rw [hspill]
  by_cases heq : cs.reg = r
  · simp [heq]
  · have hne : (cs.reg != r) = true := bne_iff_ne.2 heq
    simp [heq, hne]

theorem map_freeCores_spill :
    (t.freeCores (q.spill r)).map CalleeSaved.reg =
      ((t.freeCores q).map CalleeSaved.reg).erase r := by
  have hspill := map_filter_freeCores_spill (t := t) (q := q) (r := r) fun _ => true
  rw [List.filter_true, List.filter_true] at hspill
  exact hspill

/-- Spilling a free core register makes one more slot. -/
theorem length_coreSlots_spill (h : r ∈ (t.freeCores q).map CalleeSaved.reg) :
    (t.coreSlots (q.spill r)).length = (t.coreSlots q).length + 1 := by
  have hless := congrArg List.length (map_freeCores_spill (t := t) (q := q) (r := r))
  rw [List.length_erase_of_mem h, List.length_map, List.length_map] at hless
  have hpos := List.length_pos_of_mem h
  rw [List.length_map] at hpos
  have := t.length_coreSlots_add q
  have := t.length_coreSlots_add (q.spill r)
  omega

/-- Spilling any other register makes none. -/
theorem length_coreSlots_spill_of_notMem (h : r ∉ (t.freeCores q).map CalleeSaved.reg) :
    (t.coreSlots (q.spill r)).length = (t.coreSlots q).length := by
  have hsame := congrArg List.length (map_freeCores_spill (t := t) (q := q) (r := r))
  rw [List.erase_of_not_mem h, List.length_map, List.length_map] at hsame
  have := t.length_coreSlots_add q
  have := t.length_coreSlots_add (q.spill r)
  omega

/-- Spilling some free core registers. -/
theorem length_coreSlots_foldl {rs : List Reg} (hnodup : rs.Nodup)
    (hfree : ∀ r ∈ rs, r ∈ (t.freeCores q).map CalleeSaved.reg) :
    (t.coreSlots (rs.foldl Procedure.spill q)).length = (t.coreSlots q).length + rs.length := by
  induction rs generalizing q with
  | nil => rfl
  | cons r rs ih =>
    obtain ⟨hr, hrs⟩ := List.forall_mem_cons.1 hfree
    obtain ⟨hother, hnodup⟩ := List.nodup_cons.1 hnodup
    rw [List.foldl_cons, ih hnodup, length_coreSlots_spill hr, List.length_cons]
    · omega
    · intro x hx
      have hne : x ≠ r := fun h => hother (h ▸ hx)
      rw [map_freeCores_spill]
      exact (List.mem_erase_of_ne hne).2 (hrs x hx)

/-! ## Stages -/

/-- The free registers of a plan are those that are not spilled, area by area. -/
structure Tracks (t : Target) (s : SpillPlan) : Prop where
  free1 : s.free1 =
    ((t.freeCores s.proc).filter fun cs => cs.area = .gpr1).map CalleeSaved.reg
  free2 : s.free2 =
    ((t.freeCores s.proc).filter fun cs => cs.area ≠ .gpr1).map CalleeSaved.reg

/-- One for a frame pointer that is spilled but not preserved. -/
def strayPointer (t : Target) (q : Procedure) : Nat :=
  if !t.isCalleeSaved t.framePointer && q.layout.isSpilled t.framePointer then 1 else 0

/-- The number of a plan is that of the spilled core registers, a frame pointer without a slot
included. -/
def Counts (t : Target) (s : SpillPlan) : Prop :=
  s.coreSpills = (t.coreSlots s.proc).length + t.strayPointer s.proc

theorem Tracks.spill {s' : SpillPlan} (h : t.Tracks s) (hproc : s'.proc = s.proc.spill r)
    (h1 : s'.free1 = s.free1.erase r) (h2 : s'.free2 = s.free2.erase r) : t.Tracks s' := by
  constructor
  · rw [h1, hproc, h.free1]
    exact (map_filter_freeCores_spill _).symm
  · rw [h2, hproc, h.free2]
    exact (map_filter_freeCores_spill _).symm

theorem Tracks.mem_free1 (h : t.Tracks s) : r ∈ s.free1 ↔
    ∃ cs ∈ t.savedCores, cs.reg = r ∧ cs.area = .gpr1 ∧ s.proc.layout.isSpilled r = false := by
  rw [h.free1, mem_map_freeCores]
  simp only [decide_eq_true_eq]

theorem Tracks.mem_free2 (h : t.Tracks s) : r ∈ s.free2 ↔
    ∃ cs ∈ t.savedCores, cs.reg = r ∧ cs.area ≠ .gpr1 ∧ s.proc.layout.isSpilled r = false := by
  rw [h.free2, mem_map_freeCores]
  simp only [decide_eq_true_eq]

theorem Tracks.isFree (h : t.Tracks s) (hr : r ∈ s.free1 ∨ r ∈ s.free2) :
    r ∈ (t.freeCores s.proc).map CalleeSaved.reg := by
  rcases hr with hr | hr
  · obtain ⟨cs, hcs, hreg, -, hfree⟩ := h.mem_free1.1 hr
    exact isFree_iff.2 ⟨⟨cs, hcs, hreg⟩, hfree⟩
  · obtain ⟨cs, hcs, hreg, -, hfree⟩ := h.mem_free2.1 hr
    exact isFree_iff.2 ⟨⟨cs, hcs, hreg⟩, hfree⟩

/-- The area of a callee-saved register is that of the register. -/
theorem area_of_mem_savedCores {cs : CalleeSaved} (h : cs ∈ t.savedCores) :
    cs.area = t.abi.area cs.reg :=
  (mem_calleeSaved_facts (List.mem_filter.1 h).1).area

theorem Tracks.notMem_free2 (h : t.Tracks s) (harea : t.abi.area r = .gpr1) : r ∉ s.free2 := by
  intro hr
  obtain ⟨cs, hcs, rfl, hother, -⟩ := h.mem_free2.1 hr
  exact hother ((area_of_mem_savedCores hcs).trans harea)

/-- No register is free twice. -/
theorem Tracks.nodup (h : t.Tracks s) : (s.free1.reverse ++ s.free2.reverse).Nodup := by
  have hpart (test : CalleeSaved → Bool) :
      (((t.freeCores s.proc).filter test).map CalleeSaved.reg).Nodup :=
    t.nodup_savedCores.sublist ((List.filter_sublist.trans List.filter_sublist).map _)
  refine List.nodup_append.2 ⟨List.nodup_reverse.2 ?_, List.nodup_reverse.2 ?_, ?_⟩
  · rw [h.free1]
    exact hpart _
  · rw [h.free2]
    exact hpart _
  · rintro a ha b hb rfl
    obtain ⟨cs, hcs, rfl, hfirst, -⟩ := h.mem_free1.1 (List.mem_reverse.1 ha)
    refine h.notMem_free2 ?_ (List.mem_reverse.1 hb)
    rw [← area_of_mem_savedCores hcs, hfirst]

/-- At the start a callee-saved register is spilled if it is in use. -/
theorem isSpilled_startFramed_eq (hp : p.layout.spilled = {}) {cs : CalleeSaved}
    (hcs : cs ∈ t.savedCores) :
    (t.startFramed p).proc.layout.isSpilled cs.reg = p.isUsed cs.reg := by
  rw [Bool.eq_iff_iff, isSpilled_startFramed hp]
  constructor
  · rintro ⟨-, -, -, hused⟩
    exact hused
  · intro hused
    exact ⟨cs, (List.mem_filter.1 hcs).1, rfl, hused⟩

theorem freeCores_startFramed (hp : p.layout.spilled = {}) :
    t.freeCores (t.startFramed p).proc = t.savedCores.filter fun cs => !p.isUsed cs.reg := by
  apply List.filter_congr
  intro cs hcs
  rw [isSpilled_startFramed_eq hp hcs]

theorem coreSlots_startFramed (hp : p.layout.spilled = {}) :
    t.coreSlots (t.startFramed p).proc = t.savedCores.filter fun cs => p.isUsed cs.reg := by
  apply List.filter_congr
  intro cs hcs
  rw [isSpilled_startFramed_eq hp hcs]

theorem tracks_startFramed (hp : p.layout.spilled = {}) : t.Tracks (t.startFramed p) := by
  constructor
  · rw [freeCores_startFramed hp]
    rfl
  · rw [freeCores_startFramed hp]
    rfl

theorem strayPointer_startFramed (hp : p.layout.spilled = {}) :
    t.strayPointer (t.startFramed p).proc = 0 := by
  rw [strayPointer, if_neg]
  intro h
  obtain ⟨hother, hspilled⟩ := Bool.and_eq_true_iff.1 h
  obtain ⟨cs, hcs, hreg, -⟩ := (isSpilled_startFramed hp).1 hspilled
  rw [← hreg, isCalleeSaved_of_mem hcs] at hother
  cases hother

theorem counts_startFramed (hp : p.layout.spilled = {}) : t.Counts (t.startFramed p) := by
  rw [Counts, strayPointer_startFramed hp, coreSlots_startFramed hp]
  rfl

theorem tracks_planLink (h : t.Tracks s) : t.Tracks (t.planLink p s) := by
  rw [planLink]
  split
  · refine h.spill rfl rfl ?_
    exact (List.erase_of_not_mem (h.notMem_free2 t.abi.area_lr)).symm
  · exact h

theorem tracks_planPointer (h : t.Tracks s) : t.Tracks (t.planPointer p s) := by
  rw [planPointer]
  split
  · dsimp only
    split
    · next hspilled =>
      -- nothing is taken off, since the frame pointer was not free
      have h1 : t.framePointer ∉ s.free1 := by
        intro hfree
        obtain ⟨-, -, -, -, hno⟩ := h.mem_free1.1 hfree
        rw [hspilled] at hno
        cases hno
      have h2 : t.framePointer ∉ s.free2 := h.notMem_free2 t.abi.area_framePointer
      constructor
      · show s.free1.erase t.framePointer = _
        rw [List.erase_of_not_mem h1]
        exact h.free1
      · show s.free2.erase t.framePointer = _
        rw [List.erase_of_not_mem h2]
        exact h.free2
    · exact h.spill rfl rfl rfl
  · exact h

theorem tracks_planAlignment (h : t.Tracks s) : t.Tracks (t.planAlignment p s) := by
  rw [planAlignment]
  split
  · split
    · exact h.spill rfl rfl rfl
    · exact h
  · exact h

theorem tracks_framedPlan (hp : p.layout.spilled = {}) : t.Tracks (t.framedPlan p) := by
  rw [framedPlan_eq]
  exact tracks_planAlignment (tracks_planPointer (tracks_planLink (tracks_startFramed hp)))

/-! ## Counting -/

/-- A register that is listed, or is not the frame pointer, leaves no frame pointer astray. -/
theorem strayPointer_spill (hr : t.isCalleeSaved r ∨ r ≠ t.framePointer) :
    t.strayPointer (q.spill r) = t.strayPointer q := by
  rw [strayPointer, strayPointer]
  congr 2
  by_cases hlisted : t.isCalleeSaved t.framePointer
  · simp [hlisted]
  · have hne : t.framePointer ≠ r := by
      rintro rfl
      exact hr.elim hlisted fun h => h rfl
    simp only [hlisted, Bool.not_false, Bool.true_and]
    rw [Bool.eq_iff_iff]
    exact RegSet.contains_insert.trans (or_iff_right hne)

theorem counts_planLink (hwide : t.abi.thumb1Only = false) (h : t.Counts s)
    (hstart : ∀ cs ∈ t.savedCores, s.proc.layout.isSpilled cs.reg = p.isUsed cs.reg) :
    t.Counts (t.planLink p s) := by
  rw [planLink]
  split
  · next hlink =>
    obtain ⟨hunused, -⟩ := Bool.and_eq_true_iff.1 hlink
    obtain ⟨cs, hcs, hreg⟩ := List.any_eq_true.1 t.isCalleeSaved_lr
    have hreg : cs.reg = Reg.lr := of_decide_eq_true hreg
    have hcore : cs ∈ t.savedCores := (mem_savedCores_iff hwide).2 ⟨hcs, 14, hreg⟩
    have hfree : Reg.lr ∈ (t.freeCores s.proc).map CalleeSaved.reg := by
      refine isFree_iff.2 ⟨⟨cs, hcore, hreg⟩, ?_⟩
      rw [← hreg, hstart cs hcore]
      -- it would count as the link register in use otherwise
      by_contra hused
      have : t.linkInUse p = true := by
        refine List.any_eq_true.2 ⟨cs, hcore, ?_⟩
        rw [Bool.not_eq_false] at hused
        rw [hused, hreg]
        rfl
      rw [this] at hunused
      cases hunused
    show s.coreSpills + 1 = _
    rw [length_coreSlots_spill hfree, strayPointer_spill (.inl t.isCalleeSaved_lr), h]
    omega
  · exact h

/-- The frame pointer is counted whether it gets a slot or not. -/
theorem counts_planPointer (hwide : t.abi.thumb1Only = false) (h : t.Counts s) :
    t.Counts (t.planPointer p s) := by
  rw [planPointer]
  split
  · dsimp only
    split
    · exact h
    · next hunspilled =>
      rw [Bool.not_eq_true] at hunspilled
      show s.coreSpills + 1 = _
      by_cases hlisted : t.isCalleeSaved t.framePointer
      · obtain ⟨cs, hcs, hreg⟩ := List.any_eq_true.1 hlisted
        have hreg : cs.reg = t.framePointer := of_decide_eq_true hreg
        obtain ⟨n, hn⟩ := t.framePointer_core
        have hfree : t.framePointer ∈ (t.freeCores s.proc).map CalleeSaved.reg :=
          isFree_iff.2 ⟨⟨cs, (mem_savedCores_iff hwide).2 ⟨hcs, n, hreg.trans hn⟩, hreg⟩,
            hunspilled⟩
        rw [length_coreSlots_spill hfree, strayPointer_spill (.inl hlisted), h]
        omega
      · have hother : t.framePointer ∉ (t.freeCores s.proc).map CalleeSaved.reg := by
          intro hmem
          obtain ⟨⟨cs, hcs, hreg⟩, -⟩ := isFree_iff.1 hmem
          rw [← hreg] at hlisted
          exact hlisted (isCalleeSaved_of_mem (List.mem_filter.1 hcs).1)
        have hbefore : t.strayPointer s.proc = 0 := by simp [strayPointer, hunspilled]
        have hafter : t.strayPointer (s.proc.spill t.framePointer) = 1 := by
          rw [strayPointer, s.proc.isSpilled_spill]
          simp [hlisted]
        rw [length_coreSlots_spill_of_notMem hother, hafter, h, hbefore]
  · exact h

/-- The plan once the frame pointer has been seen to. -/
def pointerPlan (t : Target) (p : Procedure) : SpillPlan :=
  t.planPointer p (t.planLink p (t.startFramed p))

theorem tracks_pointerPlan (hp : p.layout.spilled = {}) : t.Tracks (t.pointerPlan p) :=
  tracks_planPointer (tracks_planLink (tracks_startFramed hp))

theorem counts_pointerPlan (hwide : t.abi.thumb1Only = false) (hp : p.layout.spilled = {}) :
    t.Counts (t.pointerPlan p) := by
  apply counts_planPointer hwide
  apply counts_planLink hwide (counts_startFramed hp)
  exact fun cs hcs => isSpilled_startFramed_eq hp hcs

/-- What is done about an odd number of core registers. -/
theorem length_coreSlots_planAlignment (halign : t.abi.stackAlignment = 8) (h : t.Tracks s) :
    (t.coreSlots (t.planAlignment p s).proc).length = (t.coreSlots s.proc).length +
      if s.coreSpills % 2 = 1 ∧ (t.alignmentSpill? p s).isSome then 1 else 0 := by
  rw [planAlignment]
  by_cases hodd : s.coreSpills % 2 = 1
  · rw [if_pos (by simp [halign, hodd])]
    cases hspill : t.alignmentSpill? p s with
    | none => simp
    | some r =>
      simp only [hodd, Option.isSome_some, and_self, if_true]
      exact length_coreSlots_spill (h.isFree (alignmentSpill?_cases hspill).1)
  · rw [if_neg (by simp [hodd]), if_neg fun h => hodd h.1]
    rfl

/-- Headroom on a stack that is aligned to eight bytes is a matter of two registers. -/
theorem length_coreSlots_planHeadroom (scavenger : Bool) (halign : t.abi.stackAlignment = 8)
    (h : t.Tracks s) : ∃ k, (t.coreSlots (t.planHeadroom p scavenger s).proc).length =
      (t.coreSlots s.proc).length + 2 * k := by
  rw [planHeadroom]
  split
  · show ∃ k, (t.coreSlots (t.reserveHeadroom p s)).length = _
    rw [reserveHeadroom]
    split
    · exact ⟨0, rfl⟩
    dsimp only
    split
    · next hneed =>
      refine ⟨1, ?_⟩
      rw [length_coreSlots_foldl, hneed, halign]
      · rfl
      · exact h.nodup.sublist ((List.take_sublist _ _).trans List.filter_sublist)
      · intro r hr
        obtain ⟨hmem, -⟩ := List.mem_filter.1 (List.mem_of_mem_take hr)
        exact h.isFree ((List.mem_append.1 hmem).imp List.mem_reverse.1 List.mem_reverse.1)
    · exact ⟨0, rfl⟩
  · exact ⟨0, rfl⟩

/-- The number of core registers that are spilled in the end, up to registers for headroom. -/
theorem length_coreSlots_finalizeSpillSet (scavenger : Bool) (hwide : t.abi.thumb1Only = false)
    (halign : t.abi.stackAlignment = 8) (hp : p.layout.spilled = {})
    (hframed : t.savedInUse p ≠ []) :
    ∃ k, (t.coreSlots (t.finalizeSpillSet scavenger p)).length +
        t.strayPointer (t.pointerPlan p).proc =
      (t.pointerPlan p).coreSpills + 2 * k +
        if (t.pointerPlan p).coreSpills % 2 = 1 ∧ (t.alignmentSpill? p (t.pointerPlan p)).isSome
          then 1 else 0 := by
  have hcount : (t.pointerPlan p).coreSpills = _ := counts_pointerPlan hwide hp
  have hframe : t.framedPlan p = t.planAlignment p (t.pointerPlan p) := rfl
  obtain ⟨k, hroom⟩ := length_coreSlots_planHeadroom (p := p) scavenger halign
    (tracks_framedPlan hp)
  rw [hframe, length_coreSlots_planAlignment halign (tracks_pointerPlan hp)] at hroom
  rcases finalizeSpillSet_cases_of_wide (p := p) scavenger hwide with ⟨-, hplan⟩ | ⟨hnone, -⟩
  · refine ⟨k, ?_⟩
    rw [hplan, hframe, hroom]
    omega
  · exact absurd hnone hframed

/-! ## Odd numbers of core registers -/

/-- No core register of the first area is in use, so that the frame pointer is spilled alone
there, next to an even number of others, and the second area has no register left to make the
number even. -/
structure PointerAlone (t : Target) (p : Procedure) : Prop where
  sets : t.setsPointer p
  first : ∀ cs ∈ t.savedCores, cs.area = .gpr1 → p.isUsed cs.reg = false
  second : ∀ cs ∈ t.savedCores, cs.area ≠ .gpr1 → p.isUsed cs.reg = false →
    t.isReserved p cs.reg
  even : 2 ∣ (t.savedCores.filter fun cs => p.isUsed cs.reg).length

/-- The frame pointer is set up, and not preserved. -/
def LosesPointer (t : Target) (p : Procedure) : Prop :=
  t.setsPointer p ∧ ¬ t.isCalleeSaved t.framePointer

/-- The number of core registers to spill is odd, and no register is found to make it even. -/
def StaysOdd (t : Target) (p : Procedure) : Prop :=
  (t.pointerPlan p).coreSpills % 2 = 1 ∧ t.alignmentSpill? p (t.pointerPlan p) = none

/-- Every core register that could be spilled is. -/
def SpillsAllCores (t : Target) (p q : Procedure) : Prop :=
  ∀ cs ∈ t.savedCores, t.isReserved p cs.reg = false → q.layout.isSpilled cs.reg

theorem firstAreaInUse_eq_false_iff : t.firstAreaInUse p = false ↔
    ∀ cs ∈ t.savedCores, cs.area = .gpr1 → p.isUsed cs.reg = false := by
  rw [firstAreaInUse, List.any_eq_false]
  constructor
  · intro h cs hcs harea
    have := h cs hcs
    simpa [harea] using this
  · intro h cs hcs hused
    simp only [Bool.and_eq_true, decide_eq_true_eq] at hused
    rw [h cs hcs hused.2] at hused
    cases hused.1

/-- With no register of the first area in use, only the frame pointer is spilled beyond the
registers in use. -/
theorem pointerPlan_of_unused (hfirst : t.firstAreaInUse p = false) :
    t.pointerPlan p = t.planPointer p (t.startFramed p) := by
  rw [pointerPlan, planLink, hfirst, Bool.and_false, if_neg Bool.false_ne_true]

theorem coreSpills_of_unused (hwide : t.abi.thumb1Only = false) (hp : p.layout.spilled = {})
    (hfirst : t.firstAreaInUse p = false) :
    (t.pointerPlan p).coreSpills =
      (t.savedCores.filter fun cs => p.isUsed cs.reg).length +
        if t.setsPointer p then 1 else 0 := by
  have hunspilled : ¬ (t.startFramed p).proc.layout.isSpilled t.framePointer := by
    intro hspilled
    obtain ⟨cs, hcs, hreg, hused⟩ := (isSpilled_startFramed hp).1 hspilled
    have harea : cs.area = .gpr1 := by
      rw [(mem_calleeSaved_facts hcs).area, hreg]
      exact t.abi.area_framePointer
    obtain ⟨n, hn⟩ := t.framePointer_core
    have hcore : cs ∈ t.savedCores := (mem_savedCores_iff hwide).2 ⟨hcs, n, hreg.trans hn⟩
    rw [← hreg, firstAreaInUse_eq_false_iff.1 hfirst cs hcore harea] at hused
    cases hused
  have hcond : (t.abi.darwin || t.hasPointer p) = t.setsPointer p := rfl
  rw [pointerPlan_of_unused hfirst, planPointer, hcond]
  by_cases hsets : t.setsPointer p
  · rw [if_pos hsets, if_pos hsets]
    dsimp only
    rw [if_neg hunspilled]
    rfl
  · rw [if_neg hsets, if_neg hsets]
    rfl

/-- A frame pointer that is alone in its area leaves an odd number. -/
theorem PointerAlone.staysOdd (h : t.PointerAlone p) (hwide : t.abi.thumb1Only = false)
    (hp : p.layout.spilled = {}) : t.StaysOdd p := by
  have hfirst := firstAreaInUse_eq_false_iff.2 h.first
  constructor
  · have hcount := coreSpills_of_unused hwide hp hfirst
    rw [if_pos h.sets] at hcount
    have heven := h.even
    omega
  · rw [alignmentSpill?, hfirst, Bool.false_and, if_neg Bool.false_ne_true, hwide,
      if_neg Bool.false_ne_true, List.find?_eq_none]
    intro r hr
    obtain ⟨cs, hcs, rfl, harea, hunspilled⟩ := (tracks_pointerPlan hp).mem_free2.1 hr
    have hunused : p.isUsed cs.reg = false := by
      by_contra hused
      rw [Bool.not_eq_false, ← isSpilled_startFramed_eq hp hcs] at hused
      obtain ⟨_, _, -, hkept⟩ := (planPointer_facts t p (t.startFramed p)).1
      rw [pointerPlan_of_unused hfirst, hkept _ hused] at hunspilled
      cases hunspilled
    simp [h.second cs hcs harea hunused]

/-- Outside Darwin there is no second area. -/
theorem area_eq_gpr1 (hdarwin : t.abi.darwin = false) {cs : CalleeSaved} (h : cs ∈ t.savedCores) :
    cs.area = .gpr1 := by
  obtain ⟨hcs, n, hn⟩ := core_of_mem_savedCores h
  have hsaved := mem_calleeSaved_facts hcs
  have harea := hsaved.saved
  rw [hsaved.area]
  rw [hn, Abi.area, hdarwin] at harea ⊢
  split
  · rfl
  · next hlow =>
    rw [if_neg hlow] at harea
    split
    · rfl
    · next hhigh =>
      rw [if_neg hhigh] at harea
      exact absurd rfl harea

/-- A core register that is free and still reserved is `r9`. -/
theorem eq_r9_of_isReserved {cs : CalleeSaved} (hcs : cs ∈ t.savedCores)
    (hfree : (t.pointerPlan p).proc.layout.isSpilled cs.reg = false)
    (hreserved : t.isReserved p cs.reg) : cs.reg = .core 9 := by
  obtain ⟨hmem, -⟩ := core_of_mem_savedCores hcs
  have hspecial : cs.reg.isSpecial = false := by
    rcases t.abi.area_cases (mem_calleeSaved_facts hmem).saved with ⟨hcore, -⟩ | ⟨hdouble, -⟩
    · have hall : ∀ r ∈ Abi.savableCores, r.isSpecial = false := by decide
      exact hall _ hcore
    · have hall : ∀ r ∈ Abi.savableDoubles, r.isSpecial = false := by decide
      exact hall _ hdouble
  simp only [isReserved, hspecial, Bool.false_or, Bool.or_eq_true, Bool.and_eq_true,
    decide_eq_true_eq] at hreserved
  rcases hreserved with ⟨hpointer, hsets⟩ | ⟨hnine, -⟩
  · -- the frame pointer has been spilled if it is reserved
    have hspilled := (planPointer_facts t p (t.planLink p (t.startFramed p))).2.2
      (Bool.or_eq_true_iff.2 hsets)
    rw [hpointer] at hfree
    rw [pointerPlan, hspilled] at hfree
    cases hfree
  · exact hnine

/-- If no register can be spilled for alignment, all that could be are spilled already, or there is
no other register of the first area in use and none of the second area left. -/
theorem alignmentSpill?_eq_none (hwide : t.abi.thumb1Only = false) (hp : p.layout.spilled = {})
    (h : t.alignmentSpill? p (t.pointerPlan p) = none) :
    t.SpillsAllCores p (t.pointerPlan p).proc ∨
      t.firstAreaInUse p = false ∧ ∀ r ∈ (t.pointerPlan p).free2, t.isReserved p r := by
  have htracks := tracks_pointerPlan (t := t) hp
  -- a core register that is neither spilled nor reserved would be in one of the lists
  have hall (h1 : ∀ r ∈ (t.pointerPlan p).free1, t.isReserved p r)
      (h2 : ∀ r ∈ (t.pointerPlan p).free2, t.isReserved p r) :
      t.SpillsAllCores p (t.pointerPlan p).proc := by
    intro cs hcs hreserved
    by_contra hunspilled
    rw [Bool.not_eq_true] at hunspilled
    by_cases harea : cs.area = .gpr1
    · rw [h1 _ (htracks.mem_free1.2 ⟨cs, hcs, rfl, harea, hunspilled⟩)] at hreserved
      cases hreserved
    · rw [h2 _ (htracks.mem_free2.2 ⟨cs, hcs, rfl, harea, hunspilled⟩)] at hreserved
      cases hreserved
  rw [alignmentSpill?, hwide] at h
  split at h
  · next hlook =>
    simp only [Bool.and_eq_true, decide_eq_true_eq] at hlook
    have hfirst : ∀ r ∈ (t.pointerPlan p).free1, t.isReserved p r := by
      intro r hr
      have := List.find?_eq_none.1 h r hr
      simpa [canAlign, hwide] using this
    -- only r9 is left, which has no second area beside it
    obtain ⟨x, hx⟩ := List.exists_mem_of_ne_nil _ hlook.2
    obtain ⟨cs, hcs, rfl, harea, hunspilled⟩ := htracks.mem_free1.1 hx
    have hnine := eq_r9_of_isReserved hcs hunspilled (hfirst _ hx)
    have hdarwin : t.abi.darwin = false := by
      by_contra hdarwin
      rw [Bool.not_eq_false] at hdarwin
      rw [area_of_mem_savedCores hcs, hnine, Abi.area, hdarwin, if_neg (by decide),
        if_pos (by decide)] at harea
      cases harea
    refine .inl (hall hfirst ?_)
    intro r hr
    obtain ⟨cs', hcs', -, hother, -⟩ := htracks.mem_free2.1 hr
    exact absurd (area_eq_gpr1 hdarwin hcs') hother
  · next hlook =>
    rw [if_neg Bool.false_ne_true] at h
    have hsecond : ∀ r ∈ (t.pointerPlan p).free2, t.isReserved p r := by
      intro r hr
      have := List.find?_eq_none.1 h r hr
      simpa using this
    simp only [Bool.and_eq_true, decide_eq_true_eq, not_and_or, Bool.not_eq_true, not_not] at hlook
    rcases hlook with hfirst | hnone
    · exact .inr ⟨hfirst, hsecond⟩
    · refine .inl (hall ?_ hsecond)
      intro r hr
      rw [hnone] at hr
      exact absurd hr List.not_mem_nil

/-- A frame pointer is astray if it is lost. -/
theorem strayPointer_pointerPlan (hp : p.layout.spilled = {}) :
    t.LosesPointer p ∧ t.strayPointer (t.pointerPlan p).proc = 1 ∨
      ¬ t.LosesPointer p ∧ t.strayPointer (t.pointerPlan p).proc = 0 := by
  by_cases hsets : t.setsPointer p
  · have hspilled : (t.pointerPlan p).proc.layout.isSpilled t.framePointer :=
      (planPointer_facts t p (t.planLink p (t.startFramed p))).2.2 hsets
    rw [strayPointer, hspilled, LosesPointer]
    cases hlisted : t.isCalleeSaved t.framePointer with
    | false => exact .inl ⟨⟨hsets, Bool.false_ne_true⟩, rfl⟩
    | true => exact .inr ⟨fun hlost => hlost.2 rfl, rfl⟩
  · right
    refine ⟨fun hlost => hsets hlost.1, ?_⟩
    have hlink : t.strayPointer (t.planLink p (t.startFramed p)).proc = 0 := by
      rw [planLink]
      split
      · exact (strayPointer_spill (.inl t.isCalleeSaved_lr)).trans (strayPointer_startFramed hp)
      · exact strayPointer_startFramed hp
    have hcond : (t.abi.darwin || t.hasPointer p) = t.setsPointer p := rfl
    rw [pointerPlan, planPointer, hcond, if_neg hsets]
    exact hlink

/-- An even number of core registers gets a slot, unless the number stays odd, or else a frame
pointer is lost that was counted. -/
theorem even_coreSlots_iff (scavenger : Bool) (hwide : t.abi.thumb1Only = false)
    (halign : t.abi.stackAlignment = 8) (hp : p.layout.spilled = {})
    (hframed : t.savedInUse p ≠ []) :
    2 ∣ (t.coreSlots (t.finalizeSpillSet scavenger p)).length ↔
      (t.StaysOdd p ↔ t.LosesPointer p) := by
  obtain ⟨k, hlength⟩ := length_coreSlots_finalizeSpillSet scavenger hwide halign hp hframed
  -- the correction is for the number that is counted, not for the number of slots
  have hsum : 2 ∣ (t.coreSlots (t.finalizeSpillSet scavenger p)).length +
      t.strayPointer (t.pointerPlan p).proc ↔ ¬ t.StaysOdd p := by
    rw [hlength, StaysOdd]
    cases t.alignmentSpill? p (t.pointerPlan p) with
    | none =>
      simp only [Option.isSome_none, Bool.false_eq_true, and_false, if_false, and_true]
      omega
    | some r =>
      simp only [Option.isSome_some, and_true, reduceCtorEq, and_false, not_false_eq_true, iff_true]
      split <;> omega
  rcases strayPointer_pointerPlan hp with ⟨hlost, hstray⟩ | ⟨hlost, hstray⟩
  · rw [iff_true_right hlost, ← not_iff_not, ← hsum, hstray]
    omega
  · rw [iff_false_right hlost, ← hsum, hstray, Nat.add_zero]

/-- Outside the first area the frame pointer changes nothing. -/
theorem isSpilled_planPointer {cs : CalleeSaved} (hcs : cs ∈ t.savedCores)
    (harea : cs.area ≠ .gpr1) :
    (t.planPointer p s).proc.layout.isSpilled cs.reg ↔ s.proc.layout.isSpilled cs.reg := by
  have hne : cs.reg ≠ t.framePointer := by
    intro hreg
    rw [area_of_mem_savedCores hcs, hreg] at harea
    exact harea t.abi.area_framePointer
  rw [planPointer]
  split
  · dsimp only
    split
    · exact Iff.rfl
    · exact RegSet.contains_insert.trans (or_iff_right hne)
  · exact Iff.rfl

/-- The number stays odd for one of two reasons. -/
theorem StaysOdd.cases (h : t.StaysOdd p) (scavenger : Bool) (hwide : t.abi.thumb1Only = false)
    (hp : p.layout.spilled = {}) (hframed : t.savedInUse p ≠ []) :
    t.SpillsAllCores p (t.finalizeSpillSet scavenger p) ∨ t.PointerAlone p := by
  obtain ⟨hodd, hnone⟩ := h
  rcases alignmentSpill?_eq_none hwide hp hnone with hall | ⟨hfirst, hsecond⟩
  · left
    intro cs hcs hreserved
    rcases finalizeSpillSet_cases_of_wide (p := p) scavenger hwide with ⟨-, hplan⟩ | ⟨hempty, -⟩
    · obtain ⟨_, _, _, -, hkept⟩ := t.planHeadroom_shape p scavenger
      rw [hplan]
      exact hkept _ (hall cs hcs hreserved)
    · exact absurd hempty hframed
  · right
    have hunused := firstAreaInUse_eq_false_iff.1 hfirst
    have hcount := coreSpills_of_unused hwide hp hfirst
    -- an odd number has to come from the second area, or from the frame pointer
    have hsets : t.setsPointer p := by
      by_contra hsets
      have hdarwin : t.abi.darwin = false := by
        simp only [setsPointer, Bool.or_eq_true, not_or, Bool.not_eq_true] at hsets
        exact hsets.1
      have hempty : (t.savedCores.filter fun cs => p.isUsed cs.reg) = [] := by
        rw [List.filter_eq_nil_iff]
        intro cs hcs hused
        rw [hunused cs hcs (area_eq_gpr1 hdarwin hcs)] at hused
        cases hused
      rw [hempty, if_neg hsets] at hcount
      rw [hcount] at hodd
      cases hodd
    refine ⟨hsets, hunused, ?_, ?_⟩
    · intro cs hcs harea hidle
      refine hsecond _ ((tracks_pointerPlan hp).mem_free2.2 ⟨cs, hcs, rfl, harea, ?_⟩)
      rw [← Bool.not_eq_true, pointerPlan_of_unused hfirst, isSpilled_planPointer hcs harea,
        isSpilled_startFramed_eq hp hcs, hidle]
      exact Bool.false_ne_true
    · rw [if_pos hsets] at hcount
      omega

/-! ## Slots of double-precision registers -/

/-- The callee-saved registers outside the double-precision area are the core registers. -/
theorem savedClass_eq_gpr_iff (hwide : t.abi.thumb1Only = false) {cs : CalleeSaved}
    (hcs : cs ∈ t.calleeSaved) : t.savedClass cs.reg = .gpr ↔ cs.area ≠ .dpr := by
  have hsaved := mem_calleeSaved_facts hcs
  constructor
  · intro hclass harea
    rcases t.abi.area_cases hsaved.saved with ⟨-, hcore⟩ | ⟨hdouble, -⟩
    · rw [← hsaved.area, harea] at hcore
      simp at hcore
    · have hdoubles : ∀ r ∈ Abi.savableDoubles, t.savedClass r = .dpr := by
        intro r hr
        simp only [Abi.savableDoubles, List.mem_cons, List.not_mem_nil, or_false] at hr
        rcases hr with rfl | rfl | rfl | rfl | rfl | rfl | rfl | rfl <;> rfl
      rw [hdoubles _ hdouble] at hclass
      cases hclass
  · intro harea
    have hcore := (mem_savedCores_iff hwide).2 ⟨hcs, core_of_area hcs harea⟩
    exact of_decide_eq_true (List.mem_filter.1 hcore).2

/-- A register that is spilled without being in use is a core register. -/
theorem MaySpill.core {r : Reg} (h : t.MaySpill p r) : ∃ n, r = .core n := by
  cases h with
  | link => exact ⟨_, rfl⟩
  | pointer => exact t.framePointer_core
  | idle hcs => exact (core_of_mem_savedCores hcs).2

/-- Slots that are not in the double-precision area are those of core registers. -/
theorem length_coreSlots_eq (hwide : t.abi.thumb1Only = false) (q : Procedure) :
    (t.coreSlots q).length = (inArea .gpr1 (t.savedSlots q)).length +
      (inArea .gpr2 (t.savedSlots q)).length := by
  have hcores : t.coreSlots q = (t.spilledSaved q).filter fun cs => !(cs.area = .dpr) := by
    rw [coreSlots, savedCores, spilledSaved, List.filter_filter, List.filter_filter]
    apply List.filter_congr
    intro cs hcs
    rw [Bool.and_comm]
    congr 1
    rw [← decide_not, decide_eq_decide]
    exact savedClass_eq_gpr_iff hwide hcs
  have hareas : (t.savedSlots q).map SavedSlot.area = (t.spilledSaved q).map CalleeSaved.area :=
    savedSlots_map fun _ a => a
  have hdoubles : (inArea .dpr (t.savedSlots q)).length =
      ((t.spilledSaved q).filter fun cs => cs.area = .dpr).length := by
    have hcount := congrArg (fun as => (as.filter fun a => a = Area.dpr).length) hareas
    simp only [List.filter_map, List.length_map] at hcount
    exact hcount
  have hall := congrArg List.length hareas
  have hrow := congrArg List.length (isSavedRow_savedSlots (t := t) (p := q)).eq_append
  have hsplit := List.length_eq_length_filter_add (l := t.spilledSaved q)
    fun cs => decide (cs.area = .dpr)
  rw [List.length_map, List.length_map] at hall
  rw [List.length_append, List.length_append] at hrow
  rw [hcores]
  omega

/-- The slot of a double-precision register is below those of the core registers, and below some
others of its own size. -/
theorem exists_doubleSlot (hwide : t.abi.thumb1Only = false) {f : Frame}
    (htiles : f.Tiles 0 (t.savedSlots q)) {n : Fin 32}
    (hn : ∃ σ ∈ t.savedSlots q, σ.reg = .double n) :
    ∃ σ ∈ t.savedSlots q, σ.reg = .double n ∧ ∃ o, f.object? σ.index = some o ∧
      ∃ k : Nat, o.offset.toInt = -(4 * (t.coreSlots q).length + 8 * k : Int) := by
  obtain ⟨σ, hσ, hreg⟩ := hn
  have hrow := isSavedRow_savedSlots (t := t) (p := q)
  have harea : σ.area = .dpr := by
    rcases hrow.cases hσ with ⟨hcore, -⟩ | ⟨-, harea⟩
    · have hcores : ∀ r ∈ Abi.savableCores, ∀ n, r ≠ .double n := by decide
      exact absurd hreg (hcores _ hcore n)
    · exact harea
  refine ⟨σ, hσ, hreg, ?_⟩
  obtain ⟨pre, post, hsplit⟩ := List.append_of_mem (mem_inArea.2 ⟨hσ, harea⟩)
  rw [hrow.eq_append, hsplit, Frame.tiles_append] at htiles
  obtain ⟨-, ⟨o, ho, -, hoffset⟩, -⟩ := Frame.tiles_append.1 htiles.2
  have hpre : savedBytes pre = 8 * pre.length := by
    apply savedBytes_of_bytes
    intro τ hτ
    have hmem : τ ∈ inArea .dpr (t.savedSlots q) := hsplit ▸ List.mem_append_left _ hτ
    obtain ⟨hτ, hτarea⟩ := mem_inArea.1 hmem
    rw [hrow.bytes hτ, if_pos hτarea]
  obtain ⟨hb1, hb2, -⟩ := hrow.savedBytes_inArea
  refine ⟨o, ho, pre.length + 1, ?_⟩
  rw [hoffset, savedBytes_append, hb1, hb2, hpre, length_coreSlots_eq hwide, hrow.bytes hσ,
    if_pos harea]
  push_cast
  omega

end

/-- On a stack that is aligned to eight bytes, the slot of a double-precision register is at a
multiple of eight if an even number of core registers is spilled. Unless there is no core register
left to spill, this is so except in two cases, which make up for each other: the frame pointer is
alone in the first area, or it is set up and not preserved. -/
theorem aligned_iff_even (t : Target) (scavenger : Bool) {p : Procedure}
    (hwide : t.abi.thumb1Only = false) (halign : t.abi.stackAlignment = 8) (hp : p.IsUnplanned)
    (hfixed : ∀ o ∈ p.frame.fixed, 0 ≤ o.offset)
    (hcount : (t.assignSlots (t.finalizeSpillSet scavenger p.markUsed)).frame.objects.length <
      2 ^ 63) :
    let q := t.placeFrame (t.assignSlots (t.finalizeSpillSet scavenger p.markUsed))
    ∀ n, q.layout.isSpilled (.double n) →
      ∃ σ ∈ q.frame.saved, σ.reg = .double n ∧ ∃ o, q.frame.object? σ.index = some o ∧
        (8 ∣ o.offset.toInt ↔ 2 ∣ (t.coreSlots q).length) ∧
        (t.PointerAlone p.markUsed → (8 ∣ o.offset.toInt ↔ t.LosesPointer p.markUsed)) ∧
        (¬ t.PointerAlone p.markUsed → ¬ t.SpillsAllCores p.markUsed q →
          (8 ∣ o.offset.toInt ↔ ¬ t.LosesPointer p.markUsed)) := by
  intro q n hspilled
  have hnew := hp.markUsed
  have hsaved : q.frame.saved = t.savedSlots (t.finalizeSpillSet scavenger p.markUsed) :=
    t.saved_placeFrame _
  have htiles := tiles_of_isUnplanned hnew hfixed hcount
  -- a double-precision register is spilled only if it is in use
  obtain ⟨cs, hcs, hreg, hused⟩ : ∃ cs ∈ t.calleeSaved, cs.reg = .double n ∧
      p.markUsed.isUsed cs.reg := by
    rcases (accounts_finalizeSpillSet scavenger hwide hnew.spilled _ hspilled).1 with hin | hmay
    · obtain ⟨cs, hcs, hreg, hused⟩ := hin
      exact ⟨cs, hcs, hreg, hreg ▸ hused⟩
    · obtain ⟨m, hm⟩ := hmay.core
      cases hm
  have hframed : t.savedInUse p.markUsed ≠ [] :=
    List.ne_nil_of_mem (List.mem_filter.2 ⟨hcs, hused⟩)
  have hslot : ∃ σ ∈ t.savedSlots (t.finalizeSpillSet scavenger p.markUsed), σ.reg = .double n :=
    exists_slot_of_isSpilled (hreg ▸ isCalleeSaved_of_mem hcs) hspilled
  obtain ⟨σ, hσ, hσreg, o, ho, k, hoffset⟩ := exists_doubleSlot hwide htiles hslot
  have hiff : 8 ∣ o.offset.toInt ↔ 2 ∣ (t.coreSlots q).length := by
    rw [hoffset]
    show _ ↔ 2 ∣ (t.coreSlots (t.finalizeSpillSet scavenger p.markUsed)).length
    omega
  have heven : 2 ∣ (t.coreSlots q).length ↔ (t.StaysOdd p.markUsed ↔ t.LosesPointer p.markUsed) :=
    even_coreSlots_iff scavenger hwide halign hnew.spilled hframed
  refine ⟨σ, hsaved ▸ hσ, hσreg, o, ho, hiff, ?_, ?_⟩
  · intro halone
    rw [hiff, heven, iff_true_left (halone.staysOdd hwide hnew.spilled)]
  · intro halone hunspilled
    have hstays : ¬ t.StaysOdd p.markUsed := by
      intro hstays
      rcases hstays.cases scavenger hwide hnew.spilled hframed with hall | hpointer
      · exact hunspilled hall
      · exact halone hpointer
    rw [hiff, heven, iff_false_left hstays]

/-- A function that uses one half of a register and nothing else saves it at a multiple of eight. -/
theorem aligned_iff_even_loadsHalf :
    let q := plainDefault.placeFrame
      (plainDefault.assignSlots (plainDefault.finalizeSpillSet true loadsHalf.markUsed))
    ∃ σ ∈ q.frame.saved, σ.reg = .double 8 ∧ ∃ o, q.frame.object? σ.index = some o ∧
      8 ∣ o.offset.toInt := by
  intro q
  obtain ⟨σ, hσ, hreg, o, ho, hiff, -⟩ := aligned_iff_even plainDefault true rfl rfl
    (p := loadsHalf) ⟨rfl, rfl, rfl, rfl⟩ (by decide) (by decide) 8 (by decide)
  exact ⟨σ, hσ, hreg, o, ho, hiff.2 (by decide)⟩

/-- A double-precision register is saved away from the multiples of eight, although there is a core
register left to spill. -/
def MisalignsDouble (t : Target) (p : Procedure) : Prop :=
  let q := t.placeFrame (t.assignSlots (t.finalizeSpillSet true p.markUsed))
  (∃ σ ∈ q.frame.saved, (∃ n, σ.reg = .double n) ∧ ∃ o, q.frame.object? σ.index = some o ∧
    ¬ 8 ∣ o.offset.toInt) ∧ ¬ t.SpillsAllCores p.markUsed q

/-- The default convention, where every function has a frame pointer. -/
def pointerDefault : Target :=
  { plainDefault with config := { alwaysPointer := true } }

/-- A convention that does not preserve the frame pointer that every function has. -/
def pointerLost : Target :=
  ⟨{ defaultAbi with customSaved := some [
      ⟨Reg.lr, .gpr1⟩, ⟨.core 6, .gpr1⟩, ⟨.core 5, .gpr1⟩, ⟨.core 4, .gpr1⟩, ⟨.double 8, .dpr⟩] },
    { alwaysPointer := true }, rfl⟩

/-- The save is at -12 next to a frame pointer that is alone, and at -20 if the number is odd for
the lack of a frame pointer. -/
theorem misalignsDouble_loadsHalf :
    pointerDefault.abi.thumb1Only = false ∧ pointerDefault.abi.stackAlignment = 8 ∧
      loadsHalf.IsUnplanned ∧ loadsHalf.frame.fixed = [] ∧
      pointerDefault.MisalignsDouble loadsHalf ∧
      pointerLost.MisalignsDouble { loadsHalf with regs := loadsHalf.regs.use (.core 4) } := by
  refine ⟨rfl, rfl, ⟨rfl, rfl, rfl, rfl⟩, rfl, ⟨?_, ?_⟩, ⟨?_, ?_⟩⟩
  · exact ⟨⟨.double 8, 1, .dpr⟩, by decide, ⟨8, rfl⟩,
      { size := 8, align := 8, spillSlot := true, offset := -12 }, by decide, by decide⟩
  · intro hall
    have hr4 := hall ⟨.core 4, .gpr1⟩ (by decide) (by decide)
    exact absurd hr4 (by decide)
  · exact ⟨⟨.double 8, 3, .dpr⟩, by decide, ⟨8, rfl⟩,
      { size := 8, align := 8, spillSlot := true, offset := -20 }, by decide, by decide⟩
  · intro hall
    have hr5 := hall ⟨.core 5, .gpr1⟩ (by decide) (by decide)
    exact absurd hr5 (by decide)

end Target

end FrameLowering
