import FrameLowering.Proofs.FrameInvariant
import FrameLowering.Proofs.SlotPlacement

/-!
# Saved registers by area

The slots of saved registers come area by area, and each area is small. The layout that
`Target.computeLayout` records has the sizes of the areas as they are, and stacks them up
to the top of the frame.
-/

namespace FrameLowering

/-- The slots in an area. -/
def inArea (a : Area) (σs : List SavedSlot) : List SavedSlot :=
  σs.filter fun σ => σ.area = a

theorem mem_inArea {a : Area} {σs : List SavedSlot} {σ : SavedSlot} :
    σ ∈ inArea a σs ↔ σ ∈ σs ∧ σ.area = a := by
  simp [inArea]

/-- The parts of a layout that are decided before the areas are recorded. -/
def Layout.SameChoice (l l' : Layout) : Prop :=
  l'.spilled = l.spilled ∧ l'.hasStackFrame = l.hasStackFrame ∧
    l'.framePointer = l.framePointer ∧ l'.hasFramePointer = l.hasFramePointer

namespace Target

/-- Slots for callee-saved registers, in spill order. -/
structure IsSavedRow (t : Target) (σs : List SavedSlot) : Prop where
  mem : ∀ σ ∈ σs, ∃ cs ∈ t.calleeSaved, cs.reg = σ.reg ∧ cs.area = σ.area
  nodup : (σs.map SavedSlot.reg).Nodup
  sorted : σs.Pairwise fun σ τ => σ.area.code ≤ τ.area.code

section
variable {t : Target} {σs : List SavedSlot} {σ : SavedSlot}

theorem IsSavedRow.area (h : t.IsSavedRow σs) (hσ : σ ∈ σs) : σ.area = t.abi.area σ.reg := by
  obtain ⟨cs, hcs, hreg, harea⟩ := h.mem σ hσ
  rw [← harea, ← hreg]
  exact (mem_calleeSaved_facts hcs).area

theorem IsSavedRow.hasSlot (h : t.IsSavedRow σs) (hσ : σ ∈ σs) : σ.reg.HasSlot := by
  obtain ⟨cs, hcs, hreg, -⟩ := h.mem σ hσ
  exact hreg ▸ hasSlot_of_mem_calleeSaved hcs

/-- A slot is for a core register in an integer area, or for a double-precision
register. -/
theorem IsSavedRow.cases (h : t.IsSavedRow σs) (hσ : σ ∈ σs) :
    (σ.reg ∈ Abi.savableCores ∧ (σ.area = .gpr1 ∨ σ.area = .gpr2)) ∨
      (σ.reg ∈ Abi.savableDoubles ∧ σ.area = .dpr) := by
  rw [h.area hσ]
  obtain ⟨cs, hcs, hreg, -⟩ := h.mem σ hσ
  exact t.abi.area_cases (hreg ▸ (mem_calleeSaved_facts hcs).saved)

theorem IsSavedRow.tail (h : t.IsSavedRow (σ :: σs)) : t.IsSavedRow σs :=
  ⟨fun τ hτ => h.mem τ (List.mem_cons_of_mem _ hτ), (List.nodup_cons.1 h.nodup).2,
    (List.pairwise_cons.1 h.sorted).2⟩

/-- The areas come one after another. -/
theorem IsSavedRow.eq_append (h : t.IsSavedRow σs) :
    σs = inArea .gpr1 σs ++ inArea .gpr2 σs ++ inArea .dpr σs := by
  induction σs with
  | nil => rfl
  | cons σ σs ih =>
    have hrest := ih h.tail
    have hlater := (List.pairwise_cons.1 h.sorted).1
    -- no later slot is in an area before that of the first one
    have hnone (a : Area) (ha : ¬ σ.area.code ≤ a.code) : inArea a σs = [] := by
      rw [inArea, List.filter_eq_nil_iff]
      intro τ hτ harea
      exact ha (of_decide_eq_true harea ▸ hlater τ hτ)
    rcases h.cases List.mem_cons_self with ⟨-, harea | harea⟩ | ⟨-, harea⟩
    · have heq : inArea .gpr1 (σ :: σs) = σ :: inArea .gpr1 σs := by simp [inArea, harea]
      have heq2 : inArea .gpr2 (σ :: σs) = inArea .gpr2 σs := by simp [inArea, harea]
      have heq3 : inArea .dpr (σ :: σs) = inArea .dpr σs := by simp [inArea, harea]
      rw [heq, heq2, heq3, List.cons_append, List.cons_append, ← hrest]
    · have hempty := hnone .gpr1 (by rw [harea]; decide)
      have heq : inArea .gpr1 (σ :: σs) = [] := by
        rw [← hempty]
        simp [inArea, harea]
      have heq2 : inArea .gpr2 (σ :: σs) = σ :: inArea .gpr2 σs := by simp [inArea, harea]
      have heq3 : inArea .dpr (σ :: σs) = inArea .dpr σs := by simp [inArea, harea]
      rw [hempty, List.nil_append] at hrest
      rw [heq, heq2, heq3, List.nil_append, List.cons_append, ← hrest]
    · have hempty := hnone .gpr1 (by rw [harea]; decide)
      have hempty2 := hnone .gpr2 (by rw [harea]; decide)
      have heq : inArea .gpr1 (σ :: σs) = [] := by
        rw [← hempty]
        simp [inArea, harea]
      have heq2 : inArea .gpr2 (σ :: σs) = [] := by
        rw [← hempty2]
        simp [inArea, harea]
      have heq3 : inArea .dpr (σ :: σs) = σ :: inArea .dpr σs := by simp [inArea, harea]
      rw [hempty, hempty2, List.nil_append, List.nil_append] at hrest
      rw [heq, heq2, heq3, List.nil_append, List.nil_append, ← hrest]

/-- There are few slots in an area. -/
theorem IsSavedRow.length_le (h : t.IsSavedRow σs) {a : Area} (regs : List Reg)
    (hregs : ∀ σ ∈ inArea a σs, σ.reg ∈ regs) : (inArea a σs).length ≤ regs.length := by
  have hnodup : ((inArea a σs).map SavedSlot.reg).Nodup :=
    h.nodup.sublist (List.filter_sublist.map _)
  have hsub : (inArea a σs).map SavedSlot.reg ⊆ regs := by
    intro r hr
    obtain ⟨σ, hσ, rfl⟩ := List.mem_map.1 hr
    exact hregs σ hσ
  have := (List.subperm_of_subset hnodup hsub).length_le
  rwa [List.length_map] at this

theorem savedBytes_of_bytes {n : Nat} (h : ∀ σ ∈ σs, σ.bytes = n) :
    savedBytes σs = n * σs.length := by
  induction σs with
  | nil => rfl
  | cons σ σs ih =>
    rw [savedBytes_cons, h σ List.mem_cons_self, ih fun τ hτ => h τ (List.mem_cons_of_mem _ hτ),
      List.length_cons, Nat.mul_succ, Nat.add_comm]

theorem IsSavedRow.bytes (h : t.IsSavedRow σs) (hσ : σ ∈ σs) :
    σ.bytes = if σ.area = .dpr then 8 else 4 := by
  have hbytes : ∀ r ∈ Abi.savableCores, r.cells.length = 1 := by decide
  have hbytes' : ∀ r ∈ Abi.savableDoubles, r.cells.length = 2 := by decide
  rcases h.cases hσ with ⟨hmem, harea⟩ | ⟨hmem, harea⟩
  · have hne : σ.area ≠ .dpr := by rcases harea with h | h <;> simp [h]
    rw [if_neg hne, SavedSlot.bytes, hbytes _ hmem]
  · rw [if_pos harea, SavedSlot.bytes, hbytes' _ hmem]

/-- Each area has a size and is small. -/
theorem IsSavedRow.savedBytes_inArea (h : t.IsSavedRow σs) :
    savedBytes (inArea .gpr1 σs) = 4 * (inArea .gpr1 σs).length ∧
      savedBytes (inArea .gpr2 σs) = 4 * (inArea .gpr2 σs).length ∧
      savedBytes (inArea .dpr σs) = 8 * (inArea .dpr σs).length ∧
      (inArea .gpr1 σs).length ≤ 9 ∧ (inArea .gpr2 σs).length ≤ 9 ∧
      (inArea .dpr σs).length ≤ 8 := by
  have hcore (a : Area) (ha : a ≠ .dpr) (hlen : ∀ σ ∈ inArea a σs, σ.reg ∈ Abi.savableCores) :
      savedBytes (inArea a σs) = 4 * (inArea a σs).length ∧ (inArea a σs).length ≤ 9 := by
    refine ⟨savedBytes_of_bytes fun σ hσ => ?_, h.length_le _ hlen⟩
    obtain ⟨hσ, harea⟩ := mem_inArea.1 hσ
    rw [h.bytes hσ, harea, if_neg ha]
  have hreg (a : Area) (ha : a = .gpr1 ∨ a = .gpr2) : ∀ σ ∈ inArea a σs,
      σ.reg ∈ Abi.savableCores := by
    intro σ hσ
    obtain ⟨hin, hσa⟩ := mem_inArea.1 hσ
    rcases h.cases hin with ⟨hmem, -⟩ | ⟨-, harea⟩
    · exact hmem
    · rw [← hσa, harea] at ha
      simp at ha
  obtain ⟨h1, h1'⟩ := hcore .gpr1 (by decide) (hreg .gpr1 (.inl rfl))
  obtain ⟨h2, h2'⟩ := hcore .gpr2 (by decide) (hreg .gpr2 (.inr rfl))
  refine ⟨h1, h2, savedBytes_of_bytes fun σ hσ => ?_, h1', h2', ?_⟩
  · obtain ⟨hσ, harea⟩ := mem_inArea.1 hσ
    rw [h.bytes hσ, if_pos harea]
  · refine h.length_le Abi.savableDoubles fun σ hσ => ?_
    obtain ⟨hσ, hdpr⟩ := mem_inArea.1 hσ
    rcases h.cases hσ with ⟨-, harea⟩ | ⟨hmem, -⟩
    · rw [hdpr] at harea
      simp at harea
    · exact hmem

theorem IsSavedRow.savedBytes_le (h : t.IsSavedRow σs) : savedBytes σs ≤ 136 := by
  obtain ⟨hb1, hb2, hb3, h1, h2, h3⟩ := h.savedBytes_inArea
  rw [h.eq_append, savedBytes_append, savedBytes_append]
  omega

/-- There are few slots. -/
theorem IsSavedRow.length_total_le (h : t.IsSavedRow σs) : σs.length ≤ 26 := by
  obtain ⟨-, -, -, h1, h2, h3⟩ := h.savedBytes_inArea
  rw [h.eq_append, List.length_append, List.length_append]
  omega

/-! ## The recorded layout -/

/-- What is recorded for some slots: the sizes of the areas, the area of each slot, and
possibly where the frame pointer is saved. -/
theorem addSlots_facts {l l' : Layout} (h : t.addSlots l σs = (l', none)) :
    ∃ fpSpillIndex, l' = { l with
        gpr1Size := l.gpr1Size + Int64.ofNat (4 * (inArea .gpr1 σs).length)
        gpr2Size := l.gpr2Size + Int64.ofNat (4 * (inArea .gpr2 σs).length)
        dprSize := l.dprSize + Int64.ofNat (8 * (inArea .dpr σs).length)
        areas := (σs.map fun σ => (σ.index, σ.area)).reverse ++ l.areas
        fpSpillIndex } ∧
      (fpSpillIndex = l.fpSpillIndex ∨
        ∃ σ ∈ σs, σ.reg = t.framePointer ∧ σ.index = fpSpillIndex) := by
  induction σs generalizing l with
  | nil =>
    obtain rfl : l = l' := congrArg Prod.fst h
    exact ⟨l.fpSpillIndex, by simp [inArea], .inl rfl⟩
  | cons σ σs ih =>
    rw [addSlots] at h
    cases hadd : t.addSlot l σ with
    | none => simp [hadd] at h
    | some m =>
      simp only [hadd] at h
      obtain ⟨index, hl', hindex⟩ := ih h
      -- a slot of the frame pointer replaces what was recorded before
      have hpointer (hm : m.fpSpillIndex =
          if σ.reg = t.framePointer then σ.index else l.fpSpillIndex) :
          index = l.fpSpillIndex ∨
            ∃ τ ∈ σ :: σs, τ.reg = t.framePointer ∧ τ.index = index := by
        rcases hindex with hindex | ⟨τ, hτ, hreg, hτi⟩
        · by_cases hreg : σ.reg = t.framePointer
          · rw [if_pos hreg] at hm
            exact .inr ⟨σ, List.mem_cons_self, hreg, hm.symm.trans hindex.symm⟩
          · rw [if_neg hreg] at hm
            exact .inl (hindex.trans hm)
        · exact .inr ⟨τ, List.mem_cons_of_mem _ hτ, hreg, hτi⟩
      have hfour (n : Nat) : Int64.ofNat (4 * (n + 1)) = 4 + Int64.ofNat (4 * n) := by
        rw [Nat.mul_succ, Nat.add_comm, Int64.ofNat_add]
        rfl
      have height (n : Nat) : Int64.ofNat (8 * (n + 1)) = 8 + Int64.ofNat (8 * n) := by
        rw [Nat.mul_succ, Nat.add_comm, Int64.ofNat_add]
        rfl
      rw [addSlot] at hadd
      refine ⟨index, ?_, ?_⟩
      · cases harea : σ.area
        case gpr1 | gpr2 | dpr =>
          simp only [harea, Option.some.injEq] at hadd
          subst hadd
          rw [hl']
          simp [inArea, harea, hfour, height, Layout.setArea, Int64.add_assoc]
        all_goals simp [harea] at hadd
      · cases harea : σ.area
        case gpr1 | gpr2 | dpr =>
          simp only [harea, Option.some.injEq] at hadd
          subst hadd
          exact hpointer rfl
        all_goals simp [harea] at hadd

theorem lookup_reverse {σ : SavedSlot} (hσ : σ ∈ σs) (hnodup : (σs.map SavedSlot.index).Nodup) :
    ((σs.map fun σ => (σ.index, σ.area)).reverse).lookup σ.index = some σ.area := by
  have hkeys : (((σs.map fun σ => (σ.index, σ.area)).reverse).map Prod.fst).Nodup := by
    rw [List.map_reverse, List.map_map]
    exact List.nodup_reverse.2 hnodup
  have hmem : (σ.index, σ.area) ∈ (σs.map fun σ => (σ.index, σ.area)).reverse :=
    List.mem_reverse.2 (List.mem_map_of_mem hσ)
  generalize (σs.map fun σ => (σ.index, σ.area)).reverse = es at hkeys hmem
  induction es with
  | nil => exact absurd hmem List.not_mem_nil
  | cons e es ih =>
    obtain ⟨i, a⟩ := e
    rw [List.map_cons, List.nodup_cons] at hkeys
    rcases List.mem_cons.1 hmem with heq | htail
    · obtain ⟨rfl, rfl⟩ := Prod.mk.inj heq
      rw [List.lookup_cons, beq_self_eq_true]
    · have hne : (σ.index == i) = false := by
        rw [beq_eq_false_iff_ne]
        rintro rfl
        exact hkeys.1 (List.mem_map.2 ⟨_, htail, rfl⟩)
      rw [List.lookup_cons, hne]
      exact ih hkeys.2 htail

/-- The layout of a function with a stack frame. -/
structure IsGrouped (t : Target) (p : Procedure) : Prop where
  gpr1 : p.layout.gpr1Size = Int64.ofNat (4 * (inArea .gpr1 p.frame.saved).length)
  gpr2 : p.layout.gpr2Size = Int64.ofNat (4 * (inArea .gpr2 p.frame.saved).length)
  dpr : p.layout.dprSize = Int64.ofNat (8 * (inArea .dpr p.frame.saved).length)
  dprOffset : p.layout.dprOffset = p.frame.stackSize - p.layout.savedSize
  gpr2Offset : p.layout.gpr2Offset = p.layout.dprOffset + p.layout.dprSize
  gpr1Offset : p.layout.gpr1Offset = p.layout.gpr2Offset + p.layout.gpr2Size
  area : ∀ σ ∈ p.frame.saved, p.layout.area σ.index = σ.area
  pointer : t.setsPointer p → ∃ σ ∈ p.frame.saved, σ.reg = t.framePointer ∧
    σ.index = p.layout.fpSpillIndex ∧ ∃ o, p.frame.object? σ.index = some o ∧
      p.layout.fpSpillOffset = o.offset + p.frame.stackSize

/-- The frame pointer is found in the object of its slot, or it has no slot and is not set. -/
theorem locatePointer_cases {p q : Procedure} (h : t.locatePointer p = .ok () q) :
    (p.layout.fpSpillIndex ≠ noIndex ∧ ∃ o, p.frame.object? p.layout.fpSpillIndex = some o ∧
      q = { p with layout := { p.layout with fpSpillOffset := o.offset + p.frame.stackSize } }) ∨
      ¬ t.setsPointer p ∧ q = p := by
  rw [locatePointer] at h
  split at h
  · next hne =>
    rw [Frame.objectOffset] at h
    cases ho : p.frame.object? p.layout.fpSpillIndex with
    | none => simp [ho] at h
    | some o =>
      simp only [ho] at h
      obtain ⟨-, rfl⟩ := EStateM.Result.ok.inj h
      exact .inl ⟨hne, o, rfl, rfl⟩
  · split at h
    · cases h
    · next hsets =>
      obtain ⟨-, rfl⟩ := EStateM.Result.ok.inj h
      exact .inr ⟨hsets, rfl⟩

/-- A function without a stack frame has no layout. Otherwise the slots are added up, the areas
are stacked up to the top of the frame if they are not larger, and the frame pointer is
located. -/
theorem of_computeLayout {p q : Procedure} (h : t.computeLayout p = .ok () q) :
    (p.layout.hasStackFrame = false ∧ q = p) ∨
      (p.layout.hasStackFrame = true ∧
        ∃ l, t.addSlots p.layout.clearAreas p.frame.saved = (l, none) ∧
          ¬ p.frame.stackSize < l.savedSize ∧
          t.locatePointer { p with layout := l.stackAreas p.frame.stackSize } = .ok () q) := by
  rw [computeLayout] at h
  split at h
  · next hframe =>
    exact .inl ⟨by simpa using hframe, (EStateM.Result.ok.inj h).2.symm⟩
  next hframe =>
  split at h
  · cases h
  next l hadd =>
  split at h
  · cases h
  next hfits => exact .inr ⟨by simpa using hframe, l, hadd, hfits, h⟩

/-- Slots with indices of their own are found in the areas they were recorded for. -/
theorem area_of_areas {l : Layout} (hl : l.areas = (σs.map fun σ => (σ.index, σ.area)).reverse)
    (hnodup : (σs.map SavedSlot.index).Nodup) :
    (∀ σ ∈ σs, l.area σ.index = σ.area) ∧
      ∀ j, j ∉ σs.map SavedSlot.index → l.area j = .outside := by
  constructor
  · intro σ hσ
    rw [Layout.area, hl, lookup_reverse hσ hnodup]
    rfl
  · intro j hj
    have hnone : l.areas.lookup j = none := by
      rw [hl, List.lookup_eq_none_iff]
      intro e he
      obtain ⟨τ, hτ, rfl⟩ := List.mem_map.1 (List.mem_reverse.1 he)
      simp only [bne_iff_ne, ne_eq]
      rintro rfl
      exact hj (List.mem_map_of_mem hτ)
    rw [Layout.area, hnone]
    rfl

/-- What `computeLayout` records. -/
theorem computeLayout_facts {p q : Procedure} (h : t.computeLayout p = .ok () q)
    (hareas : p.layout.areas = []) (hnodup : (p.frame.saved.map SavedSlot.index).Nodup) :
    (∃ layout, q = { p with layout } ∧ Layout.SameChoice p.layout layout) ∧
      (p.layout.hasStackFrame → t.IsGrouped q) ∧
      ∀ j, j ∉ p.frame.saved.map SavedSlot.index → q.layout.area j = .outside := by
  obtain ⟨hframe, rfl⟩ | ⟨-, l, hadd, -, h⟩ := of_computeLayout h
  · refine ⟨⟨q.layout, rfl, rfl, rfl, rfl, rfl⟩, fun hf => ?_, fun j _ => ?_⟩
    · rw [hf] at hframe
      cases hframe
    · rw [Layout.area, hareas]
      rfl
  · obtain ⟨index, rfl, hpointer⟩ := addSlots_facts hadd
    -- the slots are recorded; what is left is the frame pointer
    have harea (l : Layout) (hl : l.areas =
        (p.frame.saved.map fun σ => (σ.index, σ.area)).reverse ++ p.layout.areas) :=
      area_of_areas (by rw [hl, hareas, List.append_nil]) hnodup
    have hzero (n : Nat) : (0 : Int64) + Int64.ofNat n = Int64.ofNat n := Int64.zero_add _
    rcases locatePointer_cases h with ⟨hne, o, ho, rfl⟩ | ⟨hsets, rfl⟩
    · obtain ⟨σ, hσ, hreg, hσi⟩ := hpointer.resolve_left hne
      refine ⟨⟨_, rfl, rfl, rfl, rfl, rfl⟩, fun _ => ?_, (harea _ rfl).2⟩
      exact ⟨hzero _, hzero _, hzero _, rfl, rfl, rfl, (harea _ rfl).1,
        fun _ => ⟨σ, hσ, hreg, hσi, o, hσi ▸ ho, rfl⟩⟩
    · refine ⟨⟨_, rfl, rfl, rfl, rfl, rfl⟩, fun _ => ?_, (harea _ rfl).2⟩
      exact ⟨hzero _, hzero _, hzero _, rfl, rfl, rfl, (harea _ rfl).1,
        fun h => absurd h hsets⟩

end

end Target

end FrameLowering
