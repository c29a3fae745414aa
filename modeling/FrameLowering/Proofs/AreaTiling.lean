import FrameLowering.Proofs.ObjectDepths
import FrameLowering.Proofs.SpillCoverage
import FrameLowering.Proofs.PointerChain

/-!
# Areas of saved registers

The slots of saved registers are packed from the stack pointer on entry downwards, and the layout
counts them up area by area. Here the two are put together: the slots that are recorded for an
area partition it, and the areas are stacked up to the top of the frame
(`Target.TilesAreas`). `Target.computeLayout_outcome` says when a layout is found at all. It is not
if the frame pointer has no slot, and not if the size of the frame has wrapped around
(`Target.areasTooLarge_wrapped`).
-/

namespace FrameLowering

/-! ## Bytes of a row -/

/-- A byte, counted from the bottom of the frame, belongs to a slot. -/
def Procedure.Occupies (p : Procedure) (σ : SavedSlot) (b : Int) : Prop :=
  ∃ o, p.frame.object? σ.index = some o ∧
    o.offset.toInt + p.frame.stackSize.toInt ≤ b ∧
    b < o.offset.toInt + p.frame.stackSize.toInt + o.size.toInt

section
variable {p : Procedure} {depth : Nat} {σs : List SavedSlot}

/-- The slots of a row lie inside it. -/
theorem Frame.Tiles.inside (h : p.frame.Tiles depth σs) {σ : SavedSlot} (hσ : σ ∈ σs) {b : Int}
    (hb : p.Occupies σ b) :
    p.frame.stackSize.toInt - (depth + savedBytes σs : Int) ≤ b ∧
      b < p.frame.stackSize.toInt - depth := by
  obtain ⟨o, ho, hlo, hhi⟩ := hb
  obtain ⟨r, hr, hsize, hbottom, htop⟩ := h.mem hσ
  obtain rfl := Option.some.inj (ho.symm.trans hr)
  omega

/-- Each byte of a row belongs to one slot. -/
theorem Frame.Tiles.once (h : p.frame.Tiles depth σs) {b : Int}
    (hlo : p.frame.stackSize.toInt - (depth + savedBytes σs : Int) ≤ b)
    (hhi : b < p.frame.stackSize.toInt - depth) : ∃! σ, σ ∈ σs ∧ p.Occupies σ b := by
  induction σs generalizing depth with
  | nil =>
    rw [savedBytes_nil] at hlo
    omega
  | cons σ σs ih =>
    obtain ⟨⟨o, ho, hsize, hoffset⟩, hrest⟩ := h
    rw [savedBytes_cons] at hlo
    -- the first slot is on top of the others, so the byte is in it or below it
    by_cases hfirst : p.frame.stackSize.toInt - (depth + σ.bytes : Int) ≤ b
    · refine ⟨σ, ⟨List.mem_cons_self, o, ho, by omega, by omega⟩, ?_⟩
      rintro τ ⟨hτ, hτb⟩
      rcases List.mem_cons.1 hτ with rfl | hτ
      · rfl
      · have := hrest.inside hτ hτb
        omega
    · obtain ⟨τ, ⟨hτ, hτb⟩, hunique⟩ := ih hrest (by omega) (by omega)
      refine ⟨τ, ⟨List.mem_cons_of_mem _ hτ, hτb⟩, ?_⟩
      rintro ρ ⟨hρ, hρb⟩
      rcases List.mem_cons.1 hρ with rfl | hρ
      · obtain ⟨r, hr, hbottom, -⟩ := hρb
        obtain rfl := Option.some.inj (ho.symm.trans hr)
        omega
      · exact hunique ρ ⟨hρ, hρb⟩

end

namespace Target

/-! ## Recording the slots -/

section
variable {t : Target} {l l' : Layout} {σs : List SavedSlot}

/-- Every slot of a row has an area. -/
theorem exists_addSlots (h : t.IsSavedRow σs) (l : Layout) :
    ∃ l', t.addSlots l σs = (l', none) := by
  induction σs generalizing l with
  | nil => exact ⟨l, rfl⟩
  | cons σ σs ih =>
    have hadd : ∃ m, t.addSlot l σ = some m := by
      rw [addSlot]
      rcases h.cases List.mem_cons_self with ⟨-, harea | harea⟩ | ⟨-, harea⟩
      · exact ⟨_, by rw [harea]⟩
      · exact ⟨_, by rw [harea]⟩
      · exact ⟨_, by rw [harea]⟩
    obtain ⟨m, hm⟩ := hadd
    obtain ⟨l', hl'⟩ := ih h.tail m
    refine ⟨l', ?_⟩
    rw [addSlots, hm]
    exact hl'

/-- The slot of the frame pointer is the one that is recorded for it. -/
theorem fpSpillIndex_addSlots (h : t.addSlots l σs = (l', none))
    (hnodup : (σs.map SavedSlot.reg).Nodup) {σ : SavedSlot} (hσ : σ ∈ σs)
    (hreg : σ.reg = t.framePointer) : l'.fpSpillIndex = σ.index := by
  obtain ⟨pre, post, rfl⟩ := List.append_of_mem hσ
  induction pre generalizing l with
  | nil =>
    rw [List.nil_append, addSlots] at h
    cases hadd : t.addSlot l σ with
    | none => simp [hadd] at h
    | some m =>
      simp only [hadd] at h
      have hm : m.fpSpillIndex = σ.index := by
        rw [addSlot] at hadd
        cases harea : σ.area
        case gpr1 | gpr2 | dpr =>
          simp only [harea, Option.some.injEq] at hadd
          rw [← hadd]
          exact if_pos hreg
        all_goals simp [harea] at hadd
      -- no other register of the row is the frame pointer
      obtain ⟨index, rfl, hindex⟩ := addSlots_facts h
      rcases hindex with hindex | ⟨τ, hτ, hτreg, -⟩
      · exact hindex.trans hm
      · obtain ⟨hother, -⟩ := List.nodup_cons.1 hnodup
        exact absurd (List.mem_map.2 ⟨τ, hτ, hτreg.trans hreg.symm⟩) hother
  | cons τ pre ih =>
    rw [List.cons_append, addSlots] at h
    cases hadd : t.addSlot l τ with
    | none => simp [hadd] at h
    | some m =>
      simp only [hadd] at h
      exact ih h (List.nodup_cons.1 hnodup).2 (List.mem_append_right _ List.mem_cons_self)

end

/-! ## Areas and their slots -/

/-- The areas of a layout and the slots that are recorded for them. Places are counted from the
bottom of the frame. -/
structure TilesAreas (t : Target) (q : Procedure) : Prop where
  inside : ∀ a bottom size, q.layout.areaOffset a = .ok bottom → q.layout.areaSize a = .ok size →
    ∀ σ ∈ inArea a q.frame.saved, ∀ b, q.Occupies σ b →
      bottom.toInt ≤ b ∧ b < bottom.toInt + size.toInt
  once : ∀ a bottom size, q.layout.areaOffset a = .ok bottom → q.layout.areaSize a = .ok size →
    ∀ b, bottom.toInt ≤ b → b < bottom.toInt + size.toInt →
      ∃! σ, σ ∈ inArea a q.frame.saved ∧ q.Occupies σ b
  bottom : 0 ≤ q.layout.dprOffset.toInt
  gpr2 : q.layout.dprOffset.toInt + q.layout.dprSize.toInt = q.layout.gpr2Offset.toInt
  gpr1 : q.layout.gpr2Offset.toInt + q.layout.gpr2Size.toInt = q.layout.gpr1Offset.toInt
  top : q.layout.gpr1Offset.toInt + q.layout.gpr1Size.toInt = q.frame.stackSize.toInt
  area : ∀ σ ∈ q.frame.saved, ∃ cs ∈ t.calleeSaved, cs.reg = σ.reg ∧ cs.area = σ.area ∧
    q.layout.area σ.index = cs.area
  pointer : ∀ σ ∈ q.frame.saved, σ.reg = t.framePointer →
    ∃ o, q.frame.object? σ.index = some o ∧
      q.layout.fpSpillOffset.toInt = o.offset.toInt + q.frame.stackSize.toInt ∧
      q.layout.gpr1Offset.toInt ≤ q.layout.fpSpillOffset.toInt ∧
      q.layout.fpSpillOffset.toInt + o.size.toInt ≤
        q.layout.gpr1Offset.toInt + q.layout.gpr1Size.toInt

section
variable {t : Target} {q : Procedure}

/-- The bytes of a row, area by area. -/
theorem IsSavedRow.savedBytes_eq {σs : List SavedSlot} (h : t.IsSavedRow σs) :
    savedBytes σs = savedBytes (inArea .gpr1 σs) + savedBytes (inArea .gpr2 σs) +
      savedBytes (inArea .dpr σs) := by
  conv => lhs; rw [h.eq_append, savedBytes_append, savedBytes_append]

/-- The areas of a frame that they fit in, in numbers. -/
theorem IsGrouped.toInt (h : t.IsGrouped q) (hrow : t.IsSavedRow q.frame.saved)
    (hfits : savedBytes q.frame.saved ≤ q.frame.stackSize.toInt) :
    (q.layout.gpr1Size.toInt = savedBytes (inArea .gpr1 q.frame.saved) ∧
      q.layout.gpr2Size.toInt = savedBytes (inArea .gpr2 q.frame.saved) ∧
      q.layout.dprSize.toInt = savedBytes (inArea .dpr q.frame.saved)) ∧
    q.layout.gpr1Offset.toInt =
      q.frame.stackSize.toInt - savedBytes (inArea .gpr1 q.frame.saved) ∧
    q.layout.gpr2Offset.toInt = q.layout.gpr1Offset.toInt -
      savedBytes (inArea .gpr2 q.frame.saved) ∧
    q.layout.dprOffset.toInt = q.layout.gpr2Offset.toInt -
      savedBytes (inArea .dpr q.frame.saved) := by
  obtain ⟨hb1, hb2, hb3, h1, h2, h3⟩ := hrow.savedBytes_inArea
  have hsum := hrow.savedBytes_eq
  have hs1 : q.layout.gpr1Size.toInt = savedBytes (inArea .gpr1 q.frame.saved) := by
    rw [h.gpr1, hb1]
    exact Int64.toInt_ofNat_of_lt (by omega)
  have hs2 : q.layout.gpr2Size.toInt = savedBytes (inArea .gpr2 q.frame.saved) := by
    rw [h.gpr2, hb2]
    exact Int64.toInt_ofNat_of_lt (by omega)
  have hs3 : q.layout.dprSize.toInt = savedBytes (inArea .dpr q.frame.saved) := by
    rw [h.dpr, hb3]
    exact Int64.toInt_ofNat_of_lt (by omega)
  have hsize : q.frame.stackSize.toInt < 2 ^ 63 := Int64.toInt_lt _
  have hsaved : q.layout.savedSize.toInt = savedBytes q.frame.saved := by
    rw [Layout.savedSize, toInt_add_of_range, toInt_add_of_range]
    all_goals try rw [toInt_add_of_range]
    all_goals omega
  have hd : q.layout.dprOffset.toInt = q.frame.stackSize.toInt - savedBytes q.frame.saved := by
    rw [h.dprOffset, toInt_sub_of_range, hsaved]
    all_goals omega
  have hg2 : q.layout.gpr2Offset.toInt = q.layout.dprOffset.toInt + q.layout.dprSize.toInt := by
    rw [h.gpr2Offset, toInt_add_of_range]
    all_goals omega
  have hg1 : q.layout.gpr1Offset.toInt = q.layout.gpr2Offset.toInt + q.layout.gpr2Size.toInt := by
    rw [h.gpr1Offset, toInt_add_of_range]
    all_goals omega
  refine ⟨⟨hs1, hs2, hs3⟩, ?_, ?_, ?_⟩
  all_goals omega

/-- Each area is the place of a row of slots. -/
theorem IsGrouped.row (h : t.IsGrouped q) (hrow : t.IsSavedRow q.frame.saved)
    (hfits : savedBytes q.frame.saved ≤ q.frame.stackSize.toInt)
    (htiles : q.frame.Tiles 0 q.frame.saved) {a : Area} {bottom size : Int64}
    (hbottom : q.layout.areaOffset a = .ok bottom) (hsize : q.layout.areaSize a = .ok size) :
    ∃ depth : Nat, q.frame.Tiles depth (inArea a q.frame.saved) ∧
      bottom.toInt =
        q.frame.stackSize.toInt - (depth + savedBytes (inArea a q.frame.saved) : Int) ∧
      bottom.toInt + size.toInt = q.frame.stackSize.toInt - depth := by
  obtain ⟨⟨hs1, hs2, hs3⟩, hg1, hg2, hd⟩ := h.toInt hrow hfits
  -- the convention lists its registers area by area, so the areas are stretches of the row
  rw [hrow.eq_append, Frame.tiles_append, Frame.tiles_append] at htiles
  obtain ⟨⟨ht1, ht2⟩, ht3⟩ := htiles
  rw [savedBytes_append] at ht3
  cases a
  case gpr1 =>
    obtain rfl := Except.ok.inj hbottom
    obtain rfl := Except.ok.inj hsize
    exact ⟨_, ht1, by omega, by omega⟩
  case gpr2 =>
    obtain rfl := Except.ok.inj hbottom
    obtain rfl := Except.ok.inj hsize
    exact ⟨_, ht2, by omega, by omega⟩
  case dpr =>
    obtain rfl := Except.ok.inj hbottom
    obtain rfl := Except.ok.inj hsize
    exact ⟨_, ht3, by omega, by omega⟩
  all_goals cases hbottom

/-- Slots that are packed below the stack pointer on entry fill the areas that are recorded. -/
theorem tilesAreas_of_isGrouped (h : t.IsGrouped q) (hrow : t.IsSavedRow q.frame.saved)
    (hfits : savedBytes q.frame.saved ≤ q.frame.stackSize.toInt)
    (htiles : q.frame.Tiles 0 q.frame.saved)
    (hpointer : ∀ σ ∈ q.frame.saved, σ.reg = t.framePointer →
      ∃ o, q.frame.object? σ.index = some o ∧
        q.layout.fpSpillOffset = o.offset + q.frame.stackSize) : t.TilesAreas q := by
  obtain ⟨⟨hs1, hs2, hs3⟩, hg1, hg2, hd⟩ := h.toInt hrow hfits
  have hsum := hrow.savedBytes_eq
  exact {
    inside := by
      intro a bottom size hbottom hsize σ hσ b hb
      obtain ⟨depth, htiles, hlo, hhi⟩ := h.row hrow hfits htiles hbottom hsize
      rw [hlo, ← hlo, hhi]
      have := htiles.inside hσ hb
      omega
    once := by
      intro a bottom size hbottom hsize b hlo hhi
      obtain ⟨depth, htiles, hlo', hhi'⟩ := h.row hrow hfits htiles hbottom hsize
      exact htiles.once (by omega) (by omega)
    bottom := by omega
    gpr2 := by omega
    gpr1 := by omega
    top := by omega
    area := by
      intro σ hσ
      obtain ⟨cs, hcs, hreg, harea⟩ := hrow.mem σ hσ
      exact ⟨cs, hcs, hreg, harea, (h.area σ hσ).trans harea.symm⟩
    pointer := by
      intro σ hσ hreg
      obtain ⟨o, ho, hoffset⟩ := hpointer σ hσ hreg
      refine ⟨o, ho, ?_⟩
      -- the frame pointer is saved in the first area
      have hfirst : σ ∈ inArea .gpr1 q.frame.saved := by
        refine mem_inArea.2 ⟨hσ, ?_⟩
        rw [hrow.area hσ, hreg]
        exact t.abi.area_framePointer
      obtain ⟨ht1, -⟩ := Frame.tiles_append.1 (hrow.eq_append ▸ htiles)
      obtain ⟨r, hr, hsize, hlo, hhi⟩ := (Frame.tiles_append.1 ht1).1.mem hfirst
      obtain rfl := Option.some.inj (ho.symm.trans hr)
      have hmax : q.frame.stackSize.toInt < 2 ^ 63 := Int64.toInt_lt _
      have hplace : q.layout.fpSpillOffset.toInt = o.offset.toInt + q.frame.stackSize.toInt := by
        rw [hoffset, toInt_add_of_range]
        all_goals omega
      omega }

end

/-! ## The layout of a function -/

/-- The size of the areas together, as it is recorded. -/
theorem savedSize_eq {t : Target} {σs : List SavedSlot} {l : Layout} (hrow : t.IsSavedRow σs)
    (h1 : l.gpr1Size = 0 + Int64.ofNat (4 * (inArea .gpr1 σs).length))
    (h2 : l.gpr2Size = 0 + Int64.ofNat (4 * (inArea .gpr2 σs).length))
    (h3 : l.dprSize = 0 + Int64.ofNat (8 * (inArea .dpr σs).length)) :
    l.savedSize = Int64.ofNat (savedBytes σs) := by
  obtain ⟨hb1, hb2, hb3, -⟩ := hrow.savedBytes_inArea
  rw [Layout.savedSize, h1, h2, h3, Int64.zero_add, Int64.zero_add, Int64.zero_add,
    ← Int64.ofNat_add, ← Int64.ofNat_add, ← hb1, ← hb2, ← hb3, ← hrow.savedBytes_eq]

/-- The slot of the frame pointer is found by its index. -/
theorem locatePointer_of_slot {t : Target} {q : Procedure} {o : FrameObject}
    (hindex : q.layout.fpSpillIndex ≠ noIndex)
    (ho : q.frame.object? q.layout.fpSpillIndex = some o) :
    t.locatePointer q = .ok () { q with layout := { q.layout with
      fpSpillOffset := o.offset + q.frame.stackSize } } := by
  rw [locatePointer, if_pos hindex, Frame.objectOffset, ho]

/-- Without a slot there is nothing to find, which is an error if the frame pointer is set up. -/
theorem locatePointer_of_noIndex {t : Target} {q : Procedure}
    (hindex : q.layout.fpSpillIndex = noIndex) :
    t.locatePointer q = if t.setsPointer q then
      .error (.error (.pointerNotSpilled q.name t.framePointer)) q else .ok () q := by
  rw [locatePointer, if_neg (not_not.2 hindex)]
  rfl

/-- What comes of grouping the slots of a function with a stack frame: the areas do not fit in the
frame, or the frame pointer is set up and has no slot, or they are recorded and so is the slot of
the frame pointer if it has one. -/
theorem computeLayout_cases {t : Target} {q : Procedure} (hframe : q.layout.hasStackFrame)
    (hrow : t.IsSavedRow q.frame.saved)
    (hslots : ∀ σ ∈ q.frame.saved, σ.index ≠ noIndex ∧ ∃ o, q.frame.object? σ.index = some o) :
    (q.frame.stackSize.toInt < savedBytes q.frame.saved ∧ ∃ r, t.computeLayout q =
      .error (.error (.areasTooLarge q.name (Int64.ofNat (savedBytes q.frame.saved))
        q.frame.stackSize)) r) ∨
    savedBytes q.frame.saved ≤ q.frame.stackSize.toInt ∧
      (((∀ σ ∈ q.frame.saved, σ.reg ≠ t.framePointer) ∧ t.setsPointer q ∧ ∃ r,
        t.computeLayout q = .error (.error (.pointerNotSpilled q.name t.framePointer)) r) ∨
      (t.setsPointer q → ∃ σ ∈ q.frame.saved, σ.reg = t.framePointer) ∧
        ∃ r, t.computeLayout q = .ok () r ∧ ∀ σ ∈ q.frame.saved, σ.reg = t.framePointer →
          ∃ o, q.frame.object? σ.index = some o ∧
            r.layout.fpSpillOffset = o.offset + q.frame.stackSize) := by
  have hbytes := hrow.savedBytes_le
  have hlarge : (Int64.ofNat (savedBytes q.frame.saved)).toInt = savedBytes q.frame.saved :=
    Int64.toInt_ofNat_of_lt (by omega)
  obtain ⟨l, hadd⟩ := exists_addSlots hrow q.layout.clearAreas
  have hpointer {σ : SavedSlot} := fpSpillIndex_addSlots (σ := σ) hadd hrow.nodup
  obtain ⟨index, hl, hindex⟩ := addSlots_facts hadd
  have hsize : l.savedSize = Int64.ofNat (savedBytes q.frame.saved) := by
    rw [hl]
    exact savedSize_eq hrow rfl rfl rfl
  have hindex' : l.fpSpillIndex = index := by rw [hl]
  have hcompute : t.computeLayout q = if q.frame.stackSize < l.savedSize then
      .error (.error (.areasTooLarge q.name l.savedSize q.frame.stackSize)) { q with layout := l }
      else t.locatePointer { q with layout := l.stackAreas q.frame.stackSize } := by
    rw [computeLayout, if_neg (by simp [hframe]), hadd]
  have hsets : t.setsPointer { q with layout := l.stackAreas q.frame.stackSize } =
      t.setsPointer q := by
    rw [hl]
    rfl
  rw [hcompute, hsize]
  split
  · next hsmall =>
    rw [Int64.lt_iff_toInt_lt, hlarge] at hsmall
    exact .inl ⟨hsmall, _, rfl⟩
  next hfits =>
  rw [Int64.lt_iff_toInt_lt, hlarge, not_lt] at hfits
  refine .inr ⟨hfits, ?_⟩
  -- whether the frame pointer is set up does not matter if it has a slot
  by_cases hslot : ∃ σ ∈ q.frame.saved, σ.reg = t.framePointer
  · obtain ⟨σ, hσ, hreg⟩ := hslot
    obtain ⟨hne, o, ho⟩ := hslots σ hσ
    have hσi := hpointer hσ hreg
    refine .inr ⟨fun _ => ⟨σ, hσ, hreg⟩, ?_⟩
    have hlocate := locatePointer_of_slot (t := t) (o := o)
      (q := { q with layout := l.stackAreas q.frame.stackSize }) (hσi.trans_ne hne) (hσi ▸ ho)
    refine ⟨_, hlocate, ?_⟩
    intro τ hτ hτreg
    have hτi : τ.index = σ.index := (hpointer hτ hτreg).symm.trans hσi
    exact ⟨o, hτi ▸ ho, rfl⟩
  · have hnone : ∀ σ ∈ q.frame.saved, σ.reg ≠ t.framePointer := by
      intro σ hσ hreg
      exact hslot ⟨σ, hσ, hreg⟩
    have hno : l.fpSpillIndex = noIndex := by
      rcases hindex with hindex | ⟨σ, hσ, hreg, -⟩
      · exact hindex'.trans hindex
      · exact absurd hreg (hnone σ hσ)
    rw [locatePointer_of_noIndex (q := { q with layout := l.stackAreas q.frame.stackSize }) hno,
      hsets]
    split
    · next hset => exact .inl ⟨hnone, hset, _, rfl⟩
    · next hset =>
      refine .inr ⟨fun h => absurd h hset, _, rfl, ?_⟩
      intro σ hσ hreg
      exact absurd hreg (hnone σ hσ)

section
variable {t : Target} {p : Procedure} {scavenger : Bool}

/-- Whether the frame pointer is set up is decided before anything is placed. -/
theorem setsPointer_placeFrame (t : Target) (scavenger : Bool)
    (hp : p.layout.hasStackFrame = false) :
    t.setsPointer (t.placeFrame (t.assignSlots (t.finalizeSpillSet scavenger p))) =
      t.setsPointer p := by
  obtain ⟨⟨spilled, hasStackFrame, farJump, hlayout⟩, -⟩ :=
    layout_finalizeSpillSet t scavenger hp
  obtain ⟨objects, fixed, stackSize, hplaced⟩ :=
    t.placeFrame_frame (t.assignSlots (t.finalizeSpillSet scavenger p))
  have hflags : (t.finalizeSpillSet scavenger p).frame.hasVarSized = p.frame.hasVarSized ∧
      (t.finalizeSpillSet scavenger p).frame.addressTaken = p.frame.addressTaken := by
    obtain ⟨objects, scavengingIndex, hframe⟩ := t.frame_finalizeSpillSet scavenger p
    rw [hframe]
    exact ⟨rfl, rfl⟩
  rw [setsPointer, setsPointer, hasPointer, hasPointer, needsPointer, needsPointer, hplaced]
  show (_ || if (t.finalizeSpillSet scavenger p).layout.framePointer ≠ .noreg then
    (t.finalizeSpillSet scavenger p).layout.hasFramePointer else _ ||
    (t.finalizeSpillSet scavenger p).frame.hasVarSized ||
    (t.finalizeSpillSet scavenger p).frame.addressTaken) = _
  rw [hlayout, hflags.1, hflags.2]

/-- A frame whose sums are in range has room for the saved registers. -/
theorem savedBytes_le_stackSize (hshaped : p.frame.IsShaped)
    (harguments : 0 ≤ p.frame.maxCallFrameSize.toInt) (hfixed : ∀ o ∈ p.frame.fixed, 0 ≤ o.offset)
    (hsums : t.SumsInRange (t.assignSlots (t.finalizeSpillSet scavenger p))) :
    savedBytes (t.savedSlots (t.finalizeSpillSet scavenger p)) ≤ (t.placeFrame
      (t.assignSlots (t.finalizeSpillSet scavenger p))).frame.stackSize.toInt := by
  have hbytes := savedBytes_savedSlots_le (t := t) (p := t.finalizeSpillSet scavenger p)
  obtain ⟨hfixeds, hmax⟩ := t.fixed_finalizeSpillSet scavenger p
  generalize hc : t.finalizeSpillSet scavenger p = c at *
  have hshape : ∀ j o, (t.assignSlots c).frame.object? j = some o →
      Frame.isShape o.size o.align := by
    intro j o ho
    rw [← hc] at ho
    exact forall_object_finalizeSpillSet (P := fun o => Frame.isShape o.size o.align)
      hshaped.objects hshaped.fixed (by decide) t.isShape_slotFor ho
  -- the slots are placed first, and what is placed after them only adds to the depth
  have hpacked : (packedPlacement (t.assignSlots c)).depth.toInt = savedBytes (t.savedSlots c) :=
    depth_packed_of_fixed hsums.count (hfixeds ▸ hfixed)
  have hmoves := moves_packedPlacement (t.assignSlots c)
  have hdepth := Placement.depth_le_foldl_place hmoves hshape hsums.placed (by omega)
  have hpower : IsPower (t.placeObjects (t.assignSlots c)).maxAlign :=
    (allAlign_placeObjects ⟨0, rfl⟩ fun j o ho => isPower_of_isShape (hshape j o ho)).align
  rw [← placeObjects_eq, hpacked] at hdepth
  have := (le_stackSize_of_depth (hmax.symm ▸ harguments) hpower (by omega) hsums).1
  omega

/-- A function with a stack frame gets a layout in which the slots of saved registers fill the
areas, unless the frame pointer is to be set up and the convention does not preserve it, or a sum of
sizes has wrapped around so that the frame is too small for the areas. -/
theorem computeLayout_outcome (t : Target) (scavenger : Bool) {p : Procedure}
    (hp : p.IsUnplanned) (hshaped : p.frame.IsShaped)
    (harguments : 0 ≤ p.frame.maxCallFrameSize.toInt) (hfixed : ∀ o ∈ p.frame.fixed, 0 ≤ o.offset)
    (hcount : (t.assignSlots (t.finalizeSpillSet scavenger p)).frame.objects.length < 2 ^ 63) :
    let q := t.placeFrame (t.assignSlots (t.finalizeSpillSet scavenger p))
    q.layout.hasStackFrame →
    (∃ r, t.computeLayout q = .ok () r ∧ t.TilesAreas r ∧
      (t.setsPointer p → t.isCalleeSaved t.framePointer)) ∨
    (∃ r, t.computeLayout q = .error (.error (.pointerNotSpilled q.name t.framePointer)) r ∧
      t.setsPointer p ∧ ¬ t.isCalleeSaved t.framePointer) ∨
    ∃ r, t.computeLayout q = .error (.error (.areasTooLarge q.name
        (Int64.ofNat (savedBytes q.frame.saved)) q.frame.stackSize)) r ∧
      ¬ t.SumsInRange (t.assignSlots (t.finalizeSpillSet scavenger p)) := by
  intro q hframe
  obtain ⟨⟨spilled, hasStackFrame, farJump, hlayout⟩, hpointer⟩ :=
    layout_finalizeSpillSet t scavenger hp.unframed
  have hsets : t.setsPointer q = t.setsPointer p := setsPointer_placeFrame t scavenger hp.unframed
  have hsaved : q.frame.saved = t.savedSlots (t.finalizeSpillSet scavenger p) :=
    t.saved_placeFrame (t.finalizeSpillSet scavenger p)
  have htiles : q.frame.Tiles 0 q.frame.saved := by
    rw [hsaved]
    exact tiles_of_isUnplanned hp hfixed hcount
  have hrow : t.IsSavedRow q.frame.saved := by
    rw [hsaved]
    exact isSavedRow_savedSlots
  have hslots : ∀ σ ∈ q.frame.saved, σ.index ≠ noIndex ∧ ∃ o, q.frame.object? σ.index = some o := by
    intro σ hσ
    obtain ⟨o, ho, -⟩ := htiles.mem hσ
    rw [hsaved] at hσ
    exact ⟨index_ne_noIndex hcount hσ, o, ho⟩
  -- the frame pointer has a slot if it is spilled and preserved
  have hlisted : t.setsPointer p → t.isCalleeSaved t.framePointer →
      ∃ σ ∈ q.frame.saved, σ.reg = t.framePointer := by
    intro hset hcs
    rw [hsaved]
    exact exists_slot_of_isSpilled hcs (hpointer hframe hset)
  rcases computeLayout_cases hframe hrow hslots with ⟨hsmall, r, hr⟩ |
    ⟨hfits, ⟨hnone, hset, r, hr⟩ | ⟨hslot, r, hr, hoffset⟩⟩
  · refine .inr (.inr ⟨r, hr, ?_⟩)
    intro hsums
    have := savedBytes_le_stackSize hshaped harguments hfixed hsums
    rw [hsaved] at hsmall
    exact absurd hsmall (not_lt.2 this)
  · refine .inr (.inl ⟨r, hr, hsets ▸ hset, ?_⟩)
    intro hcs
    obtain ⟨σ, hσ, hreg⟩ := hlisted (hsets ▸ hset) hcs
    exact hnone σ hσ hreg
  · left
    have hareas : q.layout.areas = [] := by
      show (t.finalizeSpillSet scavenger p).layout.areas = []
      rw [hlayout]
      exact hp.areas
    have hnodup : (q.frame.saved.map SavedSlot.index).Nodup := by
      rw [hsaved]
      exact nodup_index_of_length hcount
    obtain ⟨⟨layout, rfl, -⟩, hgrouped, -⟩ := computeLayout_facts hr hareas hnodup
    refine ⟨_, hr, tilesAreas_of_isGrouped (hgrouped hframe) hrow hfits htiles hoffset, ?_⟩
    intro hset
    obtain ⟨σ, hσ, hreg⟩ := hslot (hsets ▸ hset)
    obtain ⟨cs, hcs, hcsreg, -⟩ := hrow.mem σ hσ
    rw [← hreg, ← hcsreg]
    exact isCalleeSaved_of_mem hcs

end

/-- A function that uses registers of all three areas. -/
def usesAreas : FunctionDesc where
  name := "f"
  used := ["r4", "r8", "d8"]
  objects := [{ size := 5, align := 16 }, { size := 4, fixed := true, offset := 4 }]
  blocks := [{ insts := ["BX_RET cc:al, noreg"] }]

/-- What becomes of it. -/
def areasFunction : Described where
  abi := none
  proc := {
    name := "f"
    blocks := [{ lines := Line.number 0 [.make .bxRet [.cond .al, .use .noreg]] }]
    frame := {
      objects := [{ size := 5, align := 16 }]
      fixed := [{ size := 4, align := 4, fixed := true, offset := 4 }] }
    regs := ((({} : RegTable).use (.core 4)).use (.core 8)).use (.double 8)
    fresh := 1 }

theorem sumsInRange_areasFunction : darwinDefault.SumsInRange
    (darwinDefault.assignSlots (darwinDefault.finalizeSpillSet true areasFunction.proc)) := by
  decide +kernel

/-- Its slots fill three areas, with the frame pointer in the first. -/
theorem computeLayout_outcome_usesAreas :
    usesAreas.build = .ok areasFunction ∧
      ∃ r, darwinDefault.computeLayout (darwinDefault.placeFrame (darwinDefault.assignSlots
        (darwinDefault.finalizeSpillSet true areasFunction.proc))) = .ok () r ∧
        darwinDefault.TilesAreas r := by
  have hbuild : usesAreas.build = .ok areasFunction := by decide +kernel
  have hunplanned := FunctionDesc.isUnplanned_of_build hbuild
  have hshaped := (FunctionDesc.facts_of_build hbuild).1
  refine ⟨hbuild, ?_⟩
  rcases computeLayout_outcome darwinDefault true hunplanned hshaped (by decide) (by decide)
      (by decide +kernel) (by decide +kernel) with ⟨r, hr, htiles, -⟩ | ⟨_, -, -, hlisted⟩ |
      ⟨_, -, hwraps⟩
  · exact ⟨r, hr, htiles⟩
  · exact absurd (by decide) hlisted
  · exact absurd sumsInRange_areasFunction hwraps

/-- A function with two objects whose sizes wrap around together. -/
def wrapsAround : FunctionDesc where
  name := "f"
  used := ["r4"]
  objects := [{ size := 9223372036854775807, align := 1 },
    { size := 9223372036854775805, align := 1 }]
  blocks := [{ insts := ["BX_RET cc:al, noreg"] }]

/-- What becomes of it. -/
def wrappedFunction : Described where
  abi := none
  proc := {
    name := "f"
    blocks := [{ lines := Line.number 0 [.make .bxRet [.cond .al, .use .noreg]] }]
    frame := {
      objects := [{ size := 9223372036854775807, align := 1 },
        { size := 9223372036854775805, align := 1 }] }
    regs := ({} : RegTable).use (.core 4)
    fresh := 1 }

/-- The function with its slots and objects placed. -/
def wrappedFrame : Procedure :=
  plainDefault.placeFrame
    (plainDefault.assignSlots (plainDefault.finalizeSpillSet true wrappedFunction.proc))

/-- The frame has four bytes then, and the areas have eight, so that there is no layout although
the frame pointer is preserved. -/
theorem areasTooLarge_wrapped : wrapsAround.build = .ok wrappedFunction ∧
    wrappedFunction.proc.frame.fixed = [] ∧
    plainDefault.isCalleeSaved plainDefault.framePointer ∧ wrappedFrame.layout.hasStackFrame ∧
    ∃ r, plainDefault.computeLayout wrappedFrame = .error (.error (.areasTooLarge "f" 8 4)) r := by
  have hframe : wrappedFrame.layout.hasStackFrame := by decide +kernel
  have hbytes : savedBytes wrappedFrame.frame.saved = 8 := by decide +kernel
  have hsize : wrappedFrame.frame.stackSize = 4 := by decide +kernel
  have hslots : ∀ σ ∈ wrappedFrame.frame.saved,
      σ.index ≠ noIndex ∧ ∃ o, wrappedFrame.frame.object? σ.index = some o := by
    simp only [← Option.isSome_iff_exists]
    decide +kernel
  have hrow : plainDefault.IsSavedRow wrappedFrame.frame.saved := by
    rw [wrappedFrame, saved_placeFrame]
    exact isSavedRow_savedSlots
  refine ⟨by decide +kernel, rfl, by decide, hframe, ?_⟩
  rcases computeLayout_cases hframe hrow hslots with ⟨-, r, hr⟩ | ⟨hfits, -⟩
  · rw [hbytes, hsize] at hr
    exact ⟨r, hr⟩
  · rw [hbytes, hsize] at hfits
    exact absurd hfits (by decide)

end Target

end FrameLowering
