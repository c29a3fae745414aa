import FrameLowering.Proofs.InsertedCode

/-!
# Accesses to callee-saved areas

Prologue and epilogue access the slots of saved registers while the stack pointer is at the
bottom of their area. The areas are so small that every offset from there fits in the
immediate of the access (`HasAreas.small`), so that no scratch register is needed and the
access finds its slot (`HasAreas.finds`).
-/

namespace FrameLowering
open ImmediateField (word)

theorem ImmediateField.split_of_fits {f : ImmediateField} {v : Int64}
    (h : magnitude v ≤ f.maxOffset) : (f.split v).2 = 0 := by
  rw [split, if_pos h]

/-- An offset that the immediate of a load or store can hold, with the opcode for its sign, is
folded in whole. -/
theorem Inst.foldMemory_of_fits {i : Inst} {position : Nat} {base : Reg} {v u : Int64}
    (hfold : i.info.family.isFoldable) (hposition : i.info.family.field.position = some position)
    (hu : i.operands[1 + position]? = some (.imm u))
    (hdecode : i.info.family.field.decode u = 0) (hscale : v % i.info.family.field.scale = 0)
    (hkind : (i.orient v).info.family.field.kind ≠ .absent)
    (hsign : (i.orient v).info.family.field.kind = .unsigned → ¬ v < 0)
    (hmax : ImmediateField.magnitude v ≤ (i.orient v).info.family.field.maxOffset) :
    (i.foldMemory 1 base v).rest = .ok 0 := by
  have hsplit := ImmediateField.split_of_fits hmax
  have hinfo : ((i.orient v).setOperand 1 (.use base)).info = (i.orient v).info := rfl
  simp only [foldMemory, hfold, hposition, hu, hdecode, Int64.add_zero, ne_eq, hscale,
    not_true_eq_false, if_false, foldOffset, hinfo]
  cases hk : (i.orient v).info.family.field.kind with
  | absent => exact absurd hk hkind
  | unsigned => simp only [if_neg (hsign hk), hsplit]
  | _ => simp only [hsplit]

/-- Offsets that any access to a slot can take. -/
def IsSmallOffset (v : Int64) : Prop :=
  ∃ n < 16, v = Int64.ofNat (4 * n)

theorem IsSmallOffset.toInt {v : Int64} (h : IsSmallOffset v) :
    0 ≤ v.toInt ∧ v.toInt ≤ 60 ∧ v % 4 = 0 ∧ v % 1 = 0 := by
  obtain ⟨n, hn, rfl⟩ := h
  rw [Int64.toInt_ofNat_of_lt (by omega)]
  have hmod (m : Int64) (k : Int) (hm : m.toInt = k) (hk : (4 * n : Int).tmod k = 0) :
      Int64.ofNat (4 * n) % m = 0 := by
    apply Int64.toInt_inj.1
    rw [Int64.toInt_mod, Int64.toInt_ofNat_of_lt (by omega), hm]
    exact_mod_cast hk
  refine ⟨by omega, by omega, hmod 4 4 rfl ?_, hmod 1 1 rfl ?_⟩
  · exact Int.mul_tmod_right 4 n
  · exact Int.tmod_one _

/-- Every load and store that can access a slot takes small offsets. -/
theorem Inst.foldMemory_of_small {i : Inst} {position : Nat} {base : Reg} {v : Int64}
    (hfamily : i.info.family = .mode2 ∨ i.info.family = .mode5 ∨ i.info.family = .t2i12)
    (hposition : i.info.family.field.position = some position)
    (hzero : i.operands[1 + position]? = some (.imm 0)) (hv : IsSmallOffset v) :
    (i.foldMemory 1 base v).rest = .ok 0 := by
  obtain ⟨hlo, hhi, hfour, hone⟩ := hv.toInt
  have hnonneg : ¬ v < 0 := by
    rw [Int64.lt_iff_toInt_lt, Int64.toInt_zero]
    omega
  have horient : i.orient v = i := by
    rw [orient, decide_eq_false hnonneg, Bool.false_and, if_neg Bool.false_ne_true]
  have hmag : ImmediateField.magnitude v = v := by
    rw [ImmediateField.magnitude, if_neg hnonneg]
  have hfacts : i.info.family.isFoldable ∧ i.info.family.field.decode 0 = 0 ∧
      v % i.info.family.field.scale = 0 ∧ i.info.family.field.kind ≠ .absent ∧
      60 ≤ i.info.family.field.maxOffset.toInt := by
    rcases hfamily with h | h | h
    · rw [h]
      exact ⟨rfl, by decide, hone, by decide, by decide⟩
    · rw [h]
      exact ⟨rfl, by decide, hfour, by decide, by decide⟩
    · rw [h]
      exact ⟨rfl, by decide, hone, by decide, by decide⟩
  obtain ⟨hfold, hdecode, hscale, hkind, hmax⟩ := hfacts
  refine foldMemory_of_fits hfold hposition hzero hdecode hscale ?_ (fun _ => hnonneg) ?_
  · rw [horient]
    exact hkind
  · rw [horient, hmag, Int64.le_iff_toInt_le]
    omega

namespace Target

section
variable {t : Target} {w : WideSet} {r b : Reg} {index v : Int64}

theorem fold_of_small {i : Inst} {position : Nat}
    (hfamily : i.info.family = .mode2 ∨ i.info.family = .mode5 ∨ i.info.family = .t2i12)
    (hposition : i.info.family.field.position = some position)
    (hzero : i.operands[1 + position]? = some (.imm 0)) (hv : IsSmallOffset v) :
    (t.fold w i 1 ⟨b, v⟩).rest = .ok 0 := by
  have hne : i.op ≠ w.add := by
    intro hop
    rw [Inst.info, hop] at hfamily
    revert hfamily
    cases w <;> decide
  rw [fold, if_neg hne]
  exact Inst.foldMemory_of_small hfamily hposition hzero hv

theorem fold_storeToSlot (hr : r.HasSlot) (hv : IsSmallOffset v) :
    (t.fold w (w.set.storeToSlot r index) 1 ⟨b, v⟩).rest = .ok 0 := by
  rcases hr with ⟨n, rfl⟩ | ⟨n, rfl⟩
  · cases w
    · exact fold_of_small (.inl rfl) rfl rfl hv
    · exact fold_of_small (.inr (.inr rfl)) rfl rfl hv
  · cases w <;> exact fold_of_small (.inr (.inl rfl)) rfl rfl hv

theorem fold_loadFromSlot (hr : r.HasSlot) (hv : IsSmallOffset v) :
    (t.fold w (w.set.loadFromSlot r index) 1 ⟨b, v⟩).rest = .ok 0 := by
  rcases hr with ⟨n, rfl⟩ | ⟨n, rfl⟩
  · cases w
    · exact fold_of_small (.inl rfl) rfl rfl hv
    · exact fold_of_small (.inr (.inr rfl)) rfl rfl hv
  · cases w <;> exact fold_of_small (.inr (.inl rfl)) rfl rfl hv

theorem fold_pointAtSaved {p : Procedure} (hv : IsSmallOffset v) :
    (t.fold w (t.pointAtSaved w p) 1 ⟨b, v⟩).rest = .ok 0 := by
  have hop : (t.pointAtSaved w p).op = w.add := rfl
  have himm : (t.pointAtSaved w p).operands[1 + 1]? = some (.imm 0) := by
    cases w <;> rfl
  obtain ⟨hlo, hhi, -⟩ := hv.toInt
  have hmag : ImmediateField.magnitude v = v := by
    rw [ImmediateField.magnitude, if_neg]
    rw [Int64.lt_iff_toInt_lt, Int64.toInt_zero]
    omega
  have hmax : ¬ maxWord < v := by
    have hword : maxWord.toInt = 2 ^ 32 - 1 := rfl
    rw [Int64.lt_iff_toInt_lt]
    omega
  have hencodable : RotatedImmediate.isEncodable (word v) := by
    obtain ⟨n, hn, rfl⟩ := hv
    revert n
    decide
  rw [fold, if_pos hop, WideSet.foldAdd, himm]
  simp only [Int64.add_zero, hmag, if_neg hmax, if_pos hencodable]
  split <;> rfl
end

end Target

namespace Frame

/-- Slots of saved registers are at multiples of four bytes. -/
theorem Tiles.dvd {f : Frame} {depth : Nat} {σs : List SavedSlot} {σ : SavedSlot} {o : FrameObject}
    (h : f.Tiles depth σs) (hdepth : 4 ∣ depth) (hσ : σ ∈ σs) (ho : f.object? σ.index = some o) :
    (4 : Int) ∣ o.offset.toInt := by
  induction σs generalizing depth with
  | nil => exact absurd hσ List.not_mem_nil
  | cons τ σs ih =>
    obtain ⟨⟨q, hq, -, hoffset⟩, hrest⟩ := h
    rcases List.mem_cons.1 hσ with rfl | hσ
    · obtain rfl := Option.some.inj (ho.symm.trans hq)
      rw [hoffset, SavedSlot.bytes]
      omega
    · refine ih hrest ?_ hσ
      rw [SavedSlot.bytes]
      omega

end Frame

/-- The stack pointer is at the bottom of an area. -/
def Procedure.AtArea (p : Procedure) (entry : State) (a : Area) (s : State) : Prop :=
  ∀ bottom, p.layout.areaOffset a = .ok bottom →
    s.sp = entry.sp - word p.frame.varArgsSaveSize - word p.frame.stackSize + word bottom

namespace Target

/-- The slots of saved registers are in a row and grouped into areas. -/
structure HasAreas (t : Target) (p : Procedure) : Prop where
  row : t.IsSavedRow p.frame.saved
  tiles : p.frame.Tiles 0 p.frame.saved
  grouped : t.IsGrouped p

section
variable {t : Target} {w : WideSet} {p : Procedure} {σ : SavedSlot} {o : FrameObject} {a : Address}
  {entry s : State}

/-- The address of a slot is measured from the bottom of its area. -/
theorem IsGrouped.address_eq (h : t.IsGrouped p) (hrow : t.IsSavedRow p.frame.saved)
    (hσ : σ ∈ p.frame.saved) (ha : t.address p σ.index o 0 = .ok a) :
    ∃ bottom, p.layout.areaOffset σ.area = .ok bottom ∧
      a = ⟨Reg.sp, o.offset + p.frame.stackSize - bottom⟩ := by
  have harea : σ.area ≠ .outside := by
    rcases hrow.cases hσ with ⟨-, hgpr | hgpr⟩ | ⟨-, hdpr⟩
    · simp [hgpr]
    · simp [hgpr]
    · simp [hdpr]
  rw [address, h.area σ hσ] at ha
  simp only [ne_eq, harea, not_false_eq_true, if_true, Int64.add_zero] at ha
  cases hbottom : p.layout.areaOffset σ.area with
  | error f => simp [hbottom] at ha
  | ok bottom =>
    simp only [hbottom] at ha
    exact ⟨bottom, rfl, (Except.ok.inj ha).symm⟩

/-- A slot that is at most 64 bytes above the bottom of its area. -/
theorem isSmallOffset_of_tile {v : Int64} (top : Nat) (hv : v = o.offset + Int64.ofNat top)
    (htop : top ≤ 136) (hdvd : 4 ∣ top) (hoffset : (4 : Int) ∣ o.offset.toInt)
    (hlo : -(top : Int) ≤ o.offset.toInt) (hhi : o.offset.toInt + top ≤ 60) : IsSmallOffset v := by
  have hint : v.toInt = o.offset.toInt + top := by
    have htopInt := Int64.toInt_ofNat_of_lt (n := top) (by omega)
    rw [hv, toInt_add_of_range (by omega) (by omega), htopInt]
  refine ⟨(o.offset.toInt + top).toNat / 4, by omega, Int64.toInt_inj.1 ?_⟩
  rw [hint, Int64.toInt_ofNat_of_lt (by omega)]
  omega

/-- Offset of a slot from the bottom of its area. -/
theorem HasAreas.small (h : t.HasAreas p) (hσ : σ ∈ p.frame.saved)
    (ho : p.frame.object? σ.index = some o) (ha : t.address p σ.index o 0 = .ok a) :
    IsSmallOffset a.offset := by
  obtain ⟨bottom, hbottom, rfl⟩ := h.grouped.address_eq h.row hσ ha
  have hdvd := h.tiles.dvd ⟨0, rfl⟩ hσ ho
  obtain ⟨hb1, hb2, hb3, hlen1, hlen2, hlen3⟩ := h.row.savedBytes_inArea
  have htiles := h.tiles
  rw [h.row.eq_append, Frame.tiles_append, Frame.tiles_append, savedBytes_append] at htiles
  obtain ⟨⟨htile1, htile2⟩, htile3⟩ := htiles
  have hbytes := h.row.bytes hσ
  obtain ⟨hg1, hg2, hg3, hoff3, hoff2, hoff1, -, -⟩ := h.grouped
  rw [Layout.savedSize] at hoff3
  -- each area lies below the ones that were placed before it
  rcases h.row.cases hσ with ⟨-, harea | harea⟩ | ⟨-, harea⟩
  · obtain ⟨q, hq, -, hlo, hhi⟩ := htile1.mem (mem_inArea.2 ⟨hσ, harea⟩)
    obtain rfl := Option.some.inj (ho.symm.trans hq)
    rw [harea] at hbottom hbytes
    obtain rfl := Except.ok.inj hbottom
    refine isSmallOffset_of_tile (4 * (inArea .gpr1 p.frame.saved).length) ?_ ?_ ?_ hdvd ?_ ?_
    · rw [hoff1, hoff2, hoff3, ← hg1]
      grind
    all_goals simp at hbytes; omega
  · obtain ⟨q, hq, -, hlo, hhi⟩ := htile2.mem (mem_inArea.2 ⟨hσ, harea⟩)
    obtain rfl := Option.some.inj (ho.symm.trans hq)
    rw [harea] at hbottom hbytes
    obtain rfl := Except.ok.inj hbottom
    refine isSmallOffset_of_tile (4 * (inArea .gpr1 p.frame.saved).length +
      4 * (inArea .gpr2 p.frame.saved).length) ?_ ?_ ?_ hdvd ?_ ?_
    · rw [hoff2, hoff3, Int64.ofNat_add, ← hg1, ← hg2]
      grind
    all_goals simp at hbytes; omega
  · obtain ⟨q, hq, -, hlo, hhi⟩ := htile3.mem (mem_inArea.2 ⟨hσ, harea⟩)
    obtain rfl := Option.some.inj (ho.symm.trans hq)
    rw [harea] at hbottom hbytes
    obtain rfl := Except.ok.inj hbottom
    refine isSmallOffset_of_tile (4 * (inArea .gpr1 p.frame.saved).length +
      4 * (inArea .gpr2 p.frame.saved).length + 8 * (inArea .dpr p.frame.saved).length)
      ?_ ?_ ?_ hdvd ?_ ?_
    · rw [hoff3, Int64.ofNat_add, Int64.ofNat_add, ← hg1, ← hg2, ← hg3]
      grind
    all_goals simp at hbytes; omega

/-- With the stack pointer at the bottom of its area a slot is found. -/
theorem HasAreas.finds (h : t.HasAreas p) (hσ : σ ∈ p.frame.saved)
    (hs : p.AtArea entry σ.area s) : t.Finds p entry 0 σ.index s := by
  intro o a ho ha
  obtain ⟨bottom, hbottom, rfl⟩ := h.grouped.address_eq h.row hσ ha
  show s.sp + _ = _
  rw [hs bottom hbottom, ImmediateField.word_sub, ImmediateField.word_add, Procedure.home]
  bv_omega

/-- Nothing is left of an offset that is known to be folded in whole. -/
theorem rest_of_offset {block : Nat} {i : Inst} {r : Rebased} {index spAdj : Int64}
    {fits : Int64 → Prop} (hplace : i.frameIndexAt = some 1)
    (hindex : i.operands[1]? = some (.frameIndex index))
    (hfits : ∀ o a, p.frame.object? index = some o → t.address p index o spAdj = .ok a →
      fits a.offset)
    (hfold : ∀ b v, fits v → (t.fold w i 1 ⟨b, v⟩).rest = .ok 0)
    (hr : t.rebase w p block i spAdj = .ok r) : r.rest = 0 := by
  obtain ⟨index', o, a, hat, hindex', ho, ha, -, hfolded, -, -⟩ := rebase_cases hr
  have hone := Option.some.inj (hat.symm.trans hplace)
  rw [hone, hindex] at hindex'
  obtain rfl := Operand.frameIndex.inj (Option.some.inj hindex')
  have hzero := hfold a.base a.offset (hfits o a ho ha)
  rw [hone] at hfolded
  rw [hfolded] at hzero
  exact Except.ok.inj hzero

/-- Nothing is left of the offset of a slot in its area. -/
theorem HasAreas.rest_eq_zero {block : Nat} {i : Inst} {r : Rebased} (h : t.HasAreas p)
    (hσ : σ ∈ p.frame.saved) (hplace : i.frameIndexAt = some 1)
    (hindex : i.operands[1]? = some (.frameIndex σ.index))
    (hfold : ∀ b v, IsSmallOffset v → (t.fold w i 1 ⟨b, v⟩).rest = .ok 0)
    (hr : t.rebase w p block i 0 = .ok r) : r.rest = 0 :=
  rest_of_offset hplace hindex (fun _ _ ho ha => h.small hσ ho ha) hfold hr

end

/-! ## Triples -/

section
variable {t : Target} {w : WideSet} {p : Procedure} {k : Watch} {first : Nat} {σ : SavedSlot}
  {pre post : State → Prop}

/-- A saved register is stored to its slot. -/
theorem meets_store (entry : State) (hnew : k.PassesNew first)
    (hareas : t.HasAreas p) (hσ : σ ∈ p.frame.saved)
    (hat : ∀ s, pre s → p.AtArea entry σ.area s)
    (h : ∀ s o, pre s → p.frame.object? σ.index = some o →
      post { s with mem := s.mem.storeWords (p.home entry o) (s.value σ.reg) }) :
    Meets t w p k first [w.set.storeToSlot σ.reg σ.index] pre post := by
  have hreg := hareas.row.hasSlot hσ
  have hslot := w.isSlotAccess_storeToSlot hreg σ.index
  refine meets_access entry hnew hslot.flags.2 hslot.place hslot.index ?_ ?_ ?_
  · intro block r hr
    exact hareas.rest_eq_zero hσ hslot.place hslot.index (fun b v => fold_storeToSlot hreg) hr
  · intro s hs
    exact hareas.finds hσ (hat s hs)
  · intro s s' o i' hs ho hforms heff
    rw [WideSet.effect_storeToSlot hreg hforms heff]
    exact h s o hs ho

/-- A saved register is loaded from its slot. -/
theorem meets_load (entry : State) (hnew : k.PassesNew first)
    (hareas : t.HasAreas p) (hσ : σ ∈ p.frame.saved)
    (hat : ∀ s, pre s → p.AtArea entry σ.area s)
    (h : ∀ s o, pre s → p.frame.object? σ.index = some o →
      post (s.assign σ.reg (s.mem.loadWords (p.home entry o) σ.reg.cells.length))) :
    Meets t w p k first [w.set.loadFromSlot σ.reg σ.index] pre post := by
  have hreg := hareas.row.hasSlot hσ
  have hslot := w.isSlotAccess_loadFromSlot hreg σ.index
  refine meets_access entry hnew hslot.flags.2 hslot.place hslot.index ?_ ?_ ?_
  · intro block r hr
    exact hareas.rest_eq_zero hσ hslot.place hslot.index (fun b v => fold_loadFromSlot hreg) hr
  · intro s hs
    exact hareas.finds hσ (hat s hs)
  · intro s s' o i' hs ho hforms heff
    rw [WideSet.effect_loadFromSlot hreg hforms heff]
    exact h s o hs ho

/-- The frame pointer is made to point at its own slot. -/
theorem meets_pointAtSaved (entry : State) (hnew : k.PassesNew first)
    (hareas : t.HasAreas p) (hsets : t.setsPointer p)
    (hat : ∀ s, pre s → p.AtArea entry .gpr1 s)
    (h : ∀ s o, pre s → p.frame.object? p.layout.fpSpillIndex = some o →
      post (s.write t.framePointer (p.home entry o))) :
    Meets t w p k first [t.pointAtSaved w p] pre post := by
  obtain ⟨σ, hσ, hreg, hindex, -⟩ := hareas.grouped.pointer hsets
  have harea : σ.area = .gpr1 := by
    rw [hareas.row.area hσ, hreg]
    exact t.abi.area_framePointer
  have hplace : (t.pointAtSaved w p).frameIndexAt = some 1 := by cases w <;> rfl
  have hsecond : (t.pointAtSaved w p).operands[1]? = some (.frameIndex σ.index) := by
    rw [hindex]
    cases w <;> rfl
  refine meets_access entry hnew (by cases w <;> rfl) hplace hsecond ?_ ?_ ?_
  · intro block r hr
    exact hareas.rest_eq_zero hσ hplace hsecond (fun b v => fold_pointAtSaved) hr
  · intro s hs
    exact hareas.finds hσ (harea ▸ hat s hs)
  · intro s s' o i' hs ho hforms heff
    have hal : i'.predicate.1 = Cond.al := by
      rw [hforms.predicate]
      cases w <;> rfl
    have hacts := (Inst.effect_iff_acts hal).1 heff
    have hsum := hforms.acts_addend (by cases w <;> rfl) (.inl hal) hacts
    have hbeyond : (t.pointAtSaved w p).beyond s = 0 := by
      cases w <;> rfl
    have hdst : (t.pointAtSaved w p).register 0 = t.framePointer := by
      cases w <;> rfl
    rw [hsum, hbeyond, hdst, add_zero]
    exact h s o hs (hindex ▸ ho)

end

end Target

end FrameLowering
