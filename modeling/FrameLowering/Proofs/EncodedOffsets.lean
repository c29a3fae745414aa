import FrameLowering.Proofs.Leftovers

/-!
# Immediates that lowering writes

Every immediate that lowering writes fits its field: the parts of a constant are rotated
immediates (`isEncodable_chunk`), and what a field takes of an offset is a magnitude of its
width, with a direction (`check_split`). The one offset for which that fails is the least
integer, since that is its own magnitude. So an instruction with one frame index in the place
of its base is completely lowered once the offset is folded in (`leftover?_of_rebase`), and a
walk through such instructions leaves nothing over (`Walks.leftover?`).
-/

namespace FrameLowering

open ImmediateField (word magnitude)

/-! ## Fields -/

namespace ImmediateField

theorem toInt_of_toNat {v : Int64} (h : v.toBitVec.toNat < 2 ^ 63) : v.toInt = v.toBitVec.toNat := by
  rw [← Int64.toInt_toBitVec]
  exact BitVec.toInt_eq_toNat_of_lt (by omega)

theorem check_rotated {m : Family} (hk : m.field.kind = .rotated) {v : Int64} (hlo : 0 ≤ v.toInt)
    (hhi : v.toInt < 2 ^ 32) (h : RotatedImmediate.isEncodable (word v)) :
    m.field.check v = .ok () := by
  have hneg : ¬ v < 0 := by
    rw [Int64.lt_iff_toInt_lt, Int64.toInt_zero]
    omega
  have hbig : ¬ 0xffffffff < v := by
    rw [Int64.lt_iff_toInt_lt]
    show ¬ (2 ^ 32 - 1 < v.toInt)
    omega
  rw [check, hk]
  simp [hneg, hbig, h]

theorem check_chunk {m : Family} (hk : m.field.kind = .rotated) (w : Word) :
    m.field.check (Int64.ofNat (RotatedImmediate.chunk w).toNat) = .ok () := by
  have hlt := (RotatedImmediate.chunk w).isLt
  have hint := Int64.toInt_ofNat_of_lt (n := (RotatedImmediate.chunk w).toNat) (by omega)
  refine check_rotated hk (by omega) (by omega) ?_
  rw [word_ofNat_toNat]
  exact RotatedImmediate.isEncodable_chunk w

/-- A field with a direction takes a magnitude of its width and one bit more. -/
theorem check_signed {m : Family} (hk : m.field.kind = .signMagnitude) {v : Int64}
    (h : v.toBitVec.toNat < 2 ^ (m.field.bits + 1)) : m.field.check v = .ok () := by
  have hsigned := isSigned_field hk
  have hbits : 2 ^ (m.field.bits + 1) ≤ 2 ^ 13 :=
    Nat.pow_le_pow_right (by decide) (Nat.succ_le_succ hsigned.bits)
  have hint : v.toInt = v.toBitVec.toNat := toInt_of_toNat (by omega)
  have hneg : ¬ v < 0 := by
    rw [Int64.lt_iff_toInt_lt, Int64.toInt_zero]
    omega
  rw [check, hk]
  simp only
  split
  · -- there are no bits left for a shift
    have hshift : PackedOffset.shift12 v = 0 := by
      have hmsb : v.toBitVec.msb = false := by
        rw [BitVec.msb_eq_false_iff_two_mul_lt]
        omega
      rw [PackedOffset.shift12, PackedOffset.bitsFrom, BitVec.sshiftRight_eq_of_msb_false hmsb,
        BitVec.toNat_ushiftRight, Nat.shiftRight_eq_div_pow, Nat.div_eq_of_lt (by omega)]
      rfl
    rw [hshift]
    simp [hneg, PackedOffset.maxShift]
  · have htop : ¬ (m.field.mask ||| m.field.directionBit) < v := by
      rw [Int64.lt_iff_toInt_lt, hint]
      have hmax : (m.field.mask ||| m.field.directionBit).toInt = 2 ^ (m.field.bits + 1) - 1 := by
        cases m
        case mode2 | mode3 | mode5 | t2i8 => decide
        all_goals exact absurd hk (by decide)
      rw [hmax]
      have hcast : ((2 ^ (m.field.bits + 1) : Nat) : Int) = 2 ^ (m.field.bits + 1) := by norm_cast
      omega
    simp [hneg, htop]

theorem toNat_directionBit_lt {m : Family} (hk : m.field.kind = .signMagnitude) :
    m.field.directionBit.toBitVec.toNat < 2 ^ (m.field.bits + 1) := by
  cases m
  case mode2 | mode3 | mode5 | t2i8 => decide
  all_goals exact absurd hk (by decide)

/-- What a field takes of an offset that has a magnitude fits the field. -/
theorem check_split {m : Family} (hk : m.field.kind = .signMagnitude) {offset : Int64}
    (hmin : offset ≠ Int64.minValue) : m.field.check (m.field.split offset).1 = .ok () := by
  have hsigned := isSigned_field hk
  have hor {x : Int64} (hx : x &&& m.field.mask = x) :
      m.field.check (x ||| if offset < 0 then m.field.directionBit else 0) = .ok () := by
    have hmask : m.field.mask.toBitVec.toNat < 2 ^ (m.field.bits + 1) := by
      rw [hsigned.mask, BitVec.toNat_ofNat]
      refine Nat.lt_of_le_of_lt (Nat.mod_le _ _) ?_
      have := Nat.two_pow_pos m.field.bits
      rw [Nat.pow_succ]
      omega
    have hxlt : x.toBitVec.toNat < 2 ^ (m.field.bits + 1) := by
      rw [← hx, Int64.toBitVec_and, BitVec.toNat_and]
      exact Nat.lt_of_le_of_lt Nat.and_le_right hmask
    refine check_signed hk ?_
    rw [Int64.toBitVec_or, BitVec.toNat_or]
    refine Nat.or_lt_two_pow hxlt ?_
    split
    · exact toNat_directionBit_lt hk
    · exact Nat.two_pow_pos _
  rw [split]
  simp only
  split
  · next hle => exact hor (hsigned.div_and_mask hmin hle)
  · exact hor (by rw [Int64.and_assoc, Int64.and_self])

theorem check_unsigned {v : Int64} (hlo : 0 ≤ v.toInt) (hhi : v.toInt ≤ 4095) :
    Family.t2i12.field.check v = .ok () := by
  have hneg : ¬ v < 0 := by
    rw [Int64.lt_iff_toInt_lt, Int64.toInt_zero]
    omega
  have htop : ¬ Family.t2i12.field.mask < v := by
    rw [Int64.lt_iff_toInt_lt]
    show ¬ 4095 < v.toInt
    omega
  show (if v < 0 || Family.t2i12.field.mask < v then _ else _) = _
  simp [hneg, htop]

/-- The same for a field that only adds. -/
theorem check_split_unsigned {offset : Int64} (h : ¬ offset < 0) :
    Family.t2i12.field.check (Family.t2i12.field.split offset).1 = .ok () := by
  have hmag : magnitude offset = offset := by rw [magnitude, if_neg h]
  have hone : Family.t2i12.field.scale = 1 := rfl
  simp only [split, hmag, if_neg h, hone, Int64.div_one, Int64.or_zero]
  split
  · next hle =>
    rw [Int64.lt_iff_toInt_lt, Int64.toInt_zero] at h
    exact check_unsigned (v := offset) (by omega) (Int64.le_iff_toInt_le.1 hle)
  · have hlt : (offset &&& Family.t2i12.field.mask).toBitVec.toNat ≤ 4095 := by
      rw [Int64.toBitVec_and, BitVec.toNat_and]
      exact Nat.and_le_right
    have hint := toInt_of_toNat (v := offset &&& Family.t2i12.field.mask) (by omega)
    refine check_unsigned (v := offset &&& Family.t2i12.field.mask) ?_ ?_
    · omega
    · omega

end ImmediateField

/-! ## Lowered instructions -/

/-- An operand that is no immediate of `2 ^ 31` or more in magnitude. -/
def Operand.IsSmall : Operand → Prop
  | .imm v => IsBelow (2 ^ 31) v
  | _ => True

instance : DecidablePred Operand.IsSmall
  | .imm v => inferInstanceAs (Decidable (IsBelow _ v))
  | .reg .. | .frameIndex _ | .constPool _ | .cond _ => inferInstanceAs (Decidable True)

instance decidableEqOk {ε : Type} (r : Except ε Unit) : Decidable (r = .ok ()) :=
  match r with
  | .ok () => isTrue rfl
  | .error _ => isFalse nofun

namespace Inst

/-- An instruction that lowering can complete: it has one frame index at most, in the place of
its base unless it is assembly text, and a small immediate beside that; without a frame index
its immediate fits already. -/
structure IsReady (i : Inst) : Prop where
  one : i.indexCount ≤ 1
  place : ∀ n, i.frameIndexAt = some n → i.info.flags.isAsm ∨ n = 1
  small : ∀ n, i.frameIndexAt = some n → ∀ o ∈ i.operands, o.IsSmall
  fits : i.frameIndexAt = none → i.checkImmediate = .ok ()

instance : DecidablePred IsReady := fun i =>
  decidable_of_iff (i.indexCount ≤ 1 ∧ (∀ n ∈ i.frameIndexAt, i.info.flags.isAsm ∨ n = 1) ∧
      (∀ n ∈ i.frameIndexAt, ∀ o ∈ i.operands, o.IsSmall) ∧
      (i.frameIndexAt = none → i.checkImmediate = .ok ()))
    ⟨fun ⟨hone, hplace, hsmall, hfits⟩ => ⟨hone, hplace, hsmall, hfits⟩,
      fun h => ⟨h.one, h.place, h.small, h.fits⟩⟩

theorem indexCount_eq_zero {i : Inst} (h : i.frameIndexAt = none) : i.indexCount = 0 := by
  rw [indexCount, List.countP_eq_zero]
  intro o ho
  rw [List.findIdx?_eq_none_iff.1 h o ho]
  exact Bool.false_ne_true

theorem leftover?_eq_none {i : Inst} (hmarker : i.op.isMarker = false) (hcount : i.indexCount = 0)
    (hcheck : i.checkImmediate = .ok ()) : i.leftover? = none := by
  have hfind : i.operands.find? Operand.isFrameIndex = none :=
    List.find?_eq_none.2 (List.countP_eq_zero.1 hcount)
  rw [leftover?, if_neg (Bool.eq_false_iff.1 hmarker), hfind, hcheck]

theorem checkImmediate_of_field {i : Inst}
    (h : ∀ k v, i.info.family.field.position = some k → i.operands[1 + k]? = some (.imm v) →
      i.info.family.field.check v = .ok ()) : i.checkImmediate = .ok () := by
  rw [checkImmediate]
  split
  · rfl
  · cases hv : i.fieldImmediate? with
    | none => rfl
    | some v =>
      rw [fieldImmediate?] at hv
      cases hk : i.info.family.field.position with
      | none => simp [hk] at hv
      | some k =>
        simp only [hk, Option.bind_eq_bind, Option.bind_some] at hv
        cases ho : i.operands[1 + k]? with
        | none => simp [ho] at hv
        | some o =>
          cases o with
          | imm v' =>
            simp only [ho, Option.some.injEq] at hv
            exact h k v hk (hv ▸ ho)
          | _ => simp [ho] at hv

/-- An immediate that was written to the field. -/
theorem checkImmediate_setOperand {i : Inst} {k : Nat} {v : Int64}
    (hk : i.info.family.field.position = some k) (hv : i.info.family.field.check v = .ok ()) :
    (i.setOperand (1 + k) (.imm v)).checkImmediate = .ok () := by
  refine checkImmediate_of_field fun k' v' hk' hv' => ?_
  obtain rfl : k = k' := Option.some.inj (hk.symm.trans hk')
  change (i.operands.set (1 + k) (.imm v))[1 + k]? = _ at hv'
  rw [List.getElem?_set_self'] at hv'
  cases hold : i.operands[1 + k]? with
  | none => simp [hold] at hv'
  | some o =>
    simp only [hold, Option.map_eq_map, Option.map_some, Option.some.injEq] at hv'
    obtain rfl : v = v' := Operand.imm.inj hv'
    exact hv

/-- The base register is not the immediate. -/
theorem checkImmediate_setOperand_one {i : Inst} {o : Operand} (h : i.checkImmediate = .ok ()) :
    (i.setOperand 1 o).checkImmediate = .ok () := by
  have hfield : (i.setOperand 1 o).fieldImmediate? = i.fieldImmediate? := by
    have hinfo : (i.setOperand 1 o).info = i.info := rfl
    rw [fieldImmediate?, fieldImmediate?, hinfo]
    cases hk : i.info.family.field.position with
    | none => rfl
    | some k =>
      have hpos := Family.position_pos hk
      have hget : (i.setOperand 1 o).operands[1 + k]? = i.operands[1 + k]? :=
        List.getElem?_set_ne (by omega)
      simp only [Option.bind_eq_bind, Option.bind_some, hget]
  rw [checkImmediate] at h ⊢
  rw [hfield]
  exact h

theorem checkImmediate_of_isAsm {i : Inst} (h : i.info.flags.isAsm) : i.checkImmediate = .ok () := by
  rw [checkImmediate, if_pos h]

/-- A load or store with an offset folded in has an immediate that fits. -/
theorem checkImmediate_foldOffset {i i' : Inst} {k : Nat} {base : Reg} {offset rest : Int64}
    (hfold : i.info.family.isFoldable) (hk : i.info.family.field.position = some k)
    (hmin : offset ≠ Int64.minValue) (h : i.foldOffset 1 (1 + k) base offset = ⟨i', .ok rest⟩) :
    i'.checkImmediate = .ok () := by
  rcases i.orient_cases offset hfold with ⟨horient, hneg⟩ | ⟨horient, hfam⟩
  · have hinfo : (i.setOperand 1 (.use base)).info = i.info := rfl
    simp only [foldOffset, horient, hinfo] at h
    cases hkind : i.info.family.field.kind with
    | absent =>
      simp only [hkind, Folded.mk.injEq, Except.ok.injEq] at h
      refine checkImmediate_of_field fun k' v _ _ => ?_
      rw [← h.1, hinfo, ImmediateField.check, hkind]
    | unsigned =>
      simp only [hkind, if_neg (hneg hkind), Folded.mk.injEq, Except.ok.injEq] at h
      obtain ⟨rfl, -⟩ := h
      refine checkImmediate_setOperand (hinfo ▸ hk) ?_
      rw [hinfo, Family.eq_t2i12 hfold hkind]
      exact ImmediateField.check_split_unsigned (hneg hkind)
    | signMagnitude =>
      simp only [hkind, Folded.mk.injEq, Except.ok.injEq] at h
      obtain ⟨rfl, -⟩ := h
      exact checkImmediate_setOperand (hinfo ▸ hk) (ImmediateField.check_split hkind hmin)
    | rotated =>
      exfalso
      revert hfold hkind
      cases i.info.family <;> decide
  · -- a negative offset where the field only adds takes the opcode that subtracts
    obtain ⟨hshape, hneg⟩ := Opcode.negativeForm_facts hfam
    have hinfo : (setOperand ⟨i.op.negativeForm, i.operands⟩ 1 (.use base)).info =
        i.op.negativeForm.info := rfl
    have hkind : i.op.negativeForm.info.family.field.kind = .signMagnitude := by rw [hneg]; rfl
    simp only [foldOffset, horient, hinfo, hkind, Folded.mk.injEq, Except.ok.injEq] at h
    obtain ⟨rfl, -⟩ := h
    exact checkImmediate_setOperand (hinfo ▸ hshape.position.trans hk)
      (ImmediateField.check_split hkind hmin)

end Inst

/-- An addition with an offset folded in has an immediate that fits. -/
theorem WideSet.checkImmediate_foldAdd {s : WideSet} {i i' : Inst} {base : Reg}
    {offset rest : Int64} (hop : i.op = s.add)
    (hmin : ∀ v, .imm v ∈ i.operands → offset + v ≠ Int64.minValue)
    (h : s.foldAdd i 1 base offset = ⟨i', .ok rest⟩) : i'.checkImmediate = .ok () := by
  rw [foldAdd] at h
  cases hv : i.operands[1 + 1]? with
  | none => simp [hv] at h
  | some o =>
    cases o with
    | imm v =>
      have hmin := hmin v (List.mem_of_getElem? hv)
      simp only [hv] at h
      -- additions and subtractions have the same field
      have hsigned : ∃ op, (if offset + v < 0 then ({ i with op := s.sub } : Inst) else i) =
          ⟨op, i.operands⟩ ∧ op.info.family = .mode1 := by
        split
        · exact ⟨s.sub, rfl, by cases s <;> rfl⟩
        · exact ⟨i.op, rfl, by rw [hop]; cases s <;> rfl⟩
      obtain ⟨op, hsigned, hfam⟩ := hsigned
      rw [hsigned] at h
      have hposition : op.info.family.field.position = some 1 := by rw [hfam]; rfl
      have hkind : op.info.family.field.kind = .rotated := by rw [hfam]; rfl
      split at h
      · obtain ⟨rfl, -⟩ := Folded.mk.inj h
        refine Inst.checkImmediate_of_field fun k v hk _ => ?_
        cases s <;> cases hk
      split at h
      · simp at h
      next hword =>
      split at h
      · next henc =>
        obtain ⟨rfl, -⟩ := Folded.mk.inj h
        refine Inst.checkImmediate_setOperand (i := (Inst.setOperand ⟨op, i.operands⟩ 1 (.use base)))
          hposition (ImmediateField.check_rotated hkind (ImmediateField.magnitude_nonneg hmin) ?_ henc)
        have hle := Int64.le_iff_toInt_le.1 (Int64.not_lt.1 hword)
        have hmax : maxWord.toInt = 2 ^ 32 - 1 := rfl
        omega
      · obtain ⟨rfl, -⟩ := Folded.mk.inj h
        exact Inst.checkImmediate_setOperand
          (i := (Inst.setOperand ⟨op, i.operands⟩ 1 (.use base))) hposition
          (ImmediateField.check_chunk hkind _)
    | _ => simp [hv] at h

/-! ## Offsets that have a magnitude -/

theorem Family.scale_cases (m : Family) : m.field.scale = 1 ∨ m.field.scale = 4 := by
  cases m <;> decide

theorem IsBelow.mul_scale {n : Nat} {v : Int64} (h : IsBelow n v) (m : Family) (hn : 4 * n ≤ 2 ^ 63) :
    IsBelow (4 * n) (v * m.field.scale) := by
  have hfour : (4 : Int64).toInt = 4 := rfl
  rw [IsBelow] at *
  rcases m.scale_cases with hs | hs
  · rw [hs, Int64.mul_one]
    omega
  · rw [hs, toInt_mul_of_range (by rw [hfour]; omega) (by rw [hfour]; omega), hfour]
    omega

/-- The offset that an immediate stands for is not much larger than the immediate. -/
theorem IsBelow.decode {v : Int64} (h : IsBelow (2 ^ 31) v) (m : Family) :
    IsBelow (2 ^ 33) (m.field.decode v) := by
  rw [ImmediateField.decode]
  cases hk : m.field.kind with
  | absent => show (0 : Int64).toInt.natAbs < 2 ^ 33; decide
  | unsigned => exact (h.mul_scale m (by decide)).mono (by decide)
  | rotated => exact (h.mul_scale m (by decide)).mono (by decide)
  | signMagnitude =>
    have hsigned := ImmediateField.isSigned_field hk
    have hmask : IsBelow (2 ^ 13) (v &&& m.field.mask) := by
      have hlt : (v &&& m.field.mask).toBitVec.toNat < 2 ^ 13 := by
        rw [Int64.toBitVec_and, BitVec.toNat_and, hsigned.mask, BitVec.toNat_ofNat]
        have hbits : 2 ^ m.field.bits ≤ 2 ^ 12 := Nat.pow_le_pow_right (by decide) hsigned.bits
        refine Nat.lt_of_le_of_lt (Nat.and_le_right.trans (Nat.mod_le _ _)) ?_
        omega
      rw [IsBelow, ImmediateField.toInt_of_toNat (by omega)]
      omega
    have hmul := hmask.mul_scale m (by decide)
    simp only
    split
    · exact (hmul.neg (by decide)).mono (by decide)
    · exact hmul.mono (by decide)

namespace Target

/-- All objects are at addresses from which an offset to any small immediate has a
magnitude. -/
def InReach (t : Target) (p : Procedure) (spAdj : Int64) : Prop :=
  ∀ index o a, p.frame.object? index = some o → t.address p index o spAdj = .ok a →
    IsBelow (2 ^ 63 - 2 ^ 33) a.offset

section
variable {t : Target} {w : WideSet} {p : Procedure} {block : Nat} {i i' : Inst} {a : Address}
  {rest spAdj spAdj' : Int64} {e : Expansion}

theorem checkImmediate_fold (hmin : ∀ v, .imm v ∈ i.operands →
      a.offset + i.info.family.field.decode v ≠ Int64.minValue)
    (h : t.fold w i 1 a = ⟨i', .ok rest⟩) : i'.checkImmediate = .ok () := by
  rw [fold] at h
  split at h
  · next hop =>
    refine WideSet.checkImmediate_foldAdd hop (fun v hv => ?_) h
    have hdecode : i.info.family.field.decode v = v := by
      rw [Inst.info, hop]
      cases w <;> exact Int64.mul_one v
    rw [← hdecode]
    exact hmin v hv
  · obtain ⟨hfold, k, v, hk, hv, -⟩ := Inst.foldMemory_cases h
    simp only [Inst.foldMemory, hfold, hk, hv] at h
    split at h
    · simp at h
    · exact Inst.checkImmediate_foldOffset hfold hk (hmin v (List.mem_of_getElem? hv)) h

/-- An instruction is lowered once its frame index is replaced, with its own base or with a
scratch register. -/
theorem leftover?_of_rebase {r : Rebased} (hi : i.IsReady) (hmarker : i.op.isMarker = false)
    (hreach : t.InReach p spAdj) (hr : t.rebase w p block i spAdj = .ok r) :
    r.inst.leftover? = none ∧ ∀ scratch, (r.through scratch).leftover? = none := by
  obtain ⟨index, o, a, hat, hplace, ho, ha, -, hfold, -⟩ := rebase_cases hr
  obtain ⟨hflags, -⟩ := fold_operands hfold
  obtain ⟨hbase, hcount⟩ := indexCount_fold hplace hfold
  have hmarker' : r.inst.op.isMarker = false := by
    have hsame : r.inst.op.isMarker = i.op.isMarker :=
      congrArg (fun f : OpcodeFlags => f.isSetup || f.isDestroy) hflags
    rw [hsame, hmarker]
  have hone := hi.one
  have hzero : r.inst.indexCount = 0 := by omega
  have hthrough (scratch : Reg) : (r.through scratch).indexCount = 0 := by
    have hset := Operand.countP_set_add Operand.isFrameIndex hbase (.reg scratch false true)
    exact hset.trans hzero
  -- assembly text is not checked; all else has its base in the second operand
  have hcheck : r.inst.checkImmediate = .ok () ∧
      ∀ scratch, (r.through scratch).checkImmediate = .ok () := by
    rcases hi.place _ hat with hasm | hone
    · rw [← hflags] at hasm
      exact ⟨Inst.checkImmediate_of_isAsm hasm, fun _ => Inst.checkImmediate_of_isAsm hasm⟩
    · rw [hone] at hfold
      have hok : r.inst.checkImmediate = .ok () := by
        refine checkImmediate_fold (fun v hv => ?_) hfold
        have hsmall : IsBelow (2 ^ 31) v := hi.small _ hat _ hv
        exact ((hreach index o a ho ha).add (hsmall.decode _) (by decide)).ne_minValue (by decide)
      refine ⟨hok, fun scratch => ?_⟩
      rw [Rebased.through, hone]
      exact Inst.checkImmediate_setOperand_one hok
  exact ⟨Inst.leftover?_eq_none hmarker' hzero hcheck.1,
    fun scratch => Inst.leftover?_eq_none hmarker' (hthrough scratch) (hcheck.2 scratch)⟩

end

end Target

/-- Whether a line marks the start or the end of a call sequence. -/
def Line.isMarker (l : Line) : Bool :=
  l.inst.op.isMarker

namespace WideSet

section
variable {s : WideSet} {dst base pred : Reg} {v : Int64} {c : Cond} {i : Inst}

theorem checkImmediate_of_mem_addConstant (h : i ∈ s.addConstant dst base v c pred) :
    i.checkImmediate = .ok () := by
  have hop : (if v < 0 then s.sub else s.add).info.family = .mode1 ∧
      (if v < 0 then s.sub else s.add).info.defs = 1 := by
    split <;> cases s <;> exact ⟨rfl, rfl⟩
  rw [addConstant] at h
  generalize (if v < 0 then s.sub else s.add) = op at h hop
  obtain ⟨hfam, hdefs⟩ := hop
  -- each instruction of the chain takes one part
  have hparts : ∀ x ∈ RotatedImmediate.chunks (word (magnitude v)), ∃ y,
      x = RotatedImmediate.chunk y := fun x hx => RotatedImmediate.eq_chunk_of_mem hx
  generalize RotatedImmediate.chunks (word (magnitude v)) = ws at h hparts
  induction ws generalizing base with
  | nil => exact absurd h List.not_mem_nil
  | cons x ws ih =>
    obtain ⟨hx, hws⟩ := List.forall_mem_cons.1 hparts
    rcases List.mem_cons.1 h with rfl | h
    · obtain ⟨y, rfl⟩ := hx
      refine Inst.checkImmediate_of_field fun k u hk hu => ?_
      change op.info.family.field.position = some k at hk
      change (Inst.defineFirst op.info.defs _)[1 + k]? = some (.imm u) at hu
      show op.info.family.field.check u = .ok ()
      rw [hfam] at hk ⊢
      rw [hdefs, ← Option.some.inj hk] at hu
      obtain rfl := Operand.imm.inj (Option.some.inj hu)
      exact ImmediateField.check_chunk rfl y
    · exact ih h hws

/-- The instructions that add a constant are lowered ones. -/
theorem leftover?_of_mem_addConstant (h : i ∈ s.addConstant dst base v c pred) :
    i.leftover? = none := by
  obtain ⟨-, hmarker, hplace⟩ := plain_of_mem_addConstant h
  exact Inst.leftover?_eq_none hmarker (Inst.indexCount_eq_zero hplace)
    (checkImmediate_of_mem_addConstant h)

end

end WideSet

namespace Target

section
variable {t : Target} {w : WideSet} {p : Procedure} {block : Nat} {i : Inst} {spAdj spAdj' : Int64}
  {e : Expansion}

/-- An instruction with a frame index in the place of its base, and an immediate of zero. -/
theorem isReady_of_operands {o : Operand} {index : Int64} {os : List Operand}
    (hi : i.operands = o :: .frameIndex index :: os)
    (hothers : ∀ x ∈ o :: os, x.isFrameIndex = false ∧ x.IsSmall) : i.IsReady := by
  obtain ⟨ho, hos⟩ := List.forall_mem_cons.1 hothers
  have hat : i.frameIndexAt = some 1 := by
    rw [Inst.frameIndexAt, hi, List.findIdx?_cons, ho.1]
    rfl
  refine ⟨?_, fun n hn => .inr (Option.some.inj (hn.symm.trans hat)), fun _ _ x hx => ?_, ?_⟩
  · have hnone : os.countP Operand.isFrameIndex = 0 :=
      List.countP_eq_zero.2 fun x hx => by simp [(hos x hx).1]
    rw [Inst.indexCount, hi, List.countP_cons_of_neg (by simp [ho.1]), List.countP_cons_of_pos rfl,
      hnone]
  · rw [hi, List.mem_cons, List.mem_cons] at hx
    rcases hx with rfl | rfl | hx
    · exact ho.2
    · trivial
    · exact (hos x hx).2
  · intro hnone
    rw [hat] at hnone
    cases hnone

/-- Accesses to the slots of registers are ready. -/
theorem isReady_slotAccess (hw : t.wide? = some w) {r : Reg} (hr : r.HasSlot) {index : Int64}
    (hi : i = t.instrSet.storeToSlot r index ∨ i = t.instrSet.loadFromSlot r index) :
    i.IsReady ∧ i.op.isMarker = false := by
  rw [instrSet_of_wide hw] at hi
  have hzero : IsBelow 2147483648 0 := by decide
  rcases hi with rfl | rfl
  · refine ⟨?_, (w.isSlotAccess_storeToSlot hr index).flags.2⟩
    rcases hr with ⟨n, rfl⟩ | ⟨n, rfl⟩
    all_goals
      cases w
      all_goals
        refine isReady_of_operands rfl ?_
        simp [Operand.isFrameIndex, Operand.IsSmall, Operand.use, hzero]
  · refine ⟨?_, (w.isSlotAccess_loadFromSlot hr index).flags.2⟩
    rcases hr with ⟨n, rfl⟩ | ⟨n, rfl⟩
    all_goals
      cases w
      all_goals
        refine isReady_of_operands rfl ?_
        simp [Operand.isFrameIndex, Operand.IsSmall, Operand.use, Operand.define, hzero]

/-- The code of prologues and epilogues is ready. -/
theorem Emits.isReady {saved : List SavedSlot} {index : Int64} (hw : t.wide? = some w)
    (hslots : ∀ σ ∈ saved, σ.reg.HasSlot) (h : t.Emits w saved index i) :
    i.IsReady ∧ i.op.isMarker = false := by
  have hready {j : Inst} (hplain : j.frameIndexAt = none) (hok : j.checkImmediate = .ok ()) :
      j.IsReady := by
    refine ⟨?_, ?_, ?_, fun _ => hok⟩
    · rw [Inst.indexCount_eq_zero hplain]
      exact Nat.zero_le 1
    · intro n hn
      rw [hplain] at hn
      cases hn
    · intro n hn
      rw [hplain] at hn
      cases hn
  cases h with
  | move hi =>
    obtain ⟨-, hmarker, hplain⟩ := WideSet.plain_of_mem_addConstant hi
    exact ⟨hready hplain (WideSet.checkImmediate_of_mem_addConstant hi), hmarker⟩
  | copy =>
    cases w
    all_goals exact ⟨hready rfl rfl, rfl⟩
  | save hσ => exact isReady_slotAccess hw (hslots _ hσ) (.inl rfl)
  | restore hσ => exact isReady_slotAccess hw (hslots _ hσ) (.inr rfl)
  | point =>
    have hzero : IsBelow 2147483648 0 := by decide
    cases w
    all_goals
      refine ⟨isReady_of_operands rfl ?_, rfl⟩
      simp [Operand.isFrameIndex, Operand.IsSmall, Operand.use, Operand.predicate, Operand.define,
        hzero]

/-- What stands for an instruction when no register is borrowed. -/
theorem Direct.leftover? (h : Direct t w p block i spAdj e) (hi : i.IsReady)
    (hmarker : i.op.isMarker = false) (hreach : t.InReach p spAdj) :
    (∀ j ∈ e.before, j.leftover? = none) ∧ e.inst.leftover? = none ∧ e.after = [] := by
  cases h with
  | alone hr =>
    exact ⟨fun j hj => absurd hj List.not_mem_nil, (leftover?_of_rebase hi hmarker hreach hr).1, rfl⟩
  | through hr =>
    refine ⟨fun j hj => ?_, (leftover?_of_rebase hi hmarker hreach hr).2 _, rfl⟩
    exact WideSet.leftover?_of_mem_addConstant hj

/-- What stands for an instruction is lowered. -/
theorem Expands.leftover? (hw : t.wide? = some w) (h : Expands t w p block i spAdj e)
    (hi : i.IsReady) (hmarker : i.op.isMarker = false) (hreach : t.InReach p spAdj) (l : Line) :
    ∀ q ∈ e.pieces l, q.inst.leftover? = none := by
  have hpieces {e : Expansion} (hbefore : ∀ j ∈ e.before, j.leftover? = none)
      (hinst : e.inst.leftover? = none) (hafter : ∀ j ∈ e.after, j.leftover? = none) :
      ∀ q ∈ e.pieces l, q.inst.leftover? = none := by
    intro q hq
    rw [Expansion.pieces, List.mem_append, List.mem_cons] at hq
    rcases hq with hq | rfl | hq
    · obtain ⟨j, hj, rfl⟩ := List.mem_map.1 hq
      exact hbefore j hj
    · exact hinst
    · obtain ⟨j, hj, rfl⟩ := List.mem_map.1 hq
      exact hafter j hj
  cases h with
  | direct h =>
    obtain ⟨hbefore, hinst, hafter⟩ := h.leftover? hi hmarker hreach
    refine hpieces hbefore hinst fun j hj => ?_
    rw [hafter] at hj
    exact absurd hj List.not_mem_nil
  | borrowed hr _ hscratch hspill hreload _ _ =>
    -- the store and the load of the borrowed register go through the same steps
    obtain ⟨n, rfl⟩ := hscratch.core
    have hslot : (Reg.core n).HasSlot := .inl ⟨n, rfl⟩
    obtain ⟨hs, hsm⟩ := isReady_slotAccess hw hslot (.inl rfl)
    obtain ⟨hl, hlm⟩ := isReady_slotAccess hw hslot (.inr rfl)
    obtain ⟨hsbefore, hsinst, -⟩ := hspill.leftover? hs hsm hreach
    obtain ⟨hlbefore, hlinst, -⟩ := hreload.leftover? hl hlm hreach
    refine hpieces (fun j hj => ?_) ((leftover?_of_rebase hi hmarker hreach hr).2 _) fun j hj => ?_
    · rcases List.mem_append.1 hj with hj | hj
      · exact hsbefore j hj
      · rcases List.mem_cons.1 hj with rfl | hj
        · exact hsinst
        · exact WideSet.leftover?_of_mem_addConstant hj
    · rcases List.mem_append.1 hj with hj | hj
      · exact hlbefore j hj
      · obtain rfl := List.mem_singleton.1 hj
        exact hlinst

/-- A walk through lines that are ready leaves nothing over, as long as the stack pointer does
not get far from its place: each marker moves it by a limited amount. -/
theorem Walks.leftover? {ls : List Line} {ps : List Piece} {amount bound : Nat}
    (hw : t.wide? = some w) (h : Walks t w p block spAdj ls spAdj' ps)
    (hready : ∀ l ∈ ls, l.inst.IsReady)
    (hmoves : ∀ l ∈ ls, ∀ m, t.callFrame p block l.inst = .ok m → m.delta.toInt.natAbs ≤ amount)
    (hreach : ∀ spAdj, IsBelow bound spAdj → t.InReach p spAdj) (hbound : bound ≤ 2 ^ 63)
    (hroom : spAdj.toInt.natAbs + amount * ls.countP Line.isMarker < bound) :
    ∀ q ∈ ps, q.inst.leftover? = none := by
  induction h with
  | nil => exact fun q hq => absurd hq List.not_mem_nil
  | @marker spAdj _ l ls m ps hop hm _ ih =>
    obtain ⟨hl, hls⟩ := List.forall_mem_cons.1 hready
    obtain ⟨hmove, hmoves⟩ := List.forall_mem_cons.1 hmoves
    -- the marker uses up one share of the room
    have hdelta := hmove m hm
    rw [List.countP_cons_of_pos (p := Line.isMarker) hop, Nat.mul_succ] at hroom
    have hsum : (spAdj + m.delta).toInt = spAdj.toInt + m.delta.toInt :=
      toInt_add_of_range (by omega) (by omega)
    have hrest := ih hls hmoves (by rw [hsum]; omega)
    intro q hq
    rcases List.mem_append.1 hq with hq | hq
    · obtain ⟨j, hj, rfl⟩ := List.mem_map.1 hq
      obtain ⟨v, hinsts, -⟩ := callFrame_facts hw hm
      rw [hinsts] at hj
      exact WideSet.leftover?_of_mem_addConstant hj
    · exact hrest q hq
  | plain hop hplace _ ih =>
    obtain ⟨hl, hls⟩ := List.forall_mem_cons.1 hready
    rw [List.countP_cons_of_neg (p := Line.isMarker) hop] at hroom
    have hrest := ih hls (List.forall_mem_cons.1 hmoves).2 hroom
    intro q hq
    rcases List.mem_cons.1 hq with rfl | hq
    · exact Inst.leftover?_eq_none (Bool.eq_false_iff.2 hop) (Inst.indexCount_eq_zero hplace)
        (hl.fits hplace)
    · exact hrest q hq
  | expand hop he _ ih =>
    obtain ⟨hl, hls⟩ := List.forall_mem_cons.1 hready
    rw [List.countP_cons_of_neg (p := Line.isMarker) hop] at hroom
    have hrest := ih hls (List.forall_mem_cons.1 hmoves).2 hroom
    have hnear := hreach _ (Nat.lt_of_le_of_lt (Nat.le_add_right _ _) hroom)
    intro q hq
    rcases List.mem_append.1 hq with hq | hq
    · exact he.leftover? hw hl (Bool.eq_false_iff.2 hop) hnear _ q hq
    · exact hrest q hq

end

end Target

end FrameLowering
