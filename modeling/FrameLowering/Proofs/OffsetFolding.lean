import FrameLowering.Lowering.Elimination
import FrameLowering.Proofs.ConstantChains
import FrameLowering.Proofs.Int64Range

/-!
# Offsets folded into instructions

When a frame index is replaced by a base register, part of the offset goes into the
instruction and the rest is left for the base. Whatever is folded, the instruction then
forms the same address as before from a base that is `rest` bytes higher: what it adds to
its base and the rest make up what it added before and the offset (`fold_facts`). The
equations are between words of the machine, so they also hold where 64-bit offsets wrap.
-/

namespace FrameLowering

namespace ImmediateField

/-! ## Splitting an offset -/

theorem and_add_and_not (x m : Int64) : (x &&& m) + (x &&& ~~~m) = x := by
  apply Int64.toBitVec.inj
  rw [Int64.toBitVec_add, Int64.toBitVec_and, Int64.toBitVec_and, Int64.toBitVec_not]
  generalize x.toBitVec = x
  generalize m.toBitVec = m
  rw [BitVec.add_eq_or_of_and_eq_zero]
  · ext i hi
    simp only [BitVec.getElem_or, BitVec.getElem_and, BitVec.getElem_not]
    cases x[i] <;> cases m[i] <;> rfl
  · ext i hi
    simp only [BitVec.getElem_and, BitVec.getElem_not, BitVec.getElem_zero]
    cases x[i] <;> cases m[i] <;> rfl

theorem and_mul_four (q m : Int64) : (q &&& m) * 4 = q * 4 &&& m * 4 := by
  have h (x : BitVec 64) : x * 4#64 = x <<< 2 := by
    rw [BitVec.shiftLeft_eq_mul_twoPow]
    rfl
  apply Int64.toBitVec.inj
  show (q.toBitVec &&& m.toBitVec) * 4#64 = (q.toBitVec * 4#64 &&& m.toBitVec * 4#64)
  rw [h, h, h, BitVec.shiftLeft_and_distrib]

theorem tmod_eq_zero {n s : Int64} (h : n % s = 0) : n.toInt.tmod s.toInt = 0 := by
  rw [← Int64.toInt_mod, h]
  rfl

theorem div_mul_of_mod {n s : Int64} (hs : s ≠ -1) (h : n % s = 0) : n / s * s = n := by
  apply Int64.toInt_inj.1
  rw [Int64.toInt_mul, Int64.toInt_div_of_ne_right n s hs,
    Int.tdiv_mul_cancel_of_tmod_eq_zero (tmod_eq_zero h)]
  exact bmod_of_range n.le_toInt n.toInt_lt

/-- The least integer is the only one that has no magnitude. -/
theorem toInt_magnitude {n : Int64} (h : n ≠ Int64.minValue) :
    (magnitude n).toInt = n.toInt.natAbs := by
  have hlo := n.le_toInt
  have hmin : n.toInt ≠ -2 ^ 63 := fun heq => h (Int64.toInt_inj.1 heq)
  rw [magnitude]
  split
  · next hneg =>
    rw [Int64.lt_iff_toInt_lt, Int64.toInt_zero] at hneg
    rw [toInt_neg_of_range (by omega)]
    omega
  · next hneg =>
    rw [Int64.lt_iff_toInt_lt, Int64.toInt_zero] at hneg
    omega

theorem magnitude_nonneg {n : Int64} (h : n ≠ Int64.minValue) : 0 ≤ (magnitude n).toInt := by
  rw [toInt_magnitude h]
  exact Int.natCast_nonneg _

theorem mod_magnitude {n s : Int64} (h : n % s = 0) : magnitude n % s = 0 := by
  have hmod := tmod_eq_zero h
  rw [magnitude]
  split
  · have hb : (-n).toInt = -n.toInt ∨ (-n).toInt = n.toInt := by
      have hlo := n.le_toInt
      by_cases hmin : n.toInt = -2 ^ 63
      · rw [Int64.toInt_neg, hmin]
        decide
      · exact .inl (toInt_neg_of_range (by omega))
    apply Int64.toInt_inj.1
    rw [Int64.toInt_mod, Int64.toInt_zero]
    rcases hb with hb | hb
    · rw [hb, Int.neg_tmod, hmod, Int.neg_zero]
    · rw [hb, hmod]
  · exact h

/-- Fields with a direction bit, which lies outside of the magnitude. -/
structure IsSigned (f : ImmediateField) : Prop where
  kind : f.kind = .signMagnitude
  scale : f.scale = 1 ∨ f.scale = 4
  mask : f.mask.toBitVec = BitVec.ofNat 64 (2 ^ f.bits - 1)
  bits : f.bits ≤ 12
  direction : f.directionBit &&& f.mask = 0
  direction_ne : f.directionBit ≠ 0
  maxOffset : f.maxOffset.toInt = f.mask.toInt * f.scale.toInt
  mask_toInt : f.mask.toInt = 2 ^ f.bits - 1

theorem isSigned_field {m : Family} (h : m.field.kind = .signMagnitude) : IsSigned m.field := by
  cases m
  case mode2 | mode3 | mode5 | t2i8 => constructor <;> decide
  all_goals exact absurd h (by decide)

theorem or_and_right (a b c : Int64) : (a ||| b) &&& c = (a &&& c) ||| (b &&& c) := by
  apply Int64.toBitVec.inj
  rw [Int64.toBitVec_and, Int64.toBitVec_or, Int64.toBitVec_or, Int64.toBitVec_and,
    Int64.toBitVec_and]
  ext i hi
  simp only [BitVec.getElem_and, BitVec.getElem_or, Bool.and_or_distrib_right]

section
variable {f : ImmediateField} (hf : f.IsSigned)

include hf

/-- The operand of a magnitude and a direction denotes the signed multiple. -/
theorem IsSigned.decode_or {x : Int64} (hx : x &&& f.mask = x) (negative : Bool) :
    f.decode (x ||| if negative then f.directionBit else 0) =
      if negative then -(x * f.scale) else x * f.scale := by
  have hout : x &&& f.directionBit = 0 := by
    rw [← hx, Int64.and_assoc, Int64.and_comm f.mask, hf.direction, Int64.and_zero]
  cases negative with
  | false => simp [decode, hf.kind, hx, hout]
  | true =>
    have hmask : (x ||| f.directionBit) &&& f.mask = x := by
      rw [or_and_right, hx, hf.direction, Int64.or_zero]
    have hdir : (x ||| f.directionBit) &&& f.directionBit = f.directionBit := by
      rw [or_and_right, hout, Int64.and_self, Int64.zero_or]
    simp [decode, hf.kind, hmask, hdir, hf.direction_ne]

theorem IsSigned.and_mask_of_le {x : Int64} (h0 : 0 ≤ x.toInt) (hx : x.toInt ≤ f.mask.toInt) :
    x &&& f.mask = x := by
  have hlt : x.toBitVec.toNat < 2 ^ f.bits := by
    have hnat : x.toInt = x.toBitVec.toNat := by
      have hint := BitVec.toInt_eq_toNat_cond x.toBitVec
      rw [Int64.toInt_toBitVec] at hint
      have := x.toBitVec.isLt
      split at hint <;> omega
    rw [hf.mask_toInt] at hx
    have hpos : 0 < 2 ^ f.bits := Nat.two_pow_pos _
    have hcast : ((2 ^ f.bits : Nat) : Int) = 2 ^ f.bits := by norm_cast
    omega
  apply Int64.toBitVec.inj
  rw [Int64.toBitVec_and, hf.mask]
  apply BitVec.eq_of_toNat_eq
  have hbits : 2 ^ f.bits ≤ 2 ^ 12 := Nat.pow_le_pow_right (by decide) hf.bits
  rw [BitVec.toNat_and, BitVec.toNat_ofNat, Nat.mod_eq_of_lt (by omega),
    Nat.and_two_pow_sub_one_eq_mod, Nat.mod_eq_of_lt hlt]

/-- The magnitude that the operand does not hold and the part that it does make up all. -/
theorem IsSigned.and_mask_add_rest {q : Int64} :
    (q &&& f.mask) * f.scale + (q * f.scale &&& ~~~(f.mask * f.scale)) = q * f.scale := by
  rcases hf.scale with h | h
  · simp only [h, Int64.mul_one]
    exact and_add_and_not q f.mask
  · rw [h, and_mul_four]
    exact and_add_and_not _ _

/-- A magnitude up to the largest one fits when it is divided by the scale. -/
theorem IsSigned.div_and_mask {offset : Int64} (hmin : offset ≠ Int64.minValue)
    (hle : magnitude offset ≤ f.maxOffset) :
    magnitude offset / f.scale &&& f.mask = magnitude offset / f.scale := by
  have hpos := magnitude_nonneg hmin
  have hle := Int64.le_iff_toInt_le.1 hle
  rw [hf.maxOffset] at hle
  have hscale : f.scale ≠ -1 := by
    rcases hf.scale with h | h <;> rw [h] <;> decide
  have hq : 0 ≤ (magnitude offset / f.scale).toInt ∧
      (magnitude offset / f.scale).toInt ≤ f.mask.toInt := by
    rw [Int64.toInt_div_of_ne_right _ _ hscale]
    rcases hf.scale with h | h
    all_goals
      rw [h] at hle ⊢
      first
      | rw [show (1 : Int64).toInt = 1 from rfl] at *
      | rw [show (4 : Int64).toInt = 4 from rfl] at *
      rw [Int.tdiv_eq_ediv_of_nonneg hpos]
      omega
  exact hf.and_mask_of_le hq.1 hq.2

/-- What a field takes of an offset and what it leaves make up the offset. -/
theorem IsSigned.word_decode_split {offset : Int64} (h : offset % f.scale = 0)
    (hmin : offset ≠ Int64.minValue) :
    word (f.decode (f.split offset).1) + word (f.split offset).2 = word offset := by
  have hscale : f.scale ≠ -1 := by
    rcases hf.scale with h | h <;> rw [h] <;> decide
  have hdiv : magnitude offset / f.scale * f.scale = magnitude offset :=
    div_mul_of_mod hscale (mod_magnitude h)
  have hfit := hf.div_and_mask hmin
  generalize hq : magnitude offset / f.scale = q at hdiv hfit
  simp only [split]
  split
  · next hle =>
    -- All of the magnitude fits.
    have hdec := hf.decode_or (hfit hle) (decide (offset < 0))
    rw [hq, word_zero, add_zero]
    simp only [decide_eq_true_eq] at hdec
    rw [hdec, hdiv, word_magnitude offset]
    split
    · exact word_neg _
    · rfl
  · have hx : q &&& f.mask &&& f.mask = q &&& f.mask := by
      rw [Int64.and_assoc, Int64.and_self]
    have hdec := hf.decode_or hx (decide (offset < 0))
    have hall : word ((q &&& f.mask) * f.scale) +
        word (magnitude offset &&& ~~~(f.mask * f.scale)) = word (magnitude offset) := by
      rw [← word_add, ← hdiv, hf.and_mask_add_rest]
    simp only [decide_eq_true_eq] at hdec
    rw [hq, hdec, word_magnitude offset, ← hall]
    split
    · rw [word_neg, word_neg, neg_add]
    · rfl

end

/-- What a field with a direction takes of an offset and what it leaves make up the offset.
The least integer, which has no magnitude, is zero as a word. -/
theorem word_decode_split {m : Family} (hm : m.field.kind = .signMagnitude) {offset : Int64}
    (h : offset % m.field.scale = 0) :
    word (m.field.decode (m.field.split offset).1) + word (m.field.split offset).2 =
      word offset := by
  by_cases hmin : offset = Int64.minValue
  · subst hmin
    cases m
    case mode2 | mode3 | mode5 | t2i8 => decide
    all_goals exact absurd hm (by decide)
  · exact (isSigned_field hm).word_decode_split h hmin

/-- The same for a field that only adds. -/
theorem word_decode_split_unsigned {f : ImmediateField} (hk : f.kind = .unsigned)
    (hs : f.scale = 1) {offset : Int64} (h : ¬ offset < 0) :
    word (f.decode (f.split offset).1) + word (f.split offset).2 = word offset := by
  have hmag : magnitude offset = offset := by rw [magnitude, if_neg h]
  have hdecode (v : Int64) : f.decode v = v := by simp [decode, hk, hs]
  simp only [hdecode, split, hmag, if_neg h, hs, Int64.div_one, Int64.mul_one, Int64.or_zero]
  split
  · rw [word_zero, add_zero]
  · rw [← word_add, and_add_and_not]

end ImmediateField

/-! ## Loads and stores -/

/-- Opcodes that differ only in the width and sign of their immediate offset. -/
structure Opcode.SameShape (a b : Opcode) : Prop where
  form : a = b ∨ a = b.negativeForm
  flags : a.info.flags = b.info.flags
  predicate : a.info.predicate = b.info.predicate
  position : a.info.family.field.position = b.info.family.field.position
  indexed : a.info.family.isIndexed = b.info.family.isIndexed
  foldable : a.info.family.isFoldable = b.info.family.isFoldable
  access : a.access? = b.access?

theorem Opcode.SameShape.refl (a : Opcode) : a.SameShape a :=
  ⟨.inl rfl, rfl, rfl, rfl, rfl, rfl, rfl⟩

theorem Family.eq_t2i12 {m : Family} (h : m.isFoldable) (hk : m.field.kind = .unsigned) :
    m = .t2i12 := by
  cases m
  case t2i12 => rfl
  case t1s => exact absurd h (by decide)
  all_goals exact absurd hk (by decide)

/-- The opcode for negative offsets. -/
theorem Opcode.negativeForm_facts {op : Opcode} (h : op.info.family = .t2i12) :
    op.negativeForm.SameShape op ∧ op.negativeForm.info.family = .t2i8 := by
  cases op
  case t2ldri12 | t2stri12 => exact ⟨⟨.inr rfl, rfl, rfl, rfl, rfl, rfl, rfl⟩, rfl⟩
  all_goals exact absurd h (by decide)

/-- A negative offset changes the opcode only where the field cannot subtract. -/
theorem Inst.orient_cases (i : Inst) (offset : Int64) (h : i.info.family.isFoldable) :
    (i.orient offset = i ∧ (i.info.family.field.kind = .unsigned → ¬ offset < 0)) ∨
      i.orient offset = ⟨i.op.negativeForm, i.operands⟩ ∧ i.info.family = .t2i12 := by
  by_cases hneg : offset < 0 ∧ i.info.family.field.kind = .unsigned
  · right
    rw [orient, if_pos (by simpa using hneg)]
    exact ⟨rfl, Family.eq_t2i12 h hneg.2⟩
  · left
    rw [orient, if_neg (by simpa using hneg)]
    exact ⟨rfl, fun hk hlt => hneg ⟨hlt, hk⟩⟩

/-- An instruction with a new base and a new immediate offset. -/
def Inst.withOffset (i : Inst) (op : Opcode) (place immediate : Nat) (base : Reg) (v : Int64) :
    Inst :=
  ⟨op, (i.operands.set place (.use base)).set immediate (.imm v)⟩

/-- What an offset folded into a load or store leaves. -/
theorem Inst.foldOffset_cases {i i' : Inst} {place immediate : Nat} {base : Reg}
    {offset rest : Int64} (hfold : i.info.family.isFoldable)
    (hscale : offset % i.info.family.field.scale = 0)
    (h : i.foldOffset place immediate base offset = ⟨i', .ok rest⟩) :
    (i.info.family.field.kind = .absent ∧ i' = i.setOperand place (.use base) ∧ rest = offset) ∨
      ∃ op v, i' = i.withOffset op place immediate base v ∧ op.SameShape i.op ∧
        ImmediateField.word (op.info.family.field.decode v) + ImmediateField.word rest =
          ImmediateField.word offset := by
  rcases i.orient_cases offset hfold with ⟨horient, hneg⟩ | ⟨horient, hfam⟩
  · have hinfo : (i.setOperand place (.use base)).info = i.info := rfl
    simp only [foldOffset, horient, hinfo] at h
    cases hk : i.info.family.field.kind with
    | absent =>
      simp only [hk, Folded.mk.injEq, Except.ok.injEq] at h
      exact .inl ⟨rfl, h.1.symm, h.2.symm⟩
    | unsigned =>
      have hone : i.info.family.field.scale = 1 := by rw [Family.eq_t2i12 hfold hk]; rfl
      simp only [hk, if_neg (hneg hk), Folded.mk.injEq, Except.ok.injEq] at h
      obtain ⟨rfl, rfl⟩ := h
      exact .inr ⟨i.op, _, rfl, .refl _,
        ImmediateField.word_decode_split_unsigned hk hone (hneg hk)⟩
    | signMagnitude =>
      simp only [hk, Folded.mk.injEq, Except.ok.injEq] at h
      obtain ⟨rfl, rfl⟩ := h
      exact .inr ⟨i.op, _, rfl, .refl _, ImmediateField.word_decode_split hk hscale⟩
    | rotated =>
      exfalso
      revert hfold hk
      cases i.info.family <;> decide
  · obtain ⟨hshape, hform⟩ := Opcode.negativeForm_facts hfam
    have hinfo : ((⟨i.op.negativeForm, i.operands⟩ : Inst).setOperand place (.use base)).info =
        i.op.negativeForm.info := rfl
    have hk : i.op.negativeForm.info.family.field.kind = .signMagnitude := by rw [hform]; rfl
    simp only [foldOffset, horient, hinfo, hk, Folded.mk.injEq, Except.ok.injEq] at h
    obtain ⟨rfl, rfl⟩ := h
    refine .inr ⟨_, _, rfl, hshape, ImmediateField.word_decode_split hk ?_⟩
    rw [hform]
    rw [hfam] at hscale
    exact hscale

/-- What an offset folded into a load or store through a frame index leaves. -/
theorem Inst.foldMemory_cases {i i' : Inst} {place : Nat} {base : Reg} {offset rest : Int64}
    (h : i.foldMemory place base offset = ⟨i', .ok rest⟩) :
    i.info.family.isFoldable ∧ ∃ position v, i.info.family.field.position = some position ∧
      i.operands[place + position]? = some (.imm v) ∧
      ((i.info.family.field.kind = .absent ∧ i' = i.setOperand place (.use base) ∧
          rest = offset) ∨
        ∃ op v', i' = i.withOffset op place (place + position) base v' ∧ op.SameShape i.op ∧
          ImmediateField.word (op.info.family.field.decode v') + ImmediateField.word rest =
            ImmediateField.word (i.info.family.field.decode v) + ImmediateField.word offset) := by
  simp only [foldMemory] at h
  cases hfold : i.info.family.isFoldable with
  | false => simp [hfold] at h
  | true =>
    cases hpos : i.info.family.field.position with
    | none => simp [hfold, hpos] at h
    | some position =>
      simp only [hfold, hpos] at h
      cases hop : i.operands[place + position]? with
      | none => simp [hop] at h
      | some o =>
        cases o with
        | imm v =>
          simp only [hop] at h
          split at h
          · simp at h
          · next hscale =>
            rcases foldOffset_cases hfold (not_not.1 hscale) h with
              ⟨hk, hi', hrest⟩ | ⟨op, v', hi', hshape, hword⟩
            · refine ⟨rfl, position, v, rfl, hop, .inl ⟨hk, hi', ?_⟩⟩
              rw [hrest, ImmediateField.decode, hk, Int64.add_zero]
            · refine ⟨rfl, position, v, rfl, hop, .inr ⟨op, v', hi', hshape, ?_⟩⟩
              rw [hword, ImmediateField.word_add, add_comm]
        | _ => simp [hop] at h

/-- Instructions of one family, in either direction, leave the same of an offset. -/
theorem Inst.rest_foldOffset {i j : Inst} {place immediate : Nat} {base : Reg} {offset : Int64}
    (h : i.info.family = j.info.family)
    (hnegative : i.op.negativeForm.info.family = j.op.negativeForm.info.family) :
    (i.foldOffset place immediate base offset).rest =
      (j.foldOffset place immediate base offset).rest := by
  have horient : (i.orient offset).info.family = (j.orient offset).info.family := by
    simp only [orient, h]
    split
    · exact hnegative
    · exact h
  have hinfo (k : Inst) : (k.setOperand place (.use base)).info = k.info := rfl
  simp only [foldOffset, hinfo, horient]
  generalize (j.orient offset).info.family.field = f
  cases f.kind with
  | unsigned =>
    simp only
    split <;> rfl
  | _ => rfl

theorem Inst.rest_foldMemory {i j : Inst} {place : Nat} {base : Reg} {offset : Int64}
    (h : i.info.family = j.info.family)
    (hnegative : i.op.negativeForm.info.family = j.op.negativeForm.info.family)
    (hoperands : ∀ n, i.operands[place + n]? = j.operands[place + n]?) :
    (i.foldMemory place base offset).rest = (j.foldMemory place base offset).rest := by
  simp only [foldMemory, h]
  cases j.info.family.isFoldable with
  | false => rfl
  | true =>
    cases j.info.family.field.position with
    | none => rfl
    | some position =>
      simp only [hoperands]
      cases j.operands[place + position]? with
      | none => rfl
      | some o =>
        cases o with
        | imm v =>
          simp only
          split
          · rfl
          · exact rest_foldOffset h hnegative
        | _ => rfl

/-! ## Additions -/

/-- The part of a magnitude that is no rotated immediate as a whole, and the rest. -/
theorem ImmediateField.word_chunk_rest (mag : Int64) :
    word (Int64.ofNat (RotatedImmediate.chunk (word mag)).toNat) +
      word (mag &&& ~~~Int64.ofNat (RotatedImmediate.chunk (word mag)).toNat) = word mag := by
  generalize hc : Int64.ofNat (RotatedImmediate.chunk (word mag)).toNat = c
  have hword : word c = RotatedImmediate.chunk (word mag) := by
    rw [← hc, word_ofNat_toNat]
  have hrest : word (mag &&& ~~~c) = word mag &&& ~~~word c := by
    simp [word]
  rw [hrest, hword, RotatedImmediate.chunk_add_rest]

/-- What an offset folded into an addition leaves. -/
theorem WideSet.foldAdd_cases {s : WideSet} {i i' : Inst} {place : Nat} {base : Reg}
    {offset rest : Int64} (hop : i.op = s.add)
    (h : s.foldAdd i place base offset = ⟨i', .ok rest⟩) :
    ∃ v, i.operands[place + 1]? = some (.imm v) ∧
      ((i' = ⟨s.move, (i.operands.set place (.use base)).eraseIdx (place + 1)⟩ ∧
          ImmediateField.word rest = ImmediateField.word v + ImmediateField.word offset) ∨
        ∃ negative m, i' = i.withOffset (s.arith negative) place (place + 1) base m ∧
          signed negative (ImmediateField.word m) + ImmediateField.word rest =
            ImmediateField.word v + ImmediateField.word offset) := by
  rw [foldAdd] at h
  cases hv : i.operands[place + 1]? with
  | none => simp [hv] at h
  | some o =>
    cases o with
    | imm v =>
      refine ⟨v, rfl, ?_⟩
      simp only [hv] at h
      have hsum : ImmediateField.word (offset + v) =
          ImmediateField.word v + ImmediateField.word offset := by
        rw [ImmediateField.word_add, add_comm]
      have hsigned : (if offset + v < 0 then ({ i with op := s.sub } : Inst) else i) =
          ⟨s.arith (decide (offset + v < 0)), i.operands⟩ := by
        by_cases hneg : offset + v < 0
        · simp [hneg, arith]
        · simp [hneg, arith, ← hop]
      rw [hsigned] at h
      rw [← hsum]
      split at h
      · next hzero =>
        simp only [Folded.mk.injEq, Except.ok.injEq] at h
        obtain ⟨rfl, rfl⟩ := h
        exact .inl ⟨rfl, by rw [hzero]⟩
      · split at h
        · simp at h
        · split at h
          · -- all of the sum is a rotated immediate
            simp only [Folded.mk.injEq, Except.ok.injEq] at h
            obtain ⟨rfl, rfl⟩ := h
            refine .inr ⟨_, _, rfl, ?_⟩
            rw [ImmediateField.word_zero, add_zero, ImmediateField.word_magnitude (offset + v)]
            simp [signed]
          · simp only [Folded.mk.injEq, Except.ok.injEq] at h
            obtain ⟨rfl, rfl⟩ := h
            refine .inr ⟨_, _, rfl, ?_⟩
            -- one part is folded, and the rest has the sign of the sum
            have hall := ImmediateField.word_chunk_rest (ImmediateField.magnitude (offset + v))
            rw [ImmediateField.word_magnitude (offset + v)]
            by_cases hneg : offset + v < 0
            · simp only [signed, hneg, decide_true, if_true, ImmediateField.word_neg]
              rw [← neg_add, hall]
            · simp only [signed, hneg, decide_false, if_false, Bool.false_eq_true]
              exact hall
    | _ => simp [hv] at h

/-! ## What an instruction adds to its base -/

/-- What an addition, subtraction or move adds to the register it reads, from its
immediate. -/
def Opcode.addend? (op : Opcode) (v : Word) : Option Word :=
  match op with
  | .addri | .t2addri => some v
  | .subri | .t2subri => some (-v)
  | .movr | .t2movr => some 0
  | _ => none

namespace Inst

/-- What an instruction adds to the register in its base operand, to form an address or a
sum. -/
def beyond (i : Inst) (s : State) : Word :=
  (i.op.addend? (ImmediateField.word (i.immediate 2))).getD
    (i.indexValue s + ImmediateField.word i.displacement)

/-- An instruction that forms the same address or sum as another does on a base that is
`offset` bytes away from the register `base`, if `rest` is added to that register. -/
structure Folds (i i' : Inst) (base : Reg) (offset rest : Int64) : Prop where
  base : i'.operands[1]? = some (.use base)
  dst : i'.operands[0]? = i.operands[0]?
  predicate : i'.predicate = i.predicate
  flags : i'.info.flags = i.info.flags
  access : i'.op.access? = i.op.access?
  addend : (i'.op.addend? 0).isSome = (i.op.addend? 0).isSome
  index : i.info.family.isIndexed → i'.operands[2]? = i.operands[2]?
  beyond : ∀ s, i'.beyond s + ImmediateField.word rest = i.beyond s + ImmediateField.word offset

end Inst

theorem Opcode.addend?_of_foldable {op : Opcode} (h : op.info.family.isFoldable) (v : Word) :
    op.addend? v = none := by
  cases op
  case addri | t2addri | subri | t2subri | movr | t2movr => exact absurd h (by decide)
  all_goals rfl

/-- The immediate of a load or store stands before the operands that predicate it. -/
theorem Opcode.position_lt_predicate {op : Opcode} {k p : Nat} (h : op.info.family.isFoldable)
    (hk : op.info.family.field.position = some k) (hp : op.info.predicate = some p) :
    1 + k < p := by
  cases op
  case inlineAsm => cases hp
  all_goals first
    | exact absurd h (by decide)
    | (cases hk; cases hp; decide)

theorem Family.position_of_isIndexed {m : Family} {k : Nat} (h : m.isIndexed)
    (hk : m.field.position = some k) : k = 2 := by
  cases m
  case mode2 | mode3 | t2so => exact (Option.some.inj hk).symm
  all_goals exact absurd h (by decide)

theorem Family.position_pos {m : Family} {k : Nat} (hk : m.field.position = some k) : 0 < k := by
  cases m <;> cases hk <;> decide

theorem Inst.predicate_congr {i j : Inst} (h : i.info.predicate = j.info.predicate)
    (hops : ∀ p, j.info.predicate = some p →
      i.operands[p]? = j.operands[p]? ∧ i.operands[p + 1]? = j.operands[p + 1]?) :
    i.predicate = j.predicate := by
  rw [predicate, predicate, h]
  cases hp : j.info.predicate with
  | none => rfl
  | some p =>
    obtain ⟨h0, h1⟩ := hops p hp
    simp only [h0, h1]

section
variable {i : Inst} {base : Reg} {offset rest : Int64}

theorem Inst.folds_withOffset {op : Opcode} {k : Nat} {v v' : Int64}
    (hfold : i.info.family.isFoldable)
    (hk : i.info.family.field.position = some k) (hv : i.operands[1 + k]? = some (.imm v))
    (hshape : op.SameShape i.op)
    (hword : ImmediateField.word (op.info.family.field.decode v') + ImmediateField.word rest =
      ImmediateField.word (i.info.family.field.decode v) + ImmediateField.word offset) :
    i.Folds (i.withOffset op 1 (1 + k) base v') base offset rest := by
  have hpos := Family.position_pos hk
  obtain ⟨hlen, -⟩ := List.getElem?_eq_some_iff.1 hv
  have hget (n : Nat) (h1 : n ≠ 1) (hn : n ≠ 1 + k) :
      (i.withOffset op 1 (1 + k) base v').operands[n]? = i.operands[n]? := by
    rw [withOffset, List.getElem?_set_ne (Ne.symm hn), List.getElem?_set_ne (Ne.symm h1)]
  have hfold' : op.info.family.isFoldable := hshape.foldable.trans hfold
  have hdisp : (i.withOffset op 1 (1 + k) base v').displacement =
      op.info.family.field.decode v' := by
    have hk' : op.info.family.field.position = some k := hshape.position.trans hk
    have himm : (i.withOffset op 1 (1 + k) base v').immediate (1 + k) = v' := by
      rw [immediate, withOffset, List.getElem?_set_self (by simpa using hlen)]
      rfl
    have hinfo : (i.withOffset op 1 (1 + k) base v').info = op.info := rfl
    simp only [displacement, hinfo, hk', himm]
  have hdisp0 : i.displacement = i.info.family.field.decode v := by
    rw [displacement, hk]
    simp only [immediate, hv]
    rfl
  -- an index register comes before the field and stays
  have htwo (hx : i.info.family.isIndexed) :
      (i.withOffset op 1 (1 + k) base v').operands[2]? = i.operands[2]? := by
    obtain rfl := Family.position_of_isIndexed hx hk
    exact hget 2 (by decide) (by decide)
  have hindex (s : State) : (i.withOffset op 1 (1 + k) base v').indexValue s = i.indexValue s := by
    show (if op.info.family.isIndexed then _ else _) = _
    rw [indexValue, show op.info.family.isIndexed = i.info.family.isIndexed from hshape.indexed]
    by_cases hx : i.info.family.isIndexed
    · rw [if_pos hx, if_pos hx, register, register, htwo hx]
    · rw [if_neg hx, if_neg hx]
  refine ⟨?_, hget 0 (by omega) (by omega), ?_, hshape.flags, hshape.access, ?_, htwo, fun s => ?_⟩
  · rw [withOffset, List.getElem?_set_ne (by omega), List.getElem?_set_self (by omega)]
  · refine predicate_congr hshape.predicate fun p hp => ?_
    have hlt := Opcode.position_lt_predicate hfold hk hp
    exact ⟨hget p (by omega) (by omega), hget (p + 1) (by omega) (by omega)⟩
  · rw [Opcode.addend?_of_foldable hfold]
    show (op.addend? 0).isSome = _
    rw [Opcode.addend?_of_foldable hfold']
  · have hnone := Opcode.addend?_of_foldable hfold (ImmediateField.word (i.immediate 2))
    have hnone' := Opcode.addend?_of_foldable hfold'
      (ImmediateField.word ((i.withOffset op 1 (1 + k) base v').immediate 2))
    rw [beyond, beyond, hnone]
    show (op.addend? _).getD _ + _ = _
    rw [hnone', Option.getD_none, Option.getD_none, hindex, hdisp, hdisp0, add_assoc, hword,
      add_assoc]

end

namespace Inst

theorem getElem?_setOperand_one {i : Inst} {o : Operand} {n : Nat} (hn : n ≠ 1) :
    (i.setOperand 1 o).operands[n]? = i.operands[n]? :=
  List.getElem?_set_ne (Ne.symm hn)

theorem immediate_setOperand_one (i : Inst) (o : Operand) {n : Nat} (hn : n ≠ 1) :
    (i.setOperand 1 o).immediate n = i.immediate n := by
  rw [immediate, immediate, getElem?_setOperand_one hn]

theorem displacement_setOperand_one (i : Inst) (o : Operand) :
    (i.setOperand 1 o).displacement = i.displacement := by
  have hinfo : (i.setOperand 1 o).info = i.info := rfl
  rw [displacement, displacement, hinfo]
  cases hk : i.info.family.field.position with
  | none => rfl
  | some k =>
    have := Family.position_pos hk
    show i.info.family.field.decode _ = _
    rw [immediate_setOperand_one i o (n := 1 + k) (by omega)]

/-- What an instruction adds to its base does not depend on the base. -/
theorem beyond_setOperand_one (i : Inst) (o : Operand) (s : State) :
    (i.setOperand 1 o).beyond s = i.beyond s := by
  have hreg : (i.setOperand 1 o).register 2 = i.register 2 := by
    rw [register, register, getElem?_setOperand_one (by decide)]
  have hindex : (i.setOperand 1 o).indexValue s = i.indexValue s := by
    show (if i.info.family.isIndexed then _ else _) = _
    rw [indexValue, hreg]
  show (i.op.addend? _).getD _ = _
  rw [beyond, immediate_setOperand_one i o (by decide), displacement_setOperand_one, hindex]

/-- Predicates that stand after the base do not depend on it. -/
theorem predicate_setOperand_one {i : Inst} (o : Operand)
    (h : ∀ p, i.info.predicate = some p → 1 < p) :
    (i.setOperand 1 o).predicate = i.predicate := by
  refine predicate_congr rfl fun p hp => ?_
  have := h p hp
  exact ⟨getElem?_setOperand_one (by omega), getElem?_setOperand_one (by omega)⟩

end Inst

section
variable {i i' : Inst} {base : Reg} {offset rest : Int64}

theorem Inst.folds_setOperand {o : Operand} (hone : i.operands[1]? = some o)
    (hp : ∀ p, i.info.predicate = some p → 1 < p) :
    i.Folds (i.setOperand 1 (.use base)) base offset offset := by
  obtain ⟨hlen, -⟩ := List.getElem?_eq_some_iff.1 hone
  refine ⟨List.getElem?_set_self hlen, getElem?_setOperand_one (by decide),
    predicate_setOperand_one _ hp, rfl, rfl, rfl, fun _ => getElem?_setOperand_one (by decide),
    fun s => ?_⟩
  rw [beyond_setOperand_one]

/-- An offset folded into a load or store through the frame index in its base operand. -/
theorem Inst.folds_of_foldMemory {o : Operand} (hone : i.operands[1]? = some o)
    (h : i.foldMemory 1 base offset = ⟨i', .ok rest⟩) : i.Folds i' base offset rest := by
  obtain ⟨hfold, k, v, hk, hv, hcases⟩ := foldMemory_cases h
  rcases hcases with ⟨-, rfl, rfl⟩ | ⟨op, v', rfl, hshape, hword⟩
  · refine folds_setOperand hone fun p hp => ?_
    have := Opcode.position_lt_predicate hfold hk hp
    omega
  · exact folds_withOffset hfold hk hv hshape hword

/-- An offset folded into an addition to the frame index in its base operand. -/
theorem Inst.folds_of_foldAdd {s : WideSet} {o : Operand} (hop : i.op = s.add)
    (hone : i.operands[1]? = some o) (h : s.foldAdd i 1 base offset = ⟨i', .ok rest⟩) :
    i.Folds i' base offset rest := by
  obtain ⟨hlen, -⟩ := List.getElem?_eq_some_iff.1 hone
  obtain ⟨op, os⟩ := i
  subst hop
  obtain ⟨v, hv, hcases⟩ := WideSet.foldAdd_cases rfl h
  obtain ⟨hlen2, -⟩ := List.getElem?_eq_some_iff.1 hv
  have hsum (x : State) : (⟨s.add, os⟩ : Inst).beyond x = ImmediateField.word v := by
    have himm : (⟨s.add, os⟩ : Inst).immediate 2 = v := by
      rw [immediate, hv]
      rfl
    cases s <;> exact congrArg ImmediateField.word himm
  have hplain : ¬ (⟨s.add, os⟩ : Inst).info.family.isIndexed := by
    cases s <;> exact Bool.false_ne_true
  rcases hcases with ⟨rfl, hword⟩ | ⟨negative, m, rfl, hword⟩
  · -- the sum is zero, and the addition becomes a move without the immediate
    have hget (n : Nat) (hn : n < 2) :
        ((os.set 1 (.use base)).eraseIdx 2)[n]? = (os.set 1 (.use base))[n]? := by
      rw [List.getElem?_eraseIdx, if_pos hn]
    have hlast (n : Nat) (hn : 2 ≤ n) : ((os.set 1 (.use base)).eraseIdx 2)[n]? = os[n + 1]? := by
      rw [List.getElem?_eraseIdx, if_neg (by omega), List.getElem?_set_ne (by omega)]
    refine ⟨?_, ?_, ?_, by cases s <;> rfl, by cases s <;> rfl, by cases s <;> rfl,
      fun hx => absurd hx hplain, fun x => ?_⟩
    · exact (hget 1 (by decide)).trans (List.getElem?_set_self hlen)
    · exact (hget 0 (by decide)).trans (List.getElem?_set_ne (by decide))
    · have h2 := hlast 2 (by decide)
      have h3 := hlast 3 (by decide)
      simp only [Nat.reduceAdd] at h2 h3
      cases s <;> simp only [predicate, info, WideSet.move, WideSet.add, Opcode.info,
        Opcode.moveInfo, Opcode.dataInfo, Nat.reduceAdd, h2, h3]
    · rw [hsum, ← hword]
      cases s <;> exact zero_add _
  · -- the immediate is replaced by a part of the sum
    have hget (n : Nat) (h1 : n ≠ 1) (h2 : n ≠ 2) :
        ((os.set 1 (.use base)).set 2 (.imm m))[n]? = os[n]? := by
      rw [List.getElem?_set_ne (Ne.symm h2), List.getElem?_set_ne (Ne.symm h1)]
    refine ⟨?_, hget 0 (by decide) (by decide), ?_, ?_, ?_, ?_, fun hx => absurd hx hplain, fun x => ?_⟩
    · exact (List.getElem?_set_ne (by decide)).trans (List.getElem?_set_self hlen)
    · refine predicate_congr (by cases s <;> cases negative <;> rfl) fun p hp => ?_
      obtain rfl : p = 3 := by cases s <;> exact (Option.some.inj hp).symm
      exact ⟨hget 3 (by decide) (by decide), hget 4 (by decide) (by decide)⟩
    · cases s <;> cases negative <;> rfl
    · cases s <;> cases negative <;> rfl
    · cases s <;> cases negative <;> rfl
    · rw [hsum, ← hword]
      congr 1
      have himm : (withOffset ⟨s.add, os⟩ (s.arith negative) 1 2 base m).immediate 2 = m := by
        rw [immediate, withOffset, List.getElem?_set_self (by simpa using hlen2)]
        rfl
      cases s <;> cases negative
      case arm.false | thumb2.false => exact congrArg ImmediateField.word himm
      case arm.true | thumb2.true =>
        exact congrArg (fun v => -ImmediateField.word v) himm

end

namespace Target

/-- An offset folded into an instruction through the frame index in its base operand. -/
theorem folds_of_fold {t : Target} {s : WideSet} {i i' : Inst} {a : Address} {o : Operand}
    {rest : Int64} (hone : i.operands[1]? = some o) (h : t.fold s i 1 a = ⟨i', .ok rest⟩) :
    i.Folds i' a.base a.offset rest := by
  rw [fold] at h
  split at h
  · next hop => exact Inst.folds_of_foldAdd hop hone h
  · exact Inst.folds_of_foldMemory hone h

/-- Folding an offset in names no register but the base, and leaves the instruction one of
its kind. -/
theorem fold_operands {t : Target} {s : WideSet} {i i' : Inst} {place : Nat} {a : Address}
    {rest : Int64} (h : t.fold s i place a = ⟨i', .ok rest⟩) :
    i'.info.flags = i.info.flags ∧
      ∀ o ∈ i'.operands, o ∈ i.operands ∨ o = .use a.base ∨ ∃ v, o = .imm v := by
  -- both folds set the base and an immediate
  have hset {os : List Operand} {o : Operand} {n m : Nat} {v : Int64}
      (ho : o ∈ (os.set n (.use a.base)).set m (.imm v)) :
      o ∈ os ∨ o = .use a.base ∨ ∃ v, o = .imm v := by
    rcases List.mem_or_eq_of_mem_set ho with ho | rfl
    · rcases List.mem_or_eq_of_mem_set ho with ho | rfl
      · exact .inl ho
      · exact .inr (.inl rfl)
    · exact .inr (.inr ⟨v, rfl⟩)
  rw [fold] at h
  split at h
  · next hop =>
    obtain ⟨v, -, ⟨rfl, -⟩ | ⟨negative, m, rfl, -⟩⟩ := WideSet.foldAdd_cases hop h
    · refine ⟨?_, fun o ho => ?_⟩
      · show s.move.info.flags = i.op.info.flags
        rw [hop]
        cases s <;> rfl
      · rcases List.mem_or_eq_of_mem_set (List.mem_of_mem_eraseIdx ho) with ho | rfl
        · exact .inl ho
        · exact .inr (.inl rfl)
    · refine ⟨?_, fun o ho => hset ho⟩
      show (s.arith negative).info.flags = i.op.info.flags
      rw [hop]
      cases s <;> cases negative <;> rfl
  · obtain ⟨-, k, v, -, -, ⟨-, rfl, -⟩ | ⟨op, v', rfl, hshape, -⟩⟩ := Inst.foldMemory_cases h
    · refine ⟨rfl, fun o ho => ?_⟩
      rcases List.mem_or_eq_of_mem_set ho with ho | rfl
      · exact .inl ho
      · exact .inr (.inl rfl)
    · exact ⟨hshape.flags, fun o ho => hset ho⟩

/-- Returns and calls take no offset. -/
theorem flags_of_fold {t : Target} {s : WideSet} {i i' : Inst} {place : Nat} {a : Address}
    {rest : Int64} (h : t.fold s i place a = ⟨i', .ok rest⟩) :
    i.info.flags.isReturn = false ∧ i.info.flags.isCall = false := by
  rw [fold] at h
  split at h
  · next hop =>
    show i.op.info.flags.isReturn = false ∧ i.op.info.flags.isCall = false
    rw [hop]
    cases s <;> exact ⟨rfl, rfl⟩
  · have hfold : i.op.info.family.isFoldable := (Inst.foldMemory_cases h).1
    show i.op.info.flags.isReturn = false ∧ i.op.info.flags.isCall = false
    revert hfold
    cases i.op <;> decide

/-- Operands that predicate an instruction with a folded offset come after its base. -/
theorem predicate_of_fold {t : Target} {s : WideSet} {i i' : Inst} {place n : Nat} {a : Address}
    {rest : Int64} (h : t.fold s i place a = ⟨i', .ok rest⟩) (hn : i'.info.predicate = some n) :
    1 < n := by
  rw [fold] at h
  split at h
  · next hop =>
    obtain ⟨v, -, ⟨rfl, -⟩ | ⟨negative, m, rfl, -⟩⟩ := WideSet.foldAdd_cases hop h
    · change s.move.info.predicate = some n at hn
      cases s <;> cases hn <;> decide
    · change (s.arith negative).info.predicate = some n at hn
      cases s <;> cases negative <;> cases hn <;> decide
  · obtain ⟨hfold, k, v, hk, -, hcases⟩ := Inst.foldMemory_cases h
    have hi : i.info.predicate = some n := by
      rcases hcases with ⟨-, rfl, -⟩ | ⟨op, v', rfl, hshape, -⟩
      · exact hn
      · exact hshape.predicate.symm.trans hn
    have := Opcode.position_lt_predicate hfold hk hi
    omega

end Target

end FrameLowering
