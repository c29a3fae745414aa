import FrameLowering.Proofs.EncodedOffsets

/-!
# Offsets that a field holds

An offset fits a field if the field has an operand for it. What the operands of a field denote are
the multiples of its scale up to the largest magnitude, in one direction or in both
(`exists_decode_unsigned_iff`, `exists_decode_signed_iff`). The check takes the magnitude of the
offset first. That goes wrong for the least integer, which is its own magnitude, is a multiple of
every scale and is not above any limit: a field with a direction takes it, but none of its operands
denotes it (`fits_least`). There is no other such offset (`fits_iff_exists_decode`).
-/

namespace FrameLowering

namespace ImmediateField

/-- What can stand in the operand of a field: nothing but zero if there is no offset, and otherwise
a magnitude, with a direction bit if there is one. -/
def IsOperand (f : ImmediateField) (v : Int64) : Prop :=
  match f.kind with
  | .absent => v = 0
  | .unsigned | .rotated => 0 ≤ v ∧ v ≤ f.mask
  | .signMagnitude => 0 ≤ v ∧ v ≤ f.mask + f.directionBit

/-- Fields that hold multiples of a scale, none of which is near the end of the integers. -/
structure IsScaled (f : ImmediateField) : Prop where
  scale : f.scale.toInt = 1 ∨ f.scale.toInt = 4
  mask : 0 ≤ f.mask.toInt ∧ f.mask.toInt < 2 ^ 12
  maxOffset : f.maxOffset.toInt = f.mask.toInt * f.scale.toInt

theorem isScaled_field {m : Family}
    (h : m.field.kind = .unsigned ∨ m.field.kind = .signMagnitude) : m.field.IsScaled := by
  cases m
  case plain | mode1 | t2so => exact absurd h (by decide)
  all_goals constructor <;> decide

theorem mod_eq_zero_iff {n s : Int64} : n % s = 0 ↔ s.toInt ∣ n.toInt := by
  rw [← Int64.toInt_inj, Int64.toInt_mod, Int64.toInt_zero]
  exact ⟨Int.dvd_of_tmod_eq_zero, Int.tmod_eq_zero_of_dvd⟩

theorem holds_iff {f : ImmediateField} {mag : Int64} :
    f.holds mag ↔ f.scale.toInt ∣ mag.toInt ∧ mag.toInt ≤ f.maxOffset.toInt := by
  rw [holds, Bool.and_eq_true, decide_eq_true_eq, decide_eq_true_eq, mod_eq_zero_iff,
    Int64.le_iff_toInt_le]

section
variable {f : ImmediateField} (hf : f.IsScaled) {x offset : Int64}

include hf

theorem IsScaled.scale_ne : f.scale ≠ -1 := by
  intro h
  have hscale := hf.scale
  rw [h] at hscale
  exact absurd hscale (by decide)

theorem IsScaled.toInt_mul (h0 : 0 ≤ x.toInt) (hx : x.toInt ≤ f.mask.toInt) :
    (x * f.scale).toInt = x.toInt * f.scale.toInt := by
  have := hf.mask
  apply toInt_mul_of_range
  · rcases hf.scale with h | h <;> rw [h] <;> omega
  · rcases hf.scale with h | h <;> rw [h] <;> omega

theorem IsScaled.maxOffset_lt : f.maxOffset.toInt < 2 ^ 14 := by
  have := hf.mask
  rw [hf.maxOffset]
  rcases hf.scale with h | h <;> rw [h] <;> omega

/-- The multiples of the scale that are not below zero are those of a magnitude. -/
theorem IsScaled.exists_mul_iff :
    (∃ x : Int64, 0 ≤ x.toInt ∧ x.toInt ≤ f.mask.toInt ∧ x * f.scale = offset) ↔
      f.scale.toInt ∣ offset.toInt ∧ 0 ≤ offset.toInt ∧ offset.toInt ≤ f.maxOffset.toInt := by
  rw [hf.maxOffset]
  constructor
  · rintro ⟨x, h0, hx, rfl⟩
    rw [hf.toInt_mul h0 hx]
    refine ⟨Int.dvd_mul_left _ _, ?_⟩
    rcases hf.scale with h | h <;> rw [h] <;> omega
  · rintro ⟨hdvd, hlo, hhi⟩
    have hq : (offset / f.scale).toInt = offset.toInt / f.scale.toInt := by
      rw [Int64.toInt_div_of_ne_right _ _ hf.scale_ne, Int.tdiv_eq_ediv_of_nonneg hlo]
    refine ⟨offset / f.scale, ?_, ?_, div_mul_of_mod hf.scale_ne (mod_eq_zero_iff.2 hdvd)⟩
    · rw [hq]
      rcases hf.scale with h | h <;> rw [h] <;> omega
    · rw [hq]
      rcases hf.scale with h | h <;> rw [h] at hhi ⊢ <;> omega

end

/-! ## Magnitudes and directions -/

/-- Numbers that have no bit in common add up without a carry. -/
theorem or_eq_add {a b : Int64} (h : a &&& b = 0) : a ||| b = a + b := by
  apply Int64.toBitVec.inj
  rw [Int64.toBitVec_or, Int64.toBitVec_add, BitVec.add_eq_or_of_and_eq_zero]
  rw [← Int64.toBitVec_and, h]
  rfl

section
variable {m : Family} (hm : m.field.kind = .signMagnitude) {v offset : Int64}

include hm

theorem toInt_directionBit : m.field.directionBit.toInt = m.field.mask.toInt + 1 := by
  cases m
  case mode2 | mode3 | mode5 | t2i8 => decide
  all_goals exact absurd hm (by decide)

theorem and_mask_range (v : Int64) :
    0 ≤ (v &&& m.field.mask).toInt ∧ (v &&& m.field.mask).toInt ≤ m.field.mask.toInt := by
  have hmask : m.field.mask.toBitVec.toNat < 2 ^ 12 := by
    cases m
    case mode2 | mode3 | mode5 | t2i8 => decide
    all_goals exact absurd hm (by decide)
  have hle : (v &&& m.field.mask).toBitVec.toNat ≤ m.field.mask.toBitVec.toNat := by
    rw [Int64.toBitVec_and, BitVec.toNat_and]
    exact Nat.and_le_right
  have hval := toInt_of_toNat (v := v &&& m.field.mask) (by omega)
  have hmax := toInt_of_toNat (v := m.field.mask) (by omega)
  omega

/-- A magnitude with or without the direction bit on top is an operand. -/
theorem isOperand_or {x : Int64} (h0 : 0 ≤ x.toInt) (hx : x.toInt ≤ m.field.mask.toInt)
    (negative : Bool) :
    m.field.IsOperand (x ||| if negative then m.field.directionBit else 0) := by
  have hsigned := isSigned_field hm
  have hmask := (isScaled_field (.inr hm)).mask
  have hbit := toInt_directionBit hm
  have hmax : (m.field.mask + m.field.directionBit).toInt =
      m.field.mask.toInt + m.field.directionBit.toInt :=
    toInt_add_of_range (by omega) (by omega)
  have hout : x &&& m.field.directionBit = 0 := by
    rw [← hsigned.and_mask_of_le h0 hx, Int64.and_assoc, Int64.and_comm m.field.mask,
      hsigned.direction, Int64.and_zero]
  simp only [IsOperand, hm, Int64.le_iff_toInt_le, Int64.toInt_zero, hmax]
  cases negative with
  | false =>
    rw [if_neg Bool.false_ne_true, Int64.or_zero]
    omega
  | true =>
    rw [if_pos rfl, or_eq_add hout, toInt_add_of_range (by omega) (by omega)]
    omega

/-- The operands of a field with a direction denote the multiples of the scale up to the largest
magnitude, on both sides of zero. -/
theorem exists_decode_signed_iff :
    (∃ v, m.field.IsOperand v ∧ m.field.decode v = offset) ↔
      m.field.scale.toInt ∣ offset.toInt ∧ offset.toInt.natAbs ≤ m.field.maxOffset.toInt := by
  have hsigned := isSigned_field hm
  have hscaled := isScaled_field (.inr hm)
  have hlimit := hscaled.maxOffset_lt
  constructor
  · rintro ⟨v, -, rfl⟩
    obtain ⟨h0, hx⟩ := and_mask_range hm v
    obtain ⟨hdvd, hlo, hhi⟩ := hscaled.exists_mul_iff.1 ⟨_, h0, hx, rfl⟩
    simp only [decode, hm]
    split
    · rw [toInt_neg_of_range (by omega), Int.natAbs_neg]
      exact ⟨Int.dvd_neg.2 hdvd, by omega⟩
    · exact ⟨hdvd, by omega⟩
  · rintro ⟨hdvd, hle⟩
    -- the least integer is out of range, so that the magnitude is exact
    have hmin : offset ≠ Int64.minValue := by
      rintro rfl
      have : Int64.minValue.toInt.natAbs = 2 ^ 63 := by decide
      omega
    have hmag := toInt_magnitude hmin
    obtain ⟨x, h0, hx, hmul⟩ := hscaled.exists_mul_iff.2
      (show m.field.scale.toInt ∣ (magnitude offset).toInt ∧ 0 ≤ (magnitude offset).toInt ∧
        (magnitude offset).toInt ≤ m.field.maxOffset.toInt by
        rw [hmag]
        exact ⟨Int.dvd_natAbs.2 hdvd, by omega, by omega⟩)
    refine ⟨_, isOperand_or hm h0 hx (decide (offset < 0)), ?_⟩
    rw [hsigned.decode_or (hsigned.and_mask_of_le h0 hx), hmul, magnitude]
    by_cases hneg : offset < 0
    · simp [hneg]
    · simp [hneg]

/-- The check lets through the same offsets, and the least integer. -/
theorem fits_signed_iff : m.field.fits offset ↔ offset = Int64.minValue ∨
    m.field.scale.toInt ∣ offset.toInt ∧ offset.toInt.natAbs ≤ m.field.maxOffset.toInt := by
  have hfits : m.field.fits offset = m.field.holds (magnitude offset) := by rw [fits, hm]
  rw [hfits, holds_iff]
  by_cases hmin : offset = Int64.minValue
  · subst hmin
    refine iff_of_true ?_ (.inl rfl)
    cases m
    case mode2 | mode3 | mode5 | t2i8 => decide
    all_goals exact absurd hm (by decide)
  · rw [or_iff_right hmin, toInt_magnitude hmin, Int.dvd_natAbs]

/-- No operand denotes the least integer, though the check lets it through. -/
theorem fits_least : m.field.fits Int64.minValue ∧
    ¬ ∃ v, m.field.IsOperand v ∧ m.field.decode v = Int64.minValue := by
  refine ⟨(fits_signed_iff hm).2 (.inl rfl), fun h => ?_⟩
  have hle := ((exists_decode_signed_iff hm).1 h).2
  have hlimit := (isScaled_field (.inr hm)).maxOffset_lt
  have hmin : Int64.minValue.toInt.natAbs = 2 ^ 63 := by decide
  omega

end

section
variable {m : Family} {offset : Int64}

/-- The operands of a field that only adds denote the multiples of the scale up to the largest
magnitude. -/
theorem exists_decode_unsigned_iff (hm : m.field.kind = .unsigned) :
    (∃ v, m.field.IsOperand v ∧ m.field.decode v = offset) ↔
      m.field.scale.toInt ∣ offset.toInt ∧ 0 ≤ offset.toInt ∧
        offset.toInt ≤ m.field.maxOffset.toInt := by
  rw [← (isScaled_field (.inl hm)).exists_mul_iff]
  simp only [IsOperand, decode, hm, Int64.le_iff_toInt_le, Int64.toInt_zero, and_assoc]

theorem fits_unsigned_iff (hm : m.field.kind = .unsigned) :
    m.field.fits offset ↔ m.field.scale.toInt ∣ offset.toInt ∧ 0 ≤ offset.toInt ∧
      offset.toInt ≤ m.field.maxOffset.toInt := by
  have hfits : m.field.fits offset = (decide (0 ≤ offset) && m.field.holds offset) := by
    rw [fits, hm]
  rw [hfits, Bool.and_eq_true, decide_eq_true_eq, holds_iff, Int64.le_iff_toInt_le,
    Int64.toInt_zero, and_left_comm]

theorem fits_absent_iff (hm : m.field.kind = .absent) :
    m.field.fits offset ↔ ∃ v, m.field.IsOperand v ∧ m.field.decode v = offset := by
  have hfits : m.field.fits offset = decide (offset = 0) := by rw [fits, hm]
  simp only [hfits, IsOperand, decode, hm, decide_eq_true_eq, exists_eq_left]
  exact eq_comm

end

/-- An offset fits a field exactly if an operand of the field denotes it, rotated immediates apart
and but for the least integer, which fits every field with a direction. -/
theorem fits_iff_exists_decode {m : Family} (hm : m ≠ .mode1) (offset : Int64) :
    (m.field.fits offset ↔ (∃ v, m.field.IsOperand v ∧ m.field.decode v = offset) ∨
      m.field.kind = .signMagnitude ∧ offset = Int64.minValue) ∧
      ¬ ∃ v, m.field.IsOperand v ∧ m.field.decode v = Int64.minValue := by
  cases hkind : m.field.kind with
  | absent =>
    refine ⟨(fits_absent_iff hkind).trans (by simp), ?_⟩
    have hzero : m.field.fits Int64.minValue = decide (Int64.minValue = 0) := by rw [fits, hkind]
    rw [← fits_absent_iff hkind, hzero]
    decide
  | unsigned =>
    refine ⟨?_, ?_⟩
    · rw [fits_unsigned_iff hkind, exists_decode_unsigned_iff hkind]
      simp
    · rw [exists_decode_unsigned_iff hkind]
      exact fun h => absurd h.2.1 (by decide)
  | signMagnitude =>
    refine ⟨?_, (fits_least hkind).2⟩
    rw [fits_signed_iff hkind, exists_decode_signed_iff hkind]
    simp [or_comm]
  | rotated =>
    cases m
    case mode1 => exact absurd rfl hm
    all_goals cases hkind

/-- The offsets of floating-point loads and stores go down to `-1020`. -/
theorem fits_iff_exists_decode_mode5 :
    Family.mode5 ≠ .mode1 ∧ Family.mode5.field.fits (-1020) ∧
      (∃ v, Family.mode5.field.IsOperand v ∧ Family.mode5.field.decode v = -1020) ∧
      ¬ ∃ v, Family.mode5.field.IsOperand v ∧ Family.mode5.field.decode v = -1024 := by
  have hne : Family.mode5 ≠ .mode1 := by decide
  have hfits : Family.mode5.field.fits (-1020) := by decide
  have hlow := (fits_iff_exists_decode hne (-1020)).1.1 hfits
  refine ⟨hne, hfits, hlow.resolve_right (by decide), fun h => ?_⟩
  exact absurd ((fits_iff_exists_decode hne (-1024)).1.2 (.inl h)) (by decide)

/-- The least integer is said to fit the field of word loads and stores, which has no operand
for it. -/
theorem fits_least_mode2 : Family.mode2 ≠ .mode1 ∧
    ¬ (Family.mode2.field.fits Int64.minValue ↔
      ∃ v, Family.mode2.field.IsOperand v ∧ Family.mode2.field.decode v = Int64.minValue) := by
  obtain ⟨hfits, hnone⟩ := fits_least (m := .mode2) rfl
  exact ⟨by decide, fun h => hnone (h.1 hfits)⟩

end ImmediateField

end FrameLowering
