import FrameLowering.Description.Basic
import FrameLowering.Proofs.Leftovers
import FrameLowering.Proofs.RotatedBytes

/-!
# Immediates of verified functions

A function is verified before it is done, and every immediate offset is to fit its field then. What
a field can hold is what its operands are packed from (`Family.Encodes`). The check compares
numbers instead. Packed offsets of eight bits and a direction are the numbers up to `511`, and those
with a shift the numbers below `49152`, six times the range of twelve bits and a direction. The shift
is read as a byte, so that the check does not see the bits above it: a word load or store passes if
the lowest 21 bits of its immediate are an encoding. Everything else that passes is an encoding
(`Procedure.encodes_iff_of_verify`), and such an immediate is none (`Procedure.verify_shiftPastByte`).
-/

namespace FrameLowering

namespace PackedOffset

/-! ## Packed numbers -/

section
variable {v : Int64}

theorem toInt_pack8 (d : Direction) (imm : Word) :
    (pack8 d imm).toInt = imm.toNat % 256 + if d = .sub then 256 else 0 := by
  have hlt : (imm.toNat % 256 + if d = .sub then 256 else 0) < 2 ^ 63 := by
    split <;> omega
  rw [pack8, operand, Int64.toInt_ofNat_of_lt hlt]
  split <;> simp

theorem toInt_pack12 (d : Direction) (imm : Word) (shift : UInt8) :
    (pack12 d imm shift).toInt =
      imm.toNat % 4096 + (if d = .sub then 4096 else 0) + shift.toNat * 8192 := by
  have hshift := shift.toNat_lt
  have hlt : imm.toNat % 4096 + (if d = .sub then 4096 else 0) + shift.toNat * 8192 < 2 ^ 63 := by
    split <;> omega
  rw [pack12, operand, Int64.toInt_ofNat_of_lt hlt]
  split <;> simp

/-- Eight bits and a direction make up the numbers of nine bits. -/
theorem exists_pack8_iff :
    (∃ d imm, imm.toNat < 256 ∧ v = pack8 d imm) ↔ 0 ≤ v.toInt ∧ v.toInt < 512 := by
  constructor
  · rintro ⟨d, imm, himm, rfl⟩
    rw [toInt_pack8]
    split <;> omega
  · rintro ⟨hlo, hhi⟩
    refine ⟨if v.toInt < 256 then .add else .sub, BitVec.ofNat 32 (v.toInt.toNat % 256), ?_, ?_⟩
    · rw [BitVec.toNat_ofNat]
      omega
    · rw [← Int64.toInt_inj, toInt_pack8, BitVec.toNat_ofNat]
      by_cases hadd : v.toInt < 256
      · rw [if_pos hadd, if_neg (by decide)]
        omega
      · rw [if_neg hadd, if_pos rfl]
        omega

/-- With a shift on top they are the numbers below the next shift code. -/
theorem exists_pack12_iff :
    (∃ d imm shift, imm.toNat < 4096 ∧ shift ≤ maxShift ∧ v = pack12 d imm shift) ↔
      0 ≤ v.toInt ∧ v.toInt < 49152 := by
  constructor
  · rintro ⟨d, imm, shift, himm, hshift, rfl⟩
    have hle : shift.toNat ≤ 5 := UInt8.le_iff_toNat_le.1 hshift
    rw [toInt_pack12]
    split <;> omega
  · rintro ⟨hlo, hhi⟩
    have hshift : (UInt8.ofNat (v.toInt.toNat / 8192)).toNat = v.toInt.toNat / 8192 :=
      UInt8.toNat_ofNat_of_lt (show _ < 256 by omega)
    refine ⟨if v.toInt % 8192 < 4096 then .add else .sub, BitVec.ofNat 32 (v.toInt.toNat % 4096),
      UInt8.ofNat (v.toInt.toNat / 8192), ?_, ?_, ?_⟩
    · rw [BitVec.toNat_ofNat]
      omega
    · rw [UInt8.le_iff_toNat_le, hshift]
      show _ ≤ 5
      omega
    · rw [← Int64.toInt_inj, toInt_pack12, BitVec.toNat_ofNat, hshift]
      by_cases hadd : v.toInt % 8192 < 4096
      · rw [if_pos hadd, if_neg (by decide)]
        omega
      · rw [if_neg hadd, if_pos rfl]
        omega

/-- The shift is the byte above twelve bits and a direction. -/
theorem toNat_shift12 (h : 0 ≤ v.toInt) : ((shift12 v).toNat : Int) = v.toInt / 8192 % 256 := by
  have hmsb : v.toBitVec.msb = false := by
    rw [BitVec.msb_eq_toInt, Int64.toInt_toBitVec, decide_eq_false_iff_not]
    omega
  have hint : v.toInt = v.toBitVec.toNat := by
    rw [← Int64.toInt_toBitVec, BitVec.toInt_eq_toNat_of_msb hmsb]
  rw [shift12, bitsFrom, BitVec.sshiftRight_eq_of_msb_false hmsb, BitVec.toNat_ushiftRight,
    Nat.shiftRight_eq_div_pow, UInt8.toNat_ofNat', hint]
  omega

end

end PackedOffset

/-! ## The check of a field -/

/-- What an immediate operand of a family can be. Nothing is asked where there is no offset. -/
def Family.Encodes (f : Family) (v : Int64) : Prop :=
  match f with
  | .plain | .t2so => True
  | .mode1 => ∃ (b : BitVec 8) (r : Nat), 2 ∣ r ∧ r ≤ 30 ∧
      v.toInt = ((b.setWidth 32).rotateRight r).toNat
  | .mode2 => ∃ d imm shift, imm.toNat < 4096 ∧ shift ≤ PackedOffset.maxShift ∧
      v = PackedOffset.pack12 d imm shift
  | .mode3 | .mode5 | .t2i8 => ∃ d imm, imm.toNat < 256 ∧ v = PackedOffset.pack8 d imm
  | .t2i12 | .t1s => 0 ≤ v ∧ v ≤ f.field.mask

namespace ImmediateField

section
variable {f : Family} {v : Int64}

/-- Word loads and stores pass if twenty-one bits of their immediate are an encoding. -/
theorem check_mode2_iff :
    Family.mode2.field.check v = .ok () ↔ 0 ≤ v.toInt ∧ v.toInt % 2097152 < 49152 := by
  have hcheck : Family.mode2.field.check v = .ok () ↔
      0 ≤ v ∧ PackedOffset.shift12 v ≤ PackedOffset.maxShift := by
    simp [check, Family.field]
  rw [hcheck, Int64.le_iff_toInt_le, Int64.toInt_zero]
  refine and_congr_right fun hlo => ?_
  have hshift := PackedOffset.toNat_shift12 hlo
  have hmax : PackedOffset.maxShift.toNat = 5 := rfl
  rw [UInt8.le_iff_toNat_le, hmax]
  omega

/-- Other fields with a direction take numbers of one bit more than their magnitude. -/
theorem check_narrow_iff (hkind : f.field.kind = .signMagnitude) (hf : f ≠ .mode2) :
    f.field.check v = .ok () ↔ 0 ≤ v.toInt ∧ v.toInt < 512 := by
  have hfamily : f.field.family ≠ .mode2 := by
    cases f
    case mode2 => exact absurd rfl hf
    all_goals decide
  have hcheck : f.field.check v = .ok () ↔
      0 ≤ v ∧ v ≤ f.field.mask ||| f.field.directionBit := by
    simp [check, hkind, hfamily]
  have hlimit : (f.field.mask ||| f.field.directionBit).toInt = 511 := by
    cases f
    case mode3 | mode5 | t2i8 => decide
    case mode2 => exact absurd rfl hf
    all_goals exact absurd hkind (by decide)
  rw [hcheck, Int64.le_iff_toInt_le, Int64.le_iff_toInt_le, Int64.toInt_zero, hlimit]
  omega

theorem check_unsigned_iff (hkind : f.field.kind = .unsigned) :
    f.field.check v = .ok () ↔ 0 ≤ v ∧ v ≤ f.field.mask := by
  simp [check, hkind]

/-- A rotated immediate that passes is a rotated byte. -/
theorem exists_byte_of_check (hkind : f.field.kind = .rotated) (h : f.field.check v = .ok ()) :
    ∃ (b : BitVec 8) (r : Nat), 2 ∣ r ∧ r ≤ 30 ∧
      v.toInt = ((b.setWidth 32).rotateRight r).toNat := by
  have hcheck : 0 ≤ v ∧ v ≤ 0xffffffff ∧ RotatedImmediate.isEncodable (word v) := by
    simpa [check, hkind, and_assoc] using h
  obtain ⟨hlo, hhi, hencodable⟩ := hcheck
  rw [Int64.le_iff_toInt_le] at hlo hhi
  change v.toInt ≤ 4294967295 at hhi
  rw [Int64.toInt_zero] at hlo
  have hword : v.toInt = (word v).toNat := by
    have := toNat_word v
    omega
  obtain ⟨heven, hr⟩ := RotatedImmediate.even_rotation (word v)
  have hcovers := RotatedImmediate.isSome_encode?_iff_covers.1 hencodable
  obtain ⟨b, hb⟩ :=
    (RotatedImmediate.covers_iff (Nat.lt_of_le_of_lt hr (by decide))).1 hcovers
  exact ⟨b, _, heven, hr, by rw [hword, ← hb]⟩

end

end ImmediateField

/-- What passes the check of its field is an encoding, but for the bits past the shift of a word
load or store. -/
theorem Family.encodes_iff_of_check {f : Family} {v : Int64} (h : f.field.check v = .ok ()) :
    (f.Encodes v ↔ (f = .mode2 → v < 2097152)) ∧
      (f = .mode2 → 0 ≤ v ∧ Family.mode2.Encodes (v % 2097152)) := by
  have hother (hf : f ≠ .mode2) (hv : f.Encodes v) :
      (f.Encodes v ↔ (f = .mode2 → v < 2097152)) ∧
        (f = .mode2 → 0 ≤ v ∧ Family.mode2.Encodes (v % 2097152)) :=
    ⟨⟨fun _ hf' => absurd hf' hf, fun _ => hv⟩, fun hf' => absurd hf' hf⟩
  cases f with
  | mode2 =>
    obtain ⟨hlo, hlow⟩ := ImmediateField.check_mode2_iff.1 h
    have hbound : (2097152 : Int64).toInt = 2097152 := rfl
    refine ⟨?_, fun _ => ⟨Int64.le_iff_toInt_le.2 hlo, PackedOffset.exists_pack12_iff.2 ?_⟩⟩
    · rw [Encodes, PackedOffset.exists_pack12_iff, forall_prop_of_true rfl, Int64.lt_iff_toInt_lt, hbound]
      omega
    · rw [Int64.toInt_mod, hbound, Int.tmod_eq_emod_of_nonneg hlo]
      omega
  | mode1 => exact hother (by decide) (ImmediateField.exists_byte_of_check rfl h)
  | mode3 | mode5 | t2i8 =>
    have hrange := (ImmediateField.check_narrow_iff rfl (by decide)).1 h
    exact hother (by decide) (PackedOffset.exists_pack8_iff.2 hrange)
  | t2i12 | t1s => exact hother (by decide) ((ImmediateField.check_unsigned_iff rfl).1 h)
  | plain | t2so => exact hother (by decide) trivial

namespace Procedure

/-- The immediates of a verified function pass the checks of their fields. -/
theorem check_of_verify {p : Procedure} (h : p.verify = .ok ()) {i : Inst} (hi : i ∈ p.insts)
    (hasm : i.info.flags.isAsm = false) {v : Int64} (hv : i.fieldImmediate? = some v) :
    i.info.family.field.check v = .ok () := by
  obtain ⟨b, hb, hi⟩ := List.mem_flatMap.1 hi
  obtain ⟨l, hl, rfl⟩ := List.mem_map.1 hi
  obtain ⟨k, hk⟩ := List.mem_iff_getElem?.1 hb
  have hleft := verify_eq_ok_iff.1 h k b hk l hl
  rw [Inst.leftover?] at hleft
  split at hleft
  · cases hleft
  split at hleft
  · cases hleft
  split at hleft
  · cases hleft
  next hcheck =>
  rw [Inst.checkImmediate, hasm, hv] at hcheck
  exact hcheck

/-- An immediate of a verified function is an encoding of its field exactly if it is not one of a
word load or store with bits past the shift; and there the bits up to the shift are one. -/
theorem encodes_iff_of_verify {p : Procedure} (h : p.verify = .ok ()) {i : Inst}
    (hi : i ∈ p.insts) (hasm : i.info.flags.isAsm = false) {v : Int64}
    (hv : i.fieldImmediate? = some v) :
    (i.info.family.Encodes v ↔ (i.info.family = .mode2 → v < 2097152)) ∧
      (i.info.family = .mode2 → 0 ≤ v ∧ Family.mode2.Encodes (v % 2097152)) :=
  Family.encodes_iff_of_check (check_of_verify h hi hasm hv)

/-- Offsets from the stack pointer: the widest encoding with a shift, one with a bit past the shift,
a subtracted one of eight bits, and a rotated byte. -/
def stackOffsets : Procedure where
  name := "f"
  blocks := [{
    lines := Line.number 0 [
      .make .ldr [.use (.core 0), .use Reg.sp, .use .noreg, .imm 49151, .cond .al, .use .noreg],
      .make .str [.use (.core 0), .use Reg.sp, .use .noreg, .imm 2097159, .cond .al, .use .noreg],
      .make .fldd [.use (.double 0), .use Reg.sp, .imm 511, .cond .al, .use .noreg],
      .make .addri [.use (.core 0), .use Reg.sp, .imm 4080, .cond .al, .use .noreg],
      .make .bxRet [.cond .al, .use .noreg]] }]
  fresh := 5

theorem encodes_iff_of_verify_stackOffsets :
    stackOffsets.verify = .ok () ∧ Family.mode2.Encodes 49151 ∧ Family.mode5.Encodes 511 ∧
      Family.mode1.Encodes 4080 ∧ ¬ Family.mode2.Encodes 2097159 ∧ Family.mode2.Encodes 7 := by
  have hverify : stackOffsets.verify = .ok () := by decide +kernel
  have hat (k : Nat) {i : Inst} (hk : stackOffsets.insts[k]? = some i) : i ∈ stackOffsets.insts :=
    List.mem_of_getElem? hk
  obtain ⟨hwidest, -⟩ := encodes_iff_of_verify hverify (hat 0 rfl) rfl rfl
  obtain ⟨hpast, hlow⟩ := encodes_iff_of_verify hverify (hat 1 rfl) rfl rfl
  obtain ⟨hdouble, -⟩ := encodes_iff_of_verify hverify (hat 2 rfl) rfl rfl
  obtain ⟨hbyte, -⟩ := encodes_iff_of_verify hverify (hat 3 rfl) rfl rfl
  exact ⟨hverify, hwidest.2 fun _ => by decide, hdouble.2 (by decide), hbyte.2 (by decide),
    fun h => absurd (hpast.1 h rfl) (by decide), (hlow rfl).2⟩

/-- A load from 2097152 bytes above the stack pointer is let through, and no encoding has room for
the bit. -/
theorem verify_shiftPastByte : ∃ (d : FunctionDesc) (u : Described) (i : Inst) (v : Int64),
    d.build = .ok u ∧ u.proc.verify = .ok () ∧ i ∈ u.proc.insts ∧ i.info.flags.isAsm = false ∧
      i.fieldImmediate? = some v ∧ ¬ i.info.family.Encodes v := by
  let load : Inst :=
    .make .ldr [.use (.core 0), .use Reg.sp, .use .noreg, .imm 2097152, .cond .al, .use .noreg]
  refine ⟨{ name := "f", blocks := [{
      insts := ["LDR r0, sp, noreg, #2097152, cc:al, noreg", "BX_RET cc:al, noreg"] }] },
    { abi := none, proc := {
      name := "f"
      blocks := [{ lines := Line.number 0 [load, .make .bxRet [.cond .al, .use .noreg]] }]
      fresh := 2 } }, load, 2097152, ?_, ?_, ?_, rfl, rfl, ?_⟩
  · decide +kernel
  · decide +kernel
  · exact List.mem_cons_self
  · intro h
    have hlt := (PackedOffset.exists_pack12_iff.1 h).2
    exact absurd hlt (by decide)

end Procedure

end FrameLowering
