import FrameLowering.Proofs.EliminatedIndex

/-!
# The parts of a constant

A constant is added to a register in parts, each of which is a rotated immediate. A part takes
at least the eight bits from the lowest one bit on, counted from an even place, so that a word
has four parts at most (`length_chunks_le`). Each part is cut out of what the parts before it
left: no two have a bit in common, and as integers they add up to the word
(`sum_toNat_chunks`). The main statement puts this together with what the instructions for the
parts do (`sumInParts_addConstant`).
-/

namespace FrameLowering

open ImmediateField (word magnitude)

/-! ## Parts of a word -/

namespace RotatedImmediate

theorem getLsbD_rest {w : Word} {i : Nat} :
    (w &&& ~~~chunk w).getLsbD i ↔ w.getLsbD i ∧ 8 ≤ (i + rotation w) % 32 := by
  rw [BitVec.getLsbD_and, BitVec.getLsbD_not, Bool.and_eq_true]
  refine and_congr_right fun hi => ?_
  have hchunk : (chunk w).getLsbD i ↔ (i + rotation w) % 32 < 8 := by
    rw [getLsbD_chunk, and_iff_right hi]
  rw [← Nat.not_lt, ← hchunk]
  simp [BitVec.lt_of_getLsbD hi]

/-- What a part leaves is at least eight bits further up. -/
theorem add_eight_le_of_rest {w : Word} {i k : Nat} (hk : 2 ∣ k) (hlow : ∀ i < k, ¬ w.getLsbD i)
    (hi : (w &&& ~~~chunk w).getLsbD i) : k + 8 ≤ i := by
  obtain ⟨hi, hout⟩ := getLsbD_rest.1 hi
  have hi32 := BitVec.lt_of_getLsbD hi
  obtain hcovers | ⟨hne, hr⟩ := covers_rotation_or w
  · exact absurd (hcovers i hi) (Nat.not_lt.2 hout)
  · obtain ⟨j, hj, hbelow⟩ := exists_lowest hne
    have hkj : k ≤ j := Nat.not_lt.1 fun hlt => hlow j hlt hj
    have hji : j ≤ i := Nat.not_lt.1 fun hlt => hbelow i hlt hi
    rw [hr, trailingZeros_eq hj hbelow] at hout
    simp only [undo, evenBelow] at hout
    omega

theorem length_chunksUpTo_le {fuel n : Nat} {w : Word} (hn : n ≤ 4)
    (hlow : ∀ i < 8 * n, ¬ w.getLsbD i) : (chunksUpTo fuel w).length + n ≤ 4 := by
  induction fuel generalizing n w with
  | zero => simpa [chunksUpTo] using hn
  | succ fuel ih =>
    rw [chunksUpTo]
    split
    · simpa using hn
    · next hne =>
      obtain ⟨j, hj, -⟩ := exists_lowest hne
      have hj32 := BitVec.lt_of_getLsbD hj
      have hnj : 8 * n ≤ j := Nat.not_lt.1 fun hlt => hlow j hlt hj
      have hrest := ih (n := n + 1) (w := w &&& ~~~chunk w) (by omega) fun i hi hbit => by
        have := add_eight_le_of_rest (Nat.dvd_trans (by decide) (Nat.dvd_mul_right 8 n)) hlow hbit
        omega
      rw [List.length_cons]
      omega

/-- A word has four parts at most. -/
theorem length_chunks_le (w : Word) : (chunks w).length ≤ 4 :=
  length_chunksUpTo_le (n := 0) (by decide) (by simp)

theorem pairwise_chunksUpTo (fuel : Nat) (w : Word) :
    (chunksUpTo fuel w).Pairwise fun a b => a &&& b = 0#32 := by
  induction fuel generalizing w with
  | zero => exact .nil
  | succ fuel ih =>
    rw [chunksUpTo]
    split
    · exact .nil
    · refine .cons (fun c hc => ?_) (ih _)
      rw [← and_eq_of_mem_chunksUpTo hc, ← BitVec.and_assoc, chunk_and_rest, BitVec.zero_and]

/-- No two parts of a word have a bit in common. -/
theorem pairwise_chunks (w : Word) : (chunks w).Pairwise fun a b => a &&& b = 0#32 :=
  pairwise_chunksUpTo 32 w

/-- A word without a bit in common with some words has none in common with their sum, if they
have none in common with each other. -/
theorem and_sum_eq_zero {w : Word} {ws : List Word} (hws : ws.Pairwise fun a b => a &&& b = 0#32)
    (h : ∀ x ∈ ws, w &&& x = 0#32) : w &&& ws.sum = 0#32 := by
  induction hws generalizing w with
  | nil => simp
  | @cons x ws hx _ ih =>
    obtain ⟨hwx, hw⟩ := List.forall_mem_cons.1 h
    rw [List.sum_cons, BitVec.add_eq_or_of_and_eq_zero _ _ (ih hx), BitVec.and_or_distrib_left, hwx,
      ih hw, BitVec.or_zero]

/-- Words without bits in common add up without a carry. -/
theorem toNat_sum_of_pairwise {ws : List Word} (h : ws.Pairwise fun a b => a &&& b = 0#32) :
    ws.sum.toNat = (ws.map BitVec.toNat).sum := by
  induction h with
  | nil => rfl
  | @cons x ws hx hws ih =>
    rw [List.sum_cons, BitVec.toNat_add_of_and_eq_zero (and_sum_eq_zero hws hx), ih, List.map_cons,
      List.sum_cons]

/-- As integers the parts of a word add up to it. -/
theorem sum_toNat_chunks (w : Word) : ((chunks w).map BitVec.toNat).sum = w.toNat := by
  rw [← toNat_sum_of_pairwise (pairwise_chunks w), sum_chunks]

end RotatedImmediate

/-! ## Constants and their words -/

namespace ImmediateField

theorem word_eq_zero_iff {n : Int64} : word n = 0 ↔ (2 ^ 32 : Int) ∣ n.toInt := by
  rw [word_eq_ofInt, ← BitVec.toNat_inj, BitVec.toNat_ofInt]
  show (n.toInt % 2 ^ 32).toNat = 0 ↔ _
  omega

/-- The low word of a magnitude that fits in a word. -/
theorem toNat_word_magnitude {n : Int64} (h : n.toInt.natAbs < 2 ^ 32) :
    (word (magnitude n)).toNat = n.toInt.natAbs := by
  have hmin : n ≠ Int64.minValue := by
    rintro rfl
    exact absurd h (by decide)
  rw [word_eq_ofInt, BitVec.toNat_ofInt, toInt_magnitude hmin]
  omega

end ImmediateField

/-! ## Instructions for the parts -/

/-- The part of a constant that an instruction adds or subtracts. -/
def Inst.part (i : Inst) : Word :=
  word (i.immediate 2)

/-- Some instructions set a register to the sum of another register and a constant, part by
part. -/
structure SumInParts (dst base : Reg) (n : Int64) (c : Cond) (pred : Reg) (is : List Inst) :
    Prop where
  length_le : is.length ≤ 4
  nil_of_zero : n = 0 → is = []
  /-- The first instruction adds to the base and the others to the destination. -/
  operands : ∀ (k : Nat) (i : Inst), is[k]? = some i → i.operands =
    [.reg dst true false, .use (if k = 0 then base else dst), .imm (Int64.ofNat i.part.toNat),
      .cond c, .use pred]
  predicate : ∀ i ∈ is, i.predicate = (c, pred)
  encodable : ∀ i ∈ is, i.part ≠ 0 ∧ RotatedImmediate.isEncodable i.part
  /-- Where the condition holds there is one state after the instructions. It has the sum in
  the destination and is otherwise the same. -/
  executes : ¬ (2 ^ 32 : Int) ∣ n.toInt → ∀ m : State, (c = Cond.al ∨ m.flags c) →
    ∃ m', (∀ x, ExecAll is m x ↔ x = m') ∧
      (dst.cells ≠ [] → m'.read dst = m.read base + BitVec.ofInt 32 n.toInt) ∧
      m.AgreesOff [dst] m' ∧ m'.mem = m.mem ∧ m'.flags = m.flags
  disjoint : n.toInt.natAbs < 2 ^ 32 → (is.map Inst.part).Pairwise fun a b => a &&& b = 0
  adds_up : n.toInt.natAbs < 2 ^ 32 →
    ((is.map Inst.part).map BitVec.toNat).sum = n.toInt.natAbs

namespace WideSet

/-- The instruction for each part of a chain. -/
theorem getElem?_chain {op : Opcode} {dst base pred : Reg} {c : Cond} {ws : List Word} {k : Nat} :
    (chain op dst c pred base ws)[k]? = ws[k]?.map fun w =>
      Inst.make op ([.use dst, .use (if k = 0 then base else dst), .imm (Int64.ofNat w.toNat)] ++
        Operand.predicate c pred) := by
  induction ws generalizing base k with
  | nil => rfl
  | cons w ws ih =>
    cases k with
    | zero => rfl
    | succ k =>
      rw [chain, List.getElem?_cons_succ, List.getElem?_cons_succ, ih]
      simp

section
variable {s : WideSet} {dst base pred : Reg} {n : Int64} {c : Cond} {i : Inst} {k : Nat}

/-- What the instruction for a part of a constant consists of. -/
theorem exists_part_of_getElem? (h : (s.addConstant dst base n c pred)[k]? = some i) :
    ∃ w, (RotatedImmediate.chunks (word (magnitude n)))[k]? = some w ∧ i.part = w ∧
      i.predicate = (c, pred) ∧ i.operands = [.reg dst true false,
        .use (if k = 0 then base else dst), .imm (Int64.ofNat w.toNat), .cond c, .use pred] := by
  rw [addConstant, getElem?_chain, Option.map_eq_some_iff] at h
  obtain ⟨w, hw, rfl⟩ := h
  refine ⟨w, hw, ?_⟩
  have hop : (if n < 0 then s.sub else s.add).info.defs = 1 ∧
      (if n < 0 then s.sub else s.add).info.predicate = some 3 := by
    split <;> cases s <;> exact ⟨rfl, rfl⟩
  generalize (if n < 0 then s.sub else s.add) = op at hop
  have hoperands : (Inst.make op ([.use dst, .use (if k = 0 then base else dst),
      .imm (Int64.ofNat w.toNat)] ++ Operand.predicate c pred)).operands = [.reg dst true false,
        .use (if k = 0 then base else dst), .imm (Int64.ofNat w.toNat), .cond c, .use pred] := by
    rw [Inst.make, hop.1]
    rfl
  refine ⟨?_, ?_, hoperands⟩
  · rw [Inst.part, Inst.immediate, hoperands]
    exact ImmediateField.word_ofNat_toNat w
  · have hpred : ∀ os, (Inst.make op os).info.predicate = some 3 := fun _ => hop.2
    rw [Inst.predicate, hpred, hoperands]
    exact congrArg (·, pred) (Operand.condition_cond c)

theorem map_part_addConstant :
    (s.addConstant dst base n c pred).map Inst.part =
      RotatedImmediate.chunks (word (magnitude n)) := by
  refine List.ext_getElem? fun k => ?_
  rw [List.getElem?_map]
  cases hk : (s.addConstant dst base n c pred)[k]? with
  | none =>
    rw [addConstant, getElem?_chain, Option.map_eq_none_iff] at hk
    rw [hk, Option.map_none]
  | some i =>
    obtain ⟨w, hw, hpart, -⟩ := exists_part_of_getElem? hk
    rw [hw, Option.map_some, hpart]

/-- There is exactly one state after the addition of a constant. -/
theorem execAll_addConstant_iff {m x : State} (hn : word n ≠ 0) (hc : c = Cond.al ∨ m.flags c) :
    ExecAll (s.addConstant dst base n c pred) m x ↔ x = m.write dst (m.read base + word n) := by
  have hresult (y : State) (h : ExecAll (s.addConstant dst base n c pred) m y) :
      y = m.write dst (m.read base + word n) := by
    rw [execAll_addConstant h, if_pos ⟨hc, hn⟩]
  refine ⟨hresult x, ?_⟩
  rintro rfl
  obtain ⟨y, hy⟩ := exists_execAll (fun i hi => (plain_of_mem_addConstant hi).1) m
  rwa [hresult y hy] at hy

end

/-- The instructions that add a constant to a register do so in parts, for every constant. -/
theorem sumInParts_addConstant (s : WideSet) (dst base : Reg) (n : Int64) (c : Cond) (pred : Reg) :
    SumInParts dst base n c pred (s.addConstant dst base n c pred) where
  length_le := by
    rw [← List.length_map Inst.part, map_part_addConstant]
    exact RotatedImmediate.length_chunks_le _
  nil_of_zero h := by
    rw [← List.map_eq_nil_iff (f := Inst.part), map_part_addConstant, h]
    rfl
  operands k i hi := by
    obtain ⟨w, -, rfl, -, hoperands⟩ := exists_part_of_getElem? hi
    exact hoperands
  predicate i hi := by
    obtain ⟨k, hk⟩ := List.getElem?_of_mem hi
    obtain ⟨w, -, -, hpred, -⟩ := exists_part_of_getElem? hk
    exact hpred
  encodable i hi := by
    have hmem : i.part ∈ RotatedImmediate.chunks (word (magnitude n)) := by
      rw [← map_part_addConstant]
      exact List.mem_map_of_mem hi
    obtain ⟨w, hw⟩ := RotatedImmediate.eq_chunk_of_mem hmem
    refine ⟨RotatedImmediate.ne_zero_of_mem_chunksUpTo hmem, ?_⟩
    rw [hw]
    exact RotatedImmediate.isEncodable_chunk w
  executes hn m hc := by
    refine ⟨_, fun x => execAll_addConstant_iff (fun h => hn (ImmediateField.word_eq_zero_iff.1 h)) hc,
      fun hdst => ?_, State.agreesOff_assign m dst _, rfl, rfl⟩
    rw [State.read_write hdst, ImmediateField.word_eq_ofInt]
  disjoint _ := by
    rw [map_part_addConstant]
    exact RotatedImmediate.pairwise_chunks _
  adds_up h := by
    rw [map_part_addConstant, RotatedImmediate.sum_toNat_chunks, ImmediateField.toNat_word_magnitude h]

/-- Subtracting `0x12345678` from the stack pointer takes four instructions, and where they are
executed the result is in `r12`. -/
theorem sumInParts_addConstant_four :
    let is := WideSet.thumb2.addConstant Reg.r12 Reg.sp (-0x12345678) Cond.al .noreg
    is.map Inst.part = [0x278, 0x5400, 0x2340000, 0x10000000] ∧ is.length ≤ 4 ∧
      (is.map Inst.part).Pairwise (fun a b => a &&& b = 0) ∧
      ∀ m : State, ∃ m', (∀ x, ExecAll is m x ↔ x = m') ∧
        m'.read Reg.r12 = m.read Reg.sp + BitVec.ofInt 32 (-0x12345678) ∧
        m.AgreesOff [Reg.r12] m' := by
  have h := sumInParts_addConstant .thumb2 Reg.r12 Reg.sp (-0x12345678) Cond.al .noreg
  refine ⟨by decide +kernel, h.length_le, h.disjoint (by decide), fun m => ?_⟩
  obtain ⟨m', hexec, hread, hagrees, -⟩ := h.executes (by decide) m (.inl rfl)
  exact ⟨m', hexec, hread (by decide), hagrees⟩

end WideSet

end FrameLowering
