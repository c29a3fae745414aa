import FrameLowering.Machine.RotatedImmediate
import Mathlib.Data.BitVec
import Mathlib.Order.Nat

/-!
# Words in parts

The field of a rotated immediate covers eight bits of a word, from an even place on, and goes
on at the lower end of the word after its upper end. `rotation_cases` says where the byte of a
word is taken to start. A word has an encoding exactly if the field with that rotation covers
it (`isSome_encode?_iff_covers`). Otherwise the field covers the lowest one bit of the word, so
that the part that is taken of it is a rotated immediate (`isEncodable_chunk`) and the parts of
the word add up to it (`sum_chunks`).
-/

namespace FrameLowering

namespace RotatedImmediate

/-! ## Bits of a rotated word -/

theorem getLsbD_byte (i : Nat) : (0xff#32).getLsbD i = decide (i < 8) := by
  have h : (0xff#32) = BitVec.ofNat 32 (2 ^ 8 - 1) := rfl
  rw [h, BitVec.getLsbD_ofNat, Nat.testBit_two_pow_sub_one]
  by_cases hi : i < 8
  · have : i < 32 := by omega
    simp [hi, this]
  · simp [hi]

theorem getLsbD_rotateRight_mod {w : Word} {r i : Nat} (hr : r < 32) (hi : i < 32) :
    (w.rotateRight r).getLsbD i = w.getLsbD ((i + r) % 32) := by
  rw [BitVec.getLsbD_rotateRight, Nat.mod_eq_of_lt hr]
  by_cases h : i < 32 - r
  · have hidx : (i + r) % 32 = r + i := by omega
    simp [h, hidx]
  · have hidx : (i + r) % 32 = i - (32 - r) := by omega
    simp [h, hi, hidx]

theorem isByte_iff {w : Word} : isByte w ↔ ∀ i, w.getLsbD i → i < 8 := by
  rw [isByte, decide_eq_true_eq]
  constructor
  · intro h i hi
    have hi32 := BitVec.lt_of_getLsbD hi
    have hbit := congrArg (fun x : Word => x.getLsbD i) h
    simpa only [BitVec.getLsbD_and, BitVec.getLsbD_not, BitVec.getLsbD_zero, getLsbD_byte, hi, hi32,
      decide_true, Bool.true_and, Bool.not_eq_false', decide_eq_true_eq] using hbit
  · intro h
    refine BitVec.eq_of_getLsbD_eq fun i hi => ?_
    rw [BitVec.getLsbD_and, BitVec.getLsbD_not, getLsbD_byte, BitVec.getLsbD_zero]
    cases hbit : w.getLsbD i with
    | false => rw [Bool.false_and]
    | true => simp [h i hbit]

theorem ne_zero_of_not_isByte {w : Word} (h : ¬ isByte w) : w ≠ 0#32 := by
  rintro rfl
  exact h (by decide)

/-- A word that is not zero has a lowest bit. -/
theorem exists_lowest {w : Word} (h : w ≠ 0#32) : ∃ j, w.getLsbD j ∧ ∀ i < j, ¬ w.getLsbD i := by
  have hex : ∃ j, w.getLsbD j := by
    by_contra hnone
    refine h (BitVec.eq_of_getLsbD_eq fun i hi => ?_)
    simpa using fun hbit => hnone ⟨i, hbit⟩
  exact ⟨Nat.find hex, Nat.find_spec hex, fun i hi => Nat.find_min hex hi⟩

theorem trailingZeros_eq {w : Word} {j : Nat} (hj : w.getLsbD j) (hlow : ∀ i < j, ¬ w.getLsbD i) :
    trailingZeros w = j := by
  have hj32 : j < 32 := BitVec.lt_of_getLsbD hj
  have h : (List.range 32).find? w.getLsbD = some j := by
    rw [List.find?_range_eq_some]
    exact ⟨hj, List.mem_range.2 hj32, fun i hi => by simpa using hlow i hi⟩
  rw [trailingZeros, h]
  rfl

theorem trailingZeros_le (w : Word) : trailingZeros w ≤ 32 := by
  rw [trailingZeros]
  cases h : (List.range 32).find? w.getLsbD with
  | none => simp
  | some j =>
    have := List.mem_range.1 (List.mem_of_find?_eq_some h)
    simp
    omega

/-! ## Covered words -/

/-- Every one bit of a word is in the byte that a field with a rotation covers. -/
def Covers (r : Nat) (w : Word) : Prop :=
  ∀ i, w.getLsbD i → (i + r) % 32 < 8

theorem covers_zero_iff {w : Word} : Covers 0 w ↔ isByte w := by
  rw [isByte_iff]
  refine forall_congr' fun i => imp_congr_right fun hi => ?_
  have := BitVec.lt_of_getLsbD hi
  rw [Nat.add_zero, Nat.mod_eq_of_lt this]

/-- The words that a field covers are those that the other rotation brings into a byte. -/
theorem covers_undo_iff {w : Word} {f : Nat} (hf : f < 32) :
    Covers (undo f) w ↔ isByte (w.rotateRight f) := by
  rw [isByte_iff]
  constructor
  · intro h i hi
    have hi32 := BitVec.lt_of_getLsbD hi
    rw [getLsbD_rotateRight_mod hf hi32] at hi
    have hback : ((i + f) % 32 + undo f) % 32 = i := by
      simp only [undo]
      omega
    exact hback ▸ h _ hi
  · intro h i hi
    have hi32 := BitVec.lt_of_getLsbD hi
    have hback : ((i + undo f) % 32 + f) % 32 = i := by
      simp only [undo]
      omega
    refine h _ ?_
    rwa [getLsbD_rotateRight_mod hf (Nat.mod_lt _ (by decide)), hback]

/-- Outside of the byte that a field covers a word is zero exactly if it is covered. -/
theorem and_window_eq_zero_iff {w : Word} {r : Nat} (hr : r < 32) :
    (~~~0xff#32).rotateRight r &&& w = 0#32 ↔ Covers r w := by
  have houtside (i : Nat) (hi : i < 32) : ((~~~0xff#32).rotateRight r &&& w).getLsbD i =
      (!decide ((i + r) % 32 < 8) && w.getLsbD i) := by
    have hlt : (i + r) % 32 < 32 := Nat.mod_lt _ (by decide)
    rw [BitVec.getLsbD_and, getLsbD_rotateRight_mod hr hi, BitVec.getLsbD_not, getLsbD_byte]
    simp [hlt]
  constructor
  · intro h i hi
    have hout := houtside i (BitVec.lt_of_getLsbD hi)
    rw [h, hi, BitVec.getLsbD_zero] at hout
    simpa using hout
  · intro h
    refine BitVec.eq_of_getLsbD_eq fun i hi => ?_
    rw [houtside i hi, BitVec.getLsbD_zero]
    cases hw : w.getLsbD i with
    | false => rw [Bool.and_false]
    | true => simp [h i hw]

/-! ## The rotation that is found -/

/-- The lowest one bit above the run of ones at the lower end of a word. -/
def aboveRun (w : Word) : Nat :=
  trailingZeros (w &&& ~~~(1#32 <<< trailingZeros (~~~w) - 1#32))

/-- An odd word is a byte that starts above its lowest run of ones, and ends in that run. -/
structure EndsInRun (w : Word) : Prop where
  odd : w.getLsbD 0
  run_lt : trailingZeros (~~~w) < 32
  start_lt : evenBelow (aboveRun w) < 32
  isByte : isByte (w.rotateRight (evenBelow (aboveRun w)))

/-- Where the byte of a word is taken to start: at the lower end for a byte, above the lowest
run of ones if it ends in that, and otherwise at the lowest one bit. -/
theorem rotation_cases (w : Word) :
    (isByte w ∧ rotation w = 0) ∨
      (EndsInRun w ∧ rotation w = undo (evenBelow (aboveRun w))) ∨
      (¬ isByte w ∧ rotation w = undo (evenBelow (trailingZeros w)) ∧
        (isByte (w.rotateRight (evenBelow (trailingZeros w))) ∨ ¬ EndsInRun w)) := by
  by_cases hbyte : isByte w
  · exact .inl ⟨hbyte, if_pos hbyte⟩
  have hrotation : rotation w = _ := if_neg hbyte
  refine .inr ?_
  simp only at hrotation
  split at hrotation
  · next hfirst => exact .inr ⟨hbyte, hrotation, .inl hfirst⟩
  split at hrotation
  · next h =>
    simp only [Bool.and_eq_true, bne_iff_ne, ne_eq] at h
    obtain ⟨⟨⟨hodd, hrun⟩, hne⟩, hsecond⟩ := h
    have hle : aboveRun w ≤ 32 := trailingZeros_le _
    have hstart : evenBelow (aboveRun w) < 32 := by
      change ¬ evenBelow (aboveRun w) = 32 at hne
      simp only [evenBelow] at hne ⊢
      omega
    exact .inl ⟨⟨hodd, Nat.lt_of_le_of_ne (trailingZeros_le _) hrun, hstart, hsecond⟩, hrotation⟩
  · next h =>
    refine .inr ⟨hbyte, hrotation, .inr fun hends => h ?_⟩
    simp only [Bool.and_eq_true, bne_iff_ne, ne_eq]
    exact ⟨⟨⟨hends.odd, Nat.ne_of_lt hends.run_lt⟩, Nat.ne_of_lt hends.start_lt⟩, hends.isByte⟩

theorem even_rotation (w : Word) : 2 ∣ rotation w ∧ rotation w ≤ 30 := by
  have heven (n : Nat) : 2 ∣ undo (evenBelow n) ∧ undo (evenBelow n) ≤ 30 := by
    simp only [undo, evenBelow]
    omega
  obtain ⟨-, h⟩ | ⟨-, h⟩ | ⟨-, h, -⟩ := rotation_cases w
  · rw [h]
    decide
  · rw [h]
    exact heven _
  · rw [h]
    exact heven _

theorem rotation_lt (w : Word) : rotation w < 32 :=
  Nat.lt_of_le_of_lt (even_rotation w).2 (by decide)

/-- A word that the field with its rotation does not cover is taken from its lowest one bit
on. -/
theorem covers_rotation_or (w : Word) :
    Covers (rotation w) w ∨ w ≠ 0#32 ∧ rotation w = undo (evenBelow (trailingZeros w)) := by
  obtain ⟨hbyte, h⟩ | ⟨hends, h⟩ | ⟨hbyte, h, -⟩ := rotation_cases w
  · rw [h]
    exact .inl (covers_zero_iff.2 hbyte)
  · rw [h]
    exact .inl ((covers_undo_iff hends.start_lt).2 hends.isByte)
  · exact .inr ⟨ne_zero_of_not_isByte hbyte, h⟩

/-- A word has an encoding if the field with its rotation covers it. -/
theorem isSome_encode?_iff_covers {w : Word} :
    (encode? w).isSome ↔ Covers (rotation w) w := by
  rw [encode?]
  split
  · next h =>
    have hrotation : rotation w = 0 := if_pos h
    simpa [hrotation] using covers_zero_iff.2 h
  · rw [← and_window_eq_zero_iff (rotation_lt w)]
    simp

/-! ## The part that is taken -/

theorem getLsbD_chunk {w : Word} {i : Nat} :
    (chunk w).getLsbD i ↔ w.getLsbD i ∧ (i + rotation w) % 32 < 8 := by
  rw [chunk, BitVec.getLsbD_and, Bool.and_eq_true]
  refine and_congr_right fun hi => ?_
  rw [getLsbD_rotateRight_mod (rotation_lt w) (BitVec.lt_of_getLsbD hi), getLsbD_byte,
    decide_eq_true_eq]

theorem chunk_eq_self {w : Word} (h : Covers (rotation w) w) : chunk w = w := by
  refine BitVec.eq_of_getLsbD_eq fun i _ => ?_
  rw [Bool.eq_iff_iff, getLsbD_chunk, and_iff_left_iff_imp]
  exact h i

/-- The rotation of a word covers its lowest one bit. -/
theorem chunk_getLsbD {w : Word} {j : Nat} (hj : w.getLsbD j) (hlow : ∀ i < j, ¬ w.getLsbD i) :
    (chunk w).getLsbD j := by
  refine getLsbD_chunk.2 ⟨hj, ?_⟩
  obtain hcovers | ⟨-, hr⟩ := covers_rotation_or w
  · exact hcovers j hj
  · have hj32 := BitVec.lt_of_getLsbD hj
    rw [hr, trailingZeros_eq hj hlow]
    simp only [undo, evenBelow]
    omega

theorem chunk_ne_zero {w : Word} (h : w ≠ 0#32) : chunk w ≠ 0#32 := by
  obtain ⟨j, hj, hlow⟩ := exists_lowest h
  intro hzero
  have := chunk_getLsbD hj hlow
  simp [hzero] at this

/-- Every part that is taken of a word is a rotated immediate. -/
theorem isEncodable_chunk (w : Word) : isEncodable (chunk w) := by
  refine isSome_encode?_iff_covers.2 ?_
  obtain hcovers | ⟨hne, hr⟩ := covers_rotation_or w
  · rwa [chunk_eq_self hcovers]
  · obtain hcovers | ⟨-, hr'⟩ := covers_rotation_or (chunk w)
    · exact hcovers
    · -- the part has the lowest bit of the word, and so the same rotation
      obtain ⟨j, hj, hlow⟩ := exists_lowest hne
      have hlow' : ∀ i < j, ¬ (chunk w).getLsbD i :=
        fun i hi hbit => hlow i hi (getLsbD_chunk.1 hbit).1
      rw [hr', trailingZeros_eq (chunk_getLsbD hj hlow) hlow', ← trailingZeros_eq hj hlow, ← hr]
      exact fun i hi => (getLsbD_chunk.1 hi).2

/-- A part has no bit in common with what it leaves. -/
theorem chunk_and_rest (w : Word) : chunk w &&& (w &&& ~~~chunk w) = 0#32 := by
  ext i hi
  simp only [BitVec.getElem_and, BitVec.getElem_not, BitVec.getElem_zero]
  cases (chunk w)[i] <;> simp

theorem chunk_add_rest (w : Word) : chunk w + (w &&& ~~~chunk w) = w := by
  rw [BitVec.add_eq_or_of_and_eq_zero _ _ (chunk_and_rest w), chunk]
  generalize (0xff#32).rotateRight (rotation w) = m
  ext i hi
  simp only [BitVec.getElem_or, BitVec.getElem_and, BitVec.getElem_not]
  cases w[i] <;> cases m[i] <;> rfl

/-! ## All parts -/

/-- Each part is taken of a word that is left, and that is cut out of the whole word. -/
theorem exists_rest_of_mem_chunksUpTo {fuel : Nat} {w c : Word} (h : c ∈ chunksUpTo fuel w) :
    ∃ x, x ≠ 0#32 ∧ w &&& x = x ∧ c = chunk x := by
  induction fuel generalizing w with
  | zero => exact absurd h List.not_mem_nil
  | succ fuel ih =>
    rw [chunksUpTo] at h
    split at h
    · exact absurd h List.not_mem_nil
    · next hne =>
      rcases List.mem_cons.1 h with rfl | h
      · exact ⟨w, hne, BitVec.and_self, rfl⟩
      · obtain ⟨x, hx, hsub, rfl⟩ := ih h
        refine ⟨x, hx, ?_, rfl⟩
        rw [← hsub, ← BitVec.and_assoc, ← BitVec.and_assoc, BitVec.and_self]

theorem eq_chunk_of_mem {fuel : Nat} {w c : Word} (h : c ∈ chunksUpTo fuel w) :
    ∃ x, c = chunk x := by
  obtain ⟨x, -, -, hc⟩ := exists_rest_of_mem_chunksUpTo h
  exact ⟨x, hc⟩

theorem ne_zero_of_mem_chunksUpTo {fuel : Nat} {w c : Word} (h : c ∈ chunksUpTo fuel w) :
    c ≠ 0#32 := by
  obtain ⟨x, hx, -, rfl⟩ := exists_rest_of_mem_chunksUpTo h
  exact chunk_ne_zero hx

/-- Parts are cut out of the word. -/
theorem and_eq_of_mem_chunksUpTo {fuel : Nat} {w c : Word} (h : c ∈ chunksUpTo fuel w) :
    w &&& c = c := by
  obtain ⟨x, -, hx, rfl⟩ := exists_rest_of_mem_chunksUpTo h
  rw [chunk, ← BitVec.and_assoc, hx]

theorem sum_chunksUpTo {fuel k : Nat} {w : Word} (hlow : ∀ i < k, ¬ w.getLsbD i)
    (hfuel : 32 ≤ fuel + k) : (chunksUpTo fuel w).sum = w := by
  induction fuel generalizing k w with
  | zero =>
    rw [chunksUpTo, List.sum_nil]
    refine (BitVec.eq_of_getLsbD_eq fun i hi => ?_).symm
    simpa using hlow i (by omega)
  | succ fuel ih =>
    rw [chunksUpTo]
    split
    · next h => simp [h]
    · next hne =>
      -- the part takes the lowest bit, at `k` or above
      have hrest : ∀ i < k + 1, ¬ (w &&& ~~~chunk w).getLsbD i := by
        intro i hi hbit
        simp only [BitVec.getLsbD_and, Bool.and_eq_true] at hbit
        have hik : ¬ i < k := fun h => hlow i h hbit.1
        obtain rfl : i = k := by omega
        have := chunk_getLsbD hbit.1 hlow
        simp [this] at hbit
      rw [List.sum_cons, ih hrest (by omega), chunk_add_rest]

/-- The parts of a word add up to it. -/
theorem sum_chunks (w : Word) : (chunks w).sum = w :=
  sum_chunksUpTo (k := 0) (by simp) (by decide)

theorem chunks_eq_nil_iff {w : Word} : chunks w = [] ↔ w = 0 := by
  constructor
  · intro h
    rw [← sum_chunks w, h]
    rfl
  · rintro rfl
    rfl

end RotatedImmediate

end FrameLowering
