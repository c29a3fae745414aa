import FrameLowering.Proofs.WordParts

/-!
# Bytes rotated into words

The immediate field of a data-processing instruction stands for a byte that is rotated right
by an even number of bits. To find the rotation of a word, the byte is taken to start at the
lowest one bit, and in an odd word also after the lowest run of ones. That finds every byte
that the rotation leaves in one piece. Of the bytes that it splits over both ends of a word it
finds those whose piece at the lower end is a run of ones, and no others
(`isSome_encode?_iff`): `0xf0000005` is a rotated byte that has no encoding
(`encode?_split_byte`). An encoding that is found denotes its word (`denoted_encode?`).
-/

namespace FrameLowering

namespace RotatedImmediate

/-- Below a bit, a word is a run of ones from its lowest bit on. -/
def HasRunBelow (w : Word) (n : Nat) : Prop :=
  ∃ m, ∀ i < n, w.getLsbD i ↔ i < m

/-! ## Covered words -/

theorem getLsbD_rotatedByte {b : BitVec 8} {r i : Nat} (hr : r < 32) (hi : i < 32) :
    ((b.setWidth 32).rotateRight r).getLsbD i = b.getLsbD ((i + r) % 32) := by
  have hlt : (i + r) % 32 < 32 := Nat.mod_lt _ (by decide)
  rw [getLsbD_rotateRight_mod hr hi, BitVec.getLsbD_setWidth]
  simp [hlt]

/-- The words that a field covers are the bytes with its rotation. -/
theorem covers_iff {r : Nat} {w : Word} (hr : r < 32) :
    Covers r w ↔ ∃ b : BitVec 8, w = (b.setWidth 32).rotateRight r := by
  constructor
  · intro h
    refine ⟨(w.rotateRight (undo r)).setWidth 8, BitVec.eq_of_getLsbD_eq fun i hi => ?_⟩
    have hundo : undo r < 32 := Nat.mod_lt _ (by decide)
    have hlt : (i + r) % 32 < 32 := Nat.mod_lt _ (by decide)
    have hback : ((i + r) % 32 + undo r) % 32 = i := by
      simp only [undo]
      omega
    rw [getLsbD_rotatedByte hr hi, BitVec.getLsbD_setWidth, getLsbD_rotateRight_mod hundo hlt, hback]
    cases hbit : w.getLsbD i with
    | false => rw [Bool.and_false]
    | true => simp [h i hbit]
  · rintro ⟨b, rfl⟩ i hi
    rw [getLsbD_rotatedByte hr (BitVec.lt_of_getLsbD hi)] at hi
    exact BitVec.lt_of_getLsbD hi

/-! ## Runs of ones -/

theorem getLsbD_ones {n i : Nat} (hn : n < 32) :
    (1#32 <<< n - 1#32).getLsbD i = decide (i < n) := by
  have hpow : 2 ^ n < 2 ^ 32 := Nat.pow_lt_pow_right (by decide) hn
  have hpos : 0 < 2 ^ n := Nat.two_pow_pos n
  have hnat : (1#32 <<< n - 1#32).toNat = 2 ^ n - 1 := by
    rw [BitVec.toNat_sub, BitVec.toNat_shiftLeft, Nat.shiftLeft_eq]
    simp
    omega
  rw [BitVec.getLsbD, hnat, Nat.testBit_two_pow_sub_one]

/-- Clearing a run of ones keeps the bits above it. -/
theorem getLsbD_clearRun {w : Word} {n i : Nat} (hn : n < 32) :
    (w &&& ~~~(1#32 <<< n - 1#32)).getLsbD i ↔ w.getLsbD i ∧ n ≤ i := by
  rw [BitVec.getLsbD_and, BitVec.getLsbD_not, getLsbD_ones hn, Bool.and_eq_true]
  refine and_congr_right fun hi => ?_
  simp [BitVec.lt_of_getLsbD hi]

theorem trailingZeros_le_of_getLsbD {w : Word} {i : Nat} (hi : w.getLsbD i) :
    trailingZeros w ≤ i := by
  have hex : ∃ j, w.getLsbD j := ⟨i, hi⟩
  rw [trailingZeros_eq (Nat.find_spec hex) fun k hk => Nat.find_min hex hk]
  exact Nat.find_min' hex hi

theorem getLsbD_of_lt_run {w : Word} {i : Nat} (hrun : trailingZeros (~~~w) < 32)
    (hi : i < trailingZeros (~~~w)) : w.getLsbD i := by
  by_contra hbit
  have hnot : (~~~w).getLsbD i := by
    have hi32 : i < 32 := by omega
    simpa [BitVec.getLsbD_not, hi32] using hbit
  exact absurd (trailingZeros_le_of_getLsbD hnot) (Nat.not_le.2 hi)

/-- What the byte that is found has at the lower end of the word is a run of ones. -/
theorem hasRunBelow_rotation {w : Word} (h : rotation w ≠ 0) :
    HasRunBelow w (8 - rotation w) := by
  obtain ⟨-, hzero⟩ | ⟨hends, hr⟩ | ⟨-, hr, -⟩ := rotation_cases w
  · exact absurd hzero h
  · refine ⟨trailingZeros (~~~w), fun i hi => ⟨fun hbit => ?_, getLsbD_of_lt_run hends.run_lt⟩⟩
    by_contra hout
    have hrest := trailingZeros_le_of_getLsbD
      ((getLsbD_clearRun hends.run_lt).2 ⟨hbit, Nat.not_lt.1 hout⟩)
    change aboveRun w ≤ i at hrest
    rw [hr] at hi h
    simp only [undo, evenBelow] at hi h
    omega
  · -- there is nothing below the lowest one bit
    refine ⟨0, fun i hi => ⟨fun hbit => ?_, fun hlt => absurd hlt (Nat.not_lt_zero i)⟩⟩
    have hlow := trailingZeros_le_of_getLsbD hbit
    rw [hr] at hi h
    simp only [undo, evenBelow] at hi h
    omega

/-- A byte in one piece starts at the lowest one bit of its word. -/
theorem isByte_of_onePiece {w : Word} {r j : Nat} (heven : 2 ∣ r) (hr : r ≤ 30)
    (hcovers : Covers r w) (hpiece : ∀ i, w.getLsbD i → 32 - r ≤ i) (hj : w.getLsbD j)
    (hlow : ∀ i < j, ¬ w.getLsbD i) : isByte (w.rotateRight (evenBelow j)) := by
  have hj32 := BitVec.lt_of_getLsbD hj
  have hjr := hpiece j hj
  refine (covers_undo_iff (Nat.lt_of_le_of_lt (Nat.sub_le _ _) hj32)).1 fun i hi => ?_
  have hi32 := BitVec.lt_of_getLsbD hi
  have hji : j ≤ i := Nat.not_lt.1 fun hlt => hlow i hlt hi
  have hcov := hcovers i hi
  have hir := hpiece i hi
  simp only [undo]
  omega

/-- A byte that is split over both ends of a word, with a run of ones at the lower end, starts
above that run. -/
theorem endsInRun_of_split {w : Word} {r : Nat} (heven : 2 ∣ r) (hr : 0 < r) (hsplit : r < 8)
    (hcovers : Covers r w) (hrun : HasRunBelow w (8 - r)) (hbyte : ¬ isByte w)
    (hodd : w.getLsbD 0) : EndsInRun w := by
  obtain ⟨m, hm⟩ := hrun
  -- the run ends where the piece of the byte does, at the latest
  have hlen : trailingZeros (~~~w) = min m (8 - r) := by
    have hnot (i : Nat) (hi : i < 32) : (~~~w).getLsbD i ↔ ¬ w.getLsbD i := by
      simp [hi]
    apply trailingZeros_eq
    · rw [hnot _ (by omega)]
      intro hbit
      have hcov := hcovers _ hbit
      have := (hm _ (by omega)).1 hbit
      omega
    · intro i hi
      rw [hnot i (by omega), not_not]
      exact (hm i (by omega)).2 (by omega)
  have hrun : trailingZeros (~~~w) < 32 := by omega
  have hrest (i : Nat) := getLsbD_clearRun (w := w) (i := i) hrun
  have hhigh : ∀ i, w.getLsbD i → trailingZeros (~~~w) ≤ i → 32 - r ≤ i := by
    intro i hi hle
    have hcov := hcovers i hi
    have hi32 := BitVec.lt_of_getLsbD hi
    by_contra hlow
    have := (hm i (by omega)).1 hi
    omega
  -- a word that is no byte has a bit above the run, and the lowest such bit is in the upper piece
  have hex : ∃ i, (w &&& ~~~(1#32 <<< trailingZeros (~~~w) - 1#32)).getLsbD i := by
    by_contra hnone
    refine hbyte (isByte_iff.2 fun i hi => ?_)
    by_contra hout
    exact hnone ⟨i, (hrest i).2 ⟨hi, by omega⟩⟩
  obtain ⟨hk, hkrun⟩ := (hrest _).1 (Nat.find_spec hex)
  have habove : aboveRun w = Nat.find hex :=
    trailingZeros_eq (Nat.find_spec hex) fun i hi => Nat.find_min hex hi
  have hk32 := BitVec.lt_of_getLsbD hk
  have hkhigh := hhigh _ hk hkrun
  have hstart : evenBelow (aboveRun w) < 32 := by
    rw [habove]
    exact Nat.lt_of_le_of_lt (Nat.sub_le _ _) hk32
  refine ⟨hodd, hrun, hstart, (covers_undo_iff hstart).1 fun i hi => ?_⟩
  have hi32 := BitVec.lt_of_getLsbD hi
  rw [habove, undo, evenBelow]
  by_cases hlow : trailingZeros (~~~w) ≤ i
  · have hki : Nat.find hex ≤ i := Nat.find_min' hex ((hrest i).2 ⟨hi, hlow⟩)
    omega
  · omega

/-- A byte that is covered, with a run of ones at the lower end of the word if it is split,
is found. -/
theorem covers_rotation {w : Word} {r : Nat} (heven : 2 ∣ r) (hr : r ≤ 30) (hcovers : Covers r w)
    (hrun : r = 0 ∨ HasRunBelow w (8 - r)) : Covers (rotation w) w := by
  obtain ⟨hbyte, hrotation⟩ | ⟨hends, hrotation⟩ | ⟨hbyte, hrotation, hfirst⟩ := rotation_cases w
  · rw [hrotation]
    exact covers_zero_iff.2 hbyte
  · rw [hrotation]
    exact (covers_undo_iff hends.start_lt).2 hends.isByte
  · obtain ⟨j, hj, hlow⟩ := exists_lowest (ne_zero_of_not_isByte hbyte)
    have hstart : evenBelow j < 32 :=
      Nat.lt_of_le_of_lt (Nat.sub_le _ _) (BitVec.lt_of_getLsbD hj)
    rw [trailingZeros_eq hj hlow] at hrotation hfirst
    rw [hrotation, covers_undo_iff hstart]
    have hpos : 0 < r := by
      refine Nat.pos_of_ne_zero fun hzero => hbyte (covers_zero_iff.1 ?_)
      rwa [hzero] at hcovers
    have hrun := hrun.resolve_left (Nat.ne_of_gt hpos)
    by_cases hsplit : r < 8 ∧ w.getLsbD 0
    · have hends := endsInRun_of_split heven hpos hsplit.1 hcovers hrun hbyte hsplit.2
      exact hfirst.resolve_right (not_not.2 hends)
    · refine isByte_of_onePiece heven hr hcovers (fun i hi => ?_) hj hlow
      -- a bit of a lower piece would be part of a run, which has the lowest bit
      by_contra hpiece
      have hcov := hcovers i hi
      have hi32 := BitVec.lt_of_getLsbD hi
      obtain ⟨m, hm⟩ := hrun
      have him := (hm i (by omega)).1 hi
      exact hsplit ⟨by omega, (hm 0 (by omega)).2 (by omega)⟩

/-- A word has an encoding exactly if it is a byte rotated right by an even number of bits,
and what the byte has at the lower end of the word after it was split is a run of ones. -/
theorem isSome_encode?_iff (w : Word) :
    (encode? w).isSome ↔ ∃ (b : BitVec 8) (r : Nat), 2 ∣ r ∧ r ≤ 30 ∧
      w = (b.setWidth 32).rotateRight r ∧ (r = 0 ∨ HasRunBelow w (8 - r)) := by
  rw [isSome_encode?_iff_covers]
  constructor
  · intro h
    obtain ⟨heven, hr⟩ := even_rotation w
    obtain ⟨b, hb⟩ := (covers_iff (Nat.lt_of_le_of_lt hr (by decide))).1 h
    refine ⟨b, rotation w, heven, hr, hb, ?_⟩
    by_cases hzero : rotation w = 0
    · exact .inl hzero
    · exact .inr (hasRunBelow_rotation hzero)
  · rintro ⟨b, r, heven, hr, hb, hrun⟩
    have hcovers := (covers_iff (Nat.lt_of_le_of_lt hr (by decide))).2 ⟨b, hb⟩
    exact covers_rotation heven hr hcovers hrun

/-- `0x5f` rotated right by four bits has `0b0101` at the lower end, which is no run of ones. -/
theorem encode?_split_byte :
    encode? 0xf0000005#32 = none ∧
      ∃ (b : BitVec 8) (r : Nat), 2 ∣ r ∧ r ≤ 30 ∧
        0xf0000005#32 = (b.setWidth 32).rotateRight r :=
  ⟨by decide, 0x5f#8, 4, by decide⟩

/-! ## What the field denotes -/

/-- The word that a field denotes: its lowest eight bits, rotated right by twice what is above
them. -/
def denoted (v : Nat) : Word :=
  ((BitVec.ofNat 8 v).setWidth 32).rotateRight (2 * (v >>> 8))

theorem rotateRight_zero (w : Word) : w.rotateRight 0 = w := by
  refine BitVec.eq_of_getLsbD_eq fun i hi => ?_
  rw [getLsbD_rotateRight_mod (by decide) hi, Nat.add_zero, Nat.mod_eq_of_lt hi]

theorem rotateLeft_rotateRight {w : Word} {r : Nat} (hr : r < 32) :
    (w.rotateRight r).rotateLeft r = w := by
  refine BitVec.eq_of_getLsbD_eq fun i hi => ?_
  rw [BitVec.getLsbD_rotateLeft, Nat.mod_eq_of_lt hr]
  by_cases hlow : i < r
  · have hback : (32 - r + i + r) % 32 = i := by omega
    rw [decide_eq_true hlow, cond_true, getLsbD_rotateRight_mod hr (by omega), hback]
  · have hback : (i - r + r) % 32 = i := by omega
    rw [decide_eq_false hlow, cond_false, decide_eq_true hi, Bool.true_and,
      getLsbD_rotateRight_mod hr (by omega), hback]

/-- A field is made up of the byte of its word and half of the rotation. -/
theorem encode?_cases {w : Word} {v : Nat} (h : encode? w = some v) :
    ∃ (b : BitVec 8) (r : Nat), 2 ∣ r ∧ r ≤ 30 ∧ w = (b.setWidth 32).rotateRight r ∧
      v = b.toNat + r / 2 * 256 := by
  obtain ⟨heven, hr⟩ := even_rotation w
  have hr32 := rotation_lt w
  have hcovers := isSome_encode?_iff_covers.1 (Option.isSome_of_eq_some h)
  obtain ⟨b, hb⟩ := (covers_iff hr32).1 hcovers
  have hback : w.rotateLeft (rotation w) = b.setWidth 32 := by
    generalize rotation w = r at hb hr32
    rw [hb, rotateLeft_rotateRight hr32]
  refine ⟨b, rotation w, heven, hr, hb, ?_⟩
  have hwide : (b.setWidth 32).toNat = b.toNat := BitVec.toNat_setWidth_of_le (by decide)
  rw [encode?] at h
  split at h
  · next hbyte =>
    have hzero : rotation w = 0 := if_pos hbyte
    rw [hzero, rotateRight_zero] at hb
    rw [hzero, ← Option.some.inj h, hb, hwide]
    rfl
  · simp only at h
    split at h
    · cases h
    · -- the rotation is above the byte
      have hhalf : (BitVec.ofNat 32 (rotation w / 2 * 256)).toNat = 2 ^ 8 * (rotation w / 2) := by
        rw [BitVec.toNat_ofNat]
        omega
      rw [← Option.some.inj h, hback, BitVec.toNat_or, hwide, hhalf, Nat.or_comm,
        ← Nat.two_pow_add_eq_or_of_lt b.isLt]
      omega

/-- The encoding of a word is a twelve-bit field that denotes the word. -/
theorem denoted_encode? {w : Word} {v : Nat} (h : encode? w = some v) :
    v < 4096 ∧ denoted v = w := by
  obtain ⟨b, r, heven, hr, hw, hv⟩ := encode?_cases h
  have hbyte : b.toNat < 256 := b.isLt
  have hlow : BitVec.ofNat 8 v = b := by
    apply BitVec.eq_of_toNat_eq
    rw [BitVec.toNat_ofNat]
    omega
  have hhigh : 2 * (v >>> 8) = r := by
    rw [Nat.shiftRight_eq_div_pow]
    omega
  refine ⟨by omega, ?_⟩
  rw [denoted, hlow, hhigh, hw]

/-- The byte `0xff` of this word is split over both ends. -/
theorem denoted_encode?_wrapped :
    encode? 0xf000000f#32 = some 0x2ff ∧ 0x2ff < 4096 ∧ denoted 0x2ff = 0xf000000f#32 :=
  have h : encode? 0xf000000f#32 = some 0x2ff := by decide
  ⟨h, denoted_encode? h⟩

end RotatedImmediate

end FrameLowering
