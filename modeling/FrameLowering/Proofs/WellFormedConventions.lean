import FrameLowering.Proofs.StackAlignment

/-!
# Conventions that are well formed

A calling convention is checked in one pass over its callee-saved registers, which remembers the
registers that it has seen and the area of the last one. `Abi.IsWellFormed` says without reference
to that pass what a convention has to be. One register passes after others exactly if it is new, is
in the area that it belongs to, and does not go back to an earlier area
(`Abi.validateSaved_cons_eq_ok_iff`); so a list passes exactly if this holds all along it
(`Abi.validateSaved_eq_ok_iff`), and `Abi.validate_eq_ok_iff` is the statement about conventions.
-/

namespace FrameLowering

/-! ## Powers of two -/

theorem isPowerOfTwo_of_isPower {a : Int64} (h : IsPower a) : Abi.isPowerOfTwo a := by
  obtain ⟨k, hk⟩ := h
  have hpos : 0 < 2 ^ k := Nat.two_pow_pos k
  have hint := BitVec.toInt_eq_toNat_cond a.toBitVec
  rw [Int64.toInt_toBitVec] at hint
  have hbound := a.toBitVec.isLt
  have hnat : a.toBitVec.toNat = 2 ^ k := by split at hint <;> omega
  have hpred : (a.toBitVec - 1#64).toNat = a.toBitVec.toNat - 1 := by bv_omega
  have hbits : (a.toBitVec &&& (a.toBitVec - 1#64)).toNat = 0 := by
    rw [BitVec.toNat_and, hpred]
    exact (Nat.and_sub_one_eq_zero_iff_isPowerOfTwo (by omega)).2 ⟨k, hnat⟩
  have hand : a &&& (a - 1) = 0 := Int64.toBitVec_inj.1 (BitVec.eq_of_toNat_eq hbits)
  have hlt : 0 < a := Int64.lt_iff_toInt_lt.2 (by rw [hk, Int64.toInt_zero]; exact_mod_cast hpos)
  simp [Abi.isPowerOfTwo, hlt, hand]

/-- Alignments of a word or more. -/
theorem four_le_and_isPowerOfTwo_iff {a : Int64} :
    4 ≤ a ∧ Abi.isPowerOfTwo a ↔ ∃ k, 2 ≤ k ∧ a.toInt = (2 ^ k : Nat) := by
  have hfour (k : Nat) (hk : a.toInt = (2 ^ k : Nat)) : 4 ≤ a ↔ 2 ≤ k := by
    have hle : ((2 ^ 2 : Nat) : Int) ≤ (2 ^ k : Nat) ↔ 2 ≤ k := by
      rw [Int.ofNat_le, Nat.pow_le_pow_iff_right (by decide)]
    rw [Int64.le_iff_toInt_le, hk]
    exact hle
  constructor
  · rintro ⟨hle, hpower⟩
    obtain ⟨k, hk⟩ := isPower_of_isPowerOfTwo hpower
    exact ⟨k, (hfour k hk).1 hle, hk⟩
  · rintro ⟨k, hle, hk⟩
    exact ⟨(hfour k hk).2 hle, isPowerOfTwo_of_isPower ⟨k, hk⟩⟩

/-- Of the areas that a frame can have, the code tells which one it is. -/
theorem Area.eq_of_code {a : Area} (h : a = .gpr1 ∨ a = .gpr2 ∨ a = .dpr) :
    (a.code ≤ 1 → a = .gpr1) ∧ (1 < a.code → a.code ≤ 2 → a = .gpr2) ∧
      (2 < a.code → a = .dpr) := by
  rcases h with rfl | rfl | rfl <;> decide

/-- A check is passed if what it refuses does not hold, and what comes after it passes. -/
theorem ite_error_eq_ok_iff {ε : Type} {c : Prop} [Decidable c] {e : ε} {x : Except ε Unit} :
    (if c then .error e else x) = .ok () ↔ ¬ c ∧ x = .ok () := by
  split
  · next h => exact ⟨fun h' => absurd h' (by simp), fun h' => absurd h h'.1⟩
  · next h => exact ⟨fun h' => ⟨h, h'⟩, fun h' => h'.2⟩

namespace Abi

/-! ## Callee-saved registers -/

/-- The registers that a convention can preserve are those that have an area. -/
theorem area_ne_outside_iff (abi : Abi) (r : Reg) :
    abi.area r ≠ .outside ↔ r ∈ savableCores ++ savableDoubles := by
  cases r with
  | core n =>
    simp only [area]
    generalize abi.darwin = darwin
    revert darwin n
    decide
  | double n =>
    simp only [area]
    revert n
    decide
  | _ => simp [area, savableCores, savableDoubles]

/-- All of them can be handed out. -/
theorem isAllocatable_of_mem {r : Reg} (h : r ∈ savableCores ++ savableDoubles) :
    Arch.isAllocatable r := by
  revert r
  decide

section
variable {abi : Abi} {seen : List Reg} {last : Area} {cs : CalleeSaved} {list : List CalleeSaved}

/-- A register passes after those that were seen, and the others pass after it. -/
theorem validateSaved_cons_eq_ok_iff :
    abi.validateSaved seen last (cs :: list) = .ok () ↔
      (abi.IsSavedIn cs ∧ cs.reg ∉ seen ∧ last.code ≤ cs.area.code) ∧
        abi.validateSaved (cs.reg :: seen) cs.area list = .ok () := by
  rw [validateSaved]
  simp only [ite_error_eq_ok_iff, Bool.not_eq_true', Bool.not_eq_false, not_not, UInt8.not_lt]
  constructor
  · rintro ⟨-, hnew, hsaved, harea, horder, hrest⟩
    exact ⟨⟨⟨hsaved, harea⟩, hnew, horder⟩, hrest⟩
  · rintro ⟨⟨⟨hsaved, harea⟩, hnew, horder⟩, hrest⟩
    have hmem := (abi.area_ne_outside_iff cs.reg).1 hsaved
    exact ⟨isAllocatable_of_mem hmem, hnew, hsaved, harea, horder, hrest⟩

/-- A list passes exactly if each of its registers is new in it and after those that were seen, is
in the area that it belongs to, and does not go back to an earlier area. -/
theorem validateSaved_eq_ok_iff :
    abi.validateSaved seen last list = .ok () ↔
      (∀ cs ∈ list, abi.IsSavedIn cs ∧ cs.reg ∉ seen ∧ last.code ≤ cs.area.code) ∧
        (list.map CalleeSaved.reg).Nodup ∧
        list.Pairwise fun a b => a.area.code ≤ b.area.code := by
  refine ⟨validateSaved_facts, ?_⟩
  induction list generalizing seen last with
  | nil => exact fun _ => rfl
  | cons cs list ih =>
    rintro ⟨hall, hnodup, hsorted⟩
    obtain ⟨hhead, htail⟩ := List.forall_mem_cons.1 hall
    obtain ⟨hother, hnodup⟩ := List.nodup_cons.1 hnodup
    obtain ⟨hlater, hsorted⟩ := List.pairwise_cons.1 hsorted
    refine validateSaved_cons_eq_ok_iff.2 ⟨hhead, ih ⟨?_, hnodup, hsorted⟩⟩
    intro x hx
    obtain ⟨hin, hnew, -⟩ := htail x hx
    refine ⟨hin, ?_, hlater x hx⟩
    rw [List.mem_cons, not_or]
    exact ⟨fun heq => hother (heq ▸ List.mem_map_of_mem hx), hnew⟩

/-- Where areas come in order, those up to one come before those past it. -/
theorem exists_append_of_pairwise (n : UInt8)
    (h : list.Pairwise fun a b => a.area.code ≤ b.area.code) :
    ∃ low high, list = low ++ high ∧ (∀ cs ∈ low, cs.area.code ≤ n) ∧
      ∀ cs ∈ high, n < cs.area.code := by
  induction list with
  | nil => exact ⟨[], [], rfl, fun _ hx => absurd hx List.not_mem_nil,
      fun _ hx => absurd hx List.not_mem_nil⟩
  | cons cs list ih =>
    obtain ⟨hlater, hrest⟩ := List.pairwise_cons.1 h
    by_cases hle : cs.area.code ≤ n
    · obtain ⟨low, high, rfl, hlow, hhigh⟩ := ih hrest
      exact ⟨cs :: low, high, rfl, List.forall_mem_cons.2 ⟨hle, hlow⟩, hhigh⟩
    · have hlt : n < cs.area.code := UInt8.not_le.1 hle
      refine ⟨[], cs :: list, rfl, fun _ hx => absurd hx List.not_mem_nil, ?_⟩
      exact List.forall_mem_cons.2 ⟨hlt, fun x hx => UInt8.lt_of_lt_of_le hlt (hlater x hx)⟩

/-- A list is a run of registers of the first area, then one of the second, then one of the
double-precision area. -/
def InRuns (list : List CalleeSaved) : Prop :=
  ∃ first second third, list = first ++ second ++ third ∧ (∀ cs ∈ first, cs.area = .gpr1) ∧
    (∀ cs ∈ second, cs.area = .gpr2) ∧ ∀ cs ∈ third, cs.area = .dpr

theorem inRuns_iff_pairwise
    (h : ∀ cs ∈ list, cs.area = .gpr1 ∨ cs.area = .gpr2 ∨ cs.area = .dpr) :
    InRuns list ↔ list.Pairwise fun a b => a.area.code ≤ b.area.code := by
  constructor
  · rintro ⟨first, second, third, rfl, hfirst, hsecond, hthird⟩
    have hrun {area : Area} {run : List CalleeSaved} (hrun : ∀ cs ∈ run, cs.area = area) :
        run.Pairwise fun a b => a.area.code ≤ b.area.code := by
      refine List.pairwise_of_forall_mem_list fun a ha b hb => ?_
      rw [hrun a ha, hrun b hb]
      exact UInt8.le_refl _
    refine List.pairwise_append.2 ⟨List.pairwise_append.2 ⟨hrun hfirst, hrun hsecond, ?_⟩,
      hrun hthird, ?_⟩
    · intro a ha b hb
      rw [hfirst a ha, hsecond b hb]
      decide
    · intro a ha b hb
      rw [hthird b hb]
      rcases List.mem_append.1 ha with ha | ha
      · rw [hfirst a ha]
        decide
      · rw [hsecond a ha]
        decide
  · intro hsorted
    -- cut the sorted list after the last register of the first area, and again after the second
    obtain ⟨first, rest, rfl, hfirst, hrest⟩ := exists_append_of_pairwise 1 hsorted
    obtain ⟨second, third, rfl, hsecond, hthird⟩ :=
      exists_append_of_pairwise 2 (List.pairwise_append.1 hsorted).2.1
    refine ⟨first, second, third, (List.append_assoc _ _ _).symm, ?_, ?_, ?_⟩
    · intro cs hcs
      exact (Area.eq_of_code (h cs (List.mem_append_left _ hcs))).1 (hfirst cs hcs)
    · intro cs hcs
      have hmem := List.mem_append_left third hcs
      exact (Area.eq_of_code (h cs (List.mem_append_right _ hmem))).2.1 (hrest cs hmem)
        (hsecond cs hcs)
    · intro cs hcs
      have hmem := List.mem_append_right second hcs
      exact (Area.eq_of_code (h cs (List.mem_append_right _ hmem))).2.2 (hthird cs hcs)

end

/-! ## Conventions -/

/-- What a calling convention has to be. -/
structure IsWellFormed (abi : Abi) : Prop where
  /-- The stack is aligned to a power of two of at least a word. -/
  alignment : ∃ k, 2 ≤ k ∧ abi.stackAlignment.toInt = (2 ^ k : Nat)
  thumb : abi.thumb1Only → abi.thumb
  format : ¬ (abi.darwin ∧ abi.elf)
  nonempty : abi.calleeSaved ≠ []
  nodup : (abi.calleeSaved.map CalleeSaved.reg).Nodup
  link : Reg.lr ∈ abi.calleeSaved.map CalleeSaved.reg
  savable : ∀ cs ∈ abi.calleeSaved, cs.reg ∈ savableCores ++ savableDoubles
  area : ∀ cs ∈ abi.calleeSaved, cs.area = abi.area cs.reg
  runs : InRuns abi.calleeSaved

/-- The checks that a convention goes through. -/
theorem validate_eq_ok_iff_checks (abi : Abi) :
    abi.validate = .ok () ↔
      (4 ≤ abi.stackAlignment ∧ isPowerOfTwo abi.stackAlignment) ∧
      (abi.thumb1Only → abi.thumb) ∧ ¬ (abi.darwin ∧ abi.elf) ∧ abi.calleeSaved ≠ [] ∧
      abi.validateSaved [] .outside abi.calleeSaved = .ok () ∧
      Reg.lr ∈ abi.calleeSaved.map CalleeSaved.reg := by
  have hlink : (abi.calleeSaved.any fun cs => cs.reg = Reg.lr) ↔
      Reg.lr ∈ abi.calleeSaved.map CalleeSaved.reg := by
    simp [List.any_eq_true]
  rw [validate]
  simp only [ite_error_eq_ok_iff]
  refine and_congr ?_ (and_congr ?_ (and_congr ?_ (and_congr_right fun _ => ?_)))
  · simp
  · simp
  · simp
  · rw [← hlink]
    cases abi.validateSaved [] .outside abi.calleeSaved with
    | error e => simp
    | ok _ => simp

/-- The areas of registers that can be preserved. -/
theorem area_cases_of_isSavedIn {abi : Abi} {cs : CalleeSaved} (h : abi.IsSavedIn cs) :
    cs.area = .gpr1 ∨ cs.area = .gpr2 ∨ cs.area = .dpr := by
  rw [h.area]
  rcases abi.area_cases h.saved with ⟨-, harea | harea⟩ | ⟨-, harea⟩
  · exact .inl harea
  · exact .inr (.inl harea)
  · exact .inr (.inr harea)

/-- A convention is accepted if and only if it is well formed. -/
theorem validate_eq_ok_iff (abi : Abi) : abi.validate = .ok () ↔ abi.IsWellFormed := by
  rw [validate_eq_ok_iff_checks, four_le_and_isPowerOfTwo_iff, validateSaved_eq_ok_iff]
  constructor
  · rintro ⟨halign, hthumb, hformat, hnonempty, ⟨hall, hnodup, hsorted⟩, hlink⟩
    have hin (cs : CalleeSaved) (hcs : cs ∈ abi.calleeSaved) : abi.IsSavedIn cs := (hall cs hcs).1
    exact {
      alignment := halign
      thumb := hthumb
      format := hformat
      nonempty := hnonempty
      nodup := hnodup
      link := hlink
      savable := fun cs hcs => (abi.area_ne_outside_iff cs.reg).1 (hin cs hcs).saved
      area := fun cs hcs => (hin cs hcs).area
      runs := (inRuns_iff_pairwise fun cs hcs => area_cases_of_isSavedIn (hin cs hcs)).2 hsorted }
  · intro h
    have hin (cs : CalleeSaved) (hcs : cs ∈ abi.calleeSaved) : abi.IsSavedIn cs :=
      ⟨(abi.area_ne_outside_iff cs.reg).2 (h.savable cs hcs), h.area cs hcs⟩
    refine ⟨h.alignment, h.thumb, h.format, h.nonempty, ⟨fun cs hcs => ?_, h.nodup, ?_⟩, h.link⟩
    · exact ⟨hin cs hcs, List.not_mem_nil, UInt8.zero_le⟩
    · exact (inRuns_iff_pairwise fun cs hcs => area_cases_of_isSavedIn (hin cs hcs)).1 h.runs

end Abi

end FrameLowering
