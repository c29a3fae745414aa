import FrameLowering.Proofs.Execution
import FrameLowering.Proofs.ScratchLiveness

/-!
# Writes that replace a value

A scan takes a register to be dead if an unconditional write comes before the first read. The write
may be of any register that shares storage with it. That replaces the whole value where a register
shares all of its storage or none, so the answer is right for core registers, for single-precision
registers and for `d16` to `d31`. The lower double-precision registers consist of two registers each,
and a write of one of them leaves the other half as it was: after a load of `s0` the scan takes `d0`
to be dead although the upper half is still to be read (`scan_halfLoaded`). What the answer is worth
in general is `writtenFirst_of_scan`.
-/

namespace FrameLowering

/-! ## Storage that registers share -/

namespace Reg

/-- The double-precision registers that consist of two single-precision registers. -/
def isPaired : Reg → Bool
  | .double n => n.val < 16
  | _ => false

/-- Registers that overlap are the same, or a paired one and one of its halves. -/
theorem overlaps_cases {a r : Reg} (h : a.overlaps r) :
    a = r ∨ (∃ n k, a = .single n ∧ r = .double k ∧ k.val = n.val / 2) ∨
      ∃ n k, a = .double n ∧ r = .single k ∧ (k.val = 2 * n.val ∨ k.val = 2 * n.val + 1) := by
  rcases Bool.or_eq_true_iff.1 h with h | h
  · exact .inl (of_decide_eq_true h)
  have hmem : r ∈ a.aliases := of_decide_eq_true h
  cases a with
  | single n => exact .inr (.inl ⟨n, _, rfl, List.mem_singleton.1 hmem, rfl⟩)
  | double n =>
    rw [aliases] at hmem
    split at hmem
    · simp only [List.mem_cons, List.not_mem_nil, or_false] at hmem
      rcases hmem with rfl | rfl
      · exact .inr (.inr ⟨n, _, rfl, rfl, .inl rfl⟩)
      · exact .inr (.inr ⟨n, _, rfl, rfl, .inr rfl⟩)
    · exact absurd hmem List.not_mem_nil
  | _ => exact absurd hmem List.not_mem_nil

/-- A register of one piece is covered by every register that overlaps it. -/
theorem cells_subset_of_overlaps {a r : Reg} (hr : r.isPaired = false) (h : a.overlaps r) :
    r.cells ⊆ a.cells := by
  obtain rfl | ⟨n, k, rfl, rfl, hk⟩ | ⟨n, k, rfl, rfl, hk⟩ := overlaps_cases h
  · exact List.Subset.refl _
  · have hlt : k.val < 16 := by omega
    simp [isPaired, hlt] at hr
  · simpa [cells] using hk

theorem exists_cell_of_overlaps {a r : Reg} (hr : r.isPhysical) (h : a.overlaps r) :
    ∃ c ∈ r.cells, c ∈ a.cells := by
  obtain rfl | ⟨n, k, rfl, rfl, hk⟩ | ⟨n, k, rfl, rfl, hk⟩ := overlaps_cases h
  · cases a with
    | core n | single n | double n => exact ⟨_, List.mem_cons_self, List.mem_cons_self⟩
    | _ => cases hr
  · refine ⟨.float ⟨n, by omega⟩, ?_, List.mem_singleton.2 rfl⟩
    simp only [cells, List.mem_cons, Cell.float.injEq, Fin.mk.injEq, List.not_mem_nil, or_false]
    omega
  · exact ⟨_, List.mem_singleton.2 rfl, by simpa [cells] using hk⟩

end Reg

/-! ## Registers that an instruction writes -/

namespace Inst

/-- The registers that an instruction writes: its definitions, and those that a call destroys.
Assembly text writes whatever it names. -/
def written (i : Inst) : List Reg :=
  (i.operands.filter fun o => o.isReg && (o.isDef || i.info.flags.isAsm)).map Operand.register ++
    if i.info.flags.isCall then Opcode.clobbers else []

/-- An instruction is sure to write a word of register storage. -/
def Replaces (i : Inst) (c : Cell) : Prop :=
  i.predicate.1 = Cond.al ∧ ∃ a ∈ i.written, c ∈ a.cells

instance (i : Inst) (c : Cell) : Decidable (i.Replaces c) :=
  inferInstanceAs (Decidable (_ ∧ _))

section
variable {i : Inst} {r : Reg} {c : Cell}

theorem writes_iff : i.writes r ↔ ∃ a ∈ i.written, a.overlaps r := by
  have hdefs : (i.operands.any fun o =>
        o.isReg && (o.isDef || i.info.flags.isAsm) && o.register.overlaps r) ↔
      ∃ a ∈ (i.operands.filter fun o => o.isReg && (o.isDef || i.info.flags.isAsm)).map
        Operand.register, a.overlaps r := by
    simp only [List.any_eq_true, List.mem_map, List.mem_filter, Bool.and_eq_true]
    constructor
    · rintro ⟨o, ho, hdef, hover⟩
      exact ⟨o.register, ⟨o, ⟨ho, hdef⟩, rfl⟩, hover⟩
    · rintro ⟨-, ⟨o, ⟨ho, hdef⟩, rfl⟩, hover⟩
      exact ⟨o, ho, hdef, hover⟩
  rw [writes, Bool.or_eq_true, hdefs, written]
  cases i.info.flags.isCall with
  | false => simp
  | true => simp [or_and_right, exists_or]

theorem Replaces.writes (h : i.Replaces c) (hc : c ∈ r.cells) :
    i.predicate.1 = Cond.al ∧ i.writes r := by
  obtain ⟨hal, a, ha, hca⟩ := h
  exact ⟨hal, writes_iff.2 ⟨a, ha, Reg.overlaps_of_mem_cells hca hc⟩⟩

theorem exists_replaces (hr : r.isPhysical) (hal : i.predicate.1 = Cond.al) (h : i.writes r) :
    ∃ c ∈ r.cells, i.Replaces c := by
  obtain ⟨a, ha, hover⟩ := writes_iff.1 h
  obtain ⟨c, hc, hca⟩ := Reg.exists_cell_of_overlaps hr hover
  exact ⟨c, hc, hal, a, ha, hca⟩

theorem replaces_of_writes (hr : r.isPaired = false) (hal : i.predicate.1 = Cond.al)
    (h : i.writes r) (hc : c ∈ r.cells) : i.Replaces c := by
  obtain ⟨a, ha, hover⟩ := writes_iff.1 h
  exact ⟨hal, a, ha, Reg.cells_subset_of_overlaps hr hover hc⟩

end

end Inst

namespace Liveness

/-- Unconditional instructions have written all of a register before it is read. -/
def WrittenFirst (r : Reg) (is : List Inst) : Prop :=
  ∀ before i after, is = before ++ i :: after → i.reads r →
    ∀ c ∈ r.cells, ∃ j ∈ before, j.Replaces c

section
variable {r : Reg} {is : List Inst}

/-- Where a register is dead, the first instruction that touches it replaces some of its value. -/
theorem exists_of_scan (h : scan r is = some false) :
    ∃ before w after, is = before ++ w :: after ∧ Untouched r before ∧ ¬ w.reads r ∧
      w.predicate.1 = Cond.al ∧ w.writes r := by
  induction is with
  | nil => cases h
  | cons i is ih =>
    rw [scan] at h
    split at h
    · cases h
    · next hread =>
      split at h
      · next hwrite =>
        obtain ⟨hal, hwrite⟩ := Bool.and_eq_true_iff.1 hwrite
        exact ⟨[], i, is, rfl, fun _ hj => absurd hj List.not_mem_nil, hread,
          of_decide_eq_true hal, hwrite⟩
      · next hkeep =>
        obtain ⟨before, w, after, rfl, hbefore, hw⟩ := ih h
        refine ⟨i :: before, w, after, rfl, List.forall_mem_cons.2 ⟨⟨hread, ?_⟩, hbefore⟩, hw⟩
        simpa using hkeep

/-- A register that nothing has touched is written first if its words are written by the next
instruction or after that. -/
theorem writtenFirst_append_cons_iff {before : List Inst} {w : Inst}
    (hbefore : Untouched r before) (hread : ¬ w.reads r) (after : List Inst) :
    WrittenFirst r (before ++ w :: after) ↔
      ∀ front i back, after = front ++ i :: back → i.reads r →
        ∀ c ∈ r.cells, w.Replaces c ∨ ∃ j ∈ front, j.Replaces c := by
  constructor
  · rintro h front i back rfl hi c hc
    obtain ⟨j, hj, hreplaces⟩ := h (before ++ w :: front) i back (by simp) hi c hc
    rcases List.mem_append.1 hj with hj | hj
    · exact absurd (hreplaces.writes hc) (hbefore j hj).2
    · rcases List.mem_cons.1 hj with rfl | hj
      · exact .inl hreplaces
      · exact .inr ⟨j, hj, hreplaces⟩
  · intro h front i back heq hi c hc
    have hsplit : (before ++ [w]) ++ after = front ++ i :: back := by simpa using heq
    -- a read comes after `w`
    have hlate : ∃ mid, front = before ++ w :: mid ∧ after = mid ++ i :: back := by
      rcases List.append_eq_append_iff.1 hsplit with ⟨mid, hfront, hafter⟩ | ⟨mid, hfront, hback⟩
      · exact ⟨mid, by simpa using hfront, hafter⟩
      · cases mid with
        | nil => exact ⟨[], by simpa using hfront.symm, hback.symm⟩
        | cons j mid =>
          obtain ⟨rfl, -⟩ := List.cons.inj hback
          have hmem : i ∈ before ++ [w] := hfront ▸ List.mem_append_right _ List.mem_cons_self
          rcases List.mem_append.1 hmem with hmem | hmem
          · exact absurd hi (hbefore i hmem).1
          · exact absurd (List.mem_singleton.1 hmem ▸ hi) hread
    obtain ⟨mid, rfl, hafter⟩ := hlate
    rcases h mid i back hafter hi c hc with hw | ⟨j, hj, hreplaces⟩
    · exact ⟨w, by simp, hw⟩
    · exact ⟨j, by simp [hj], hreplaces⟩

end

/-- Where a register is found dead, some of its storage is written before anything reads it, and all
of it unless the register is paired. A paired register is written in full before every read exactly
if each of its words is replaced by that first write or by a later one before the read. -/
theorem writtenFirst_of_scan (r : Reg) (is : List Inst) (hr : r.isPhysical)
    (h : scan r is = some false) :
    (r.isPaired = false → WrittenFirst r is) ∧
      ∃ before w after, is = before ++ w :: after ∧ (∀ i ∈ before ++ [w], ¬ i.reads r) ∧
        (∃ c ∈ r.cells, w.Replaces c) ∧
        (WrittenFirst r is ↔ ∀ front i back, after = front ++ i :: back → i.reads r →
          ∀ c ∈ r.cells, w.Replaces c ∨ ∃ j ∈ front, j.Replaces c) := by
  obtain ⟨before, w, after, rfl, hbefore, hread, hal, hwrite⟩ := exists_of_scan h
  have hiff := writtenFirst_append_cons_iff hbefore hread after
  refine ⟨fun hone => hiff.2 fun _ _ _ _ _ c hc => ?_, before, w, after, rfl, ?_, ?_, hiff⟩
  · exact .inl (Inst.replaces_of_writes hone hal hwrite hc)
  · simpa [or_imp, forall_and, hread] using fun i hi => (hbefore i hi).1
  · exact Inst.exists_replaces hr hal hwrite

/-- Loads of one half and then of both halves of `d0`, and a store of the upper half. -/
def reloads : List Inst := [
  .make .flds [.use (.single 0), .use (.core 0), .imm 0, .cond .al, .use .noreg],
  .make .fldd [.use (.double 0), .use (.core 0), .imm 0, .cond .al, .use .noreg],
  .make .fsts [.use (.single 1), .use (.core 0), .imm 0, .cond .al, .use .noreg]]

theorem writtenFirst_of_scan_reloads : (Reg.single 1).isPhysical ∧
    scan (.single 1) reloads = some false ∧ WrittenFirst (.single 1) reloads := by
  have hscan : scan (.single 1) reloads = some false := by decide
  exact ⟨rfl, hscan, (writtenFirst_of_scan _ _ rfl hscan).1 rfl⟩

/-- A function that loads one half of `d0` and stores both. -/
def halfLoaded : Procedure where
  name := "f"
  blocks := [{ lines := Line.number 0 [
    .make .movr [.use (.core 2), .use (.core 3), .cond .al, .use .noreg],
    .make .flds [.use (.single 0), .use (.core 0), .imm 0, .cond .al, .use .noreg],
    .make .fstd [.use (.double 0), .use (.core 0), .imm 0, .cond .al, .use .noreg],
    .make .bxRet [.cond .al, .use .noreg]] }]
  fresh := 4

/-- After the first instruction `d0` is found dead and handed out, although its upper half is
stored later and nothing writes that. -/
theorem scan_halfLoaded :
    Target.plainDefault.findUnusedAt halfLoaded 0 0 .dpr false = .ok (some (.double 0)) ∧
      ∃ s, Site.at? halfLoaded 0 0 = some s ∧ scan (.double 0) s.rest = some false ∧
        ¬ WrittenFirst (.double 0) s.rest := by
  refine ⟨by decide +kernel, _, rfl, by decide, fun h => ?_⟩
  obtain ⟨j, hj, hreplaces⟩ := h [_] _ _ rfl (by decide) (.float 1) (by decide)
  obtain rfl := List.mem_singleton.1 hj
  exact absurd hreplaces (by decide)

end Liveness

end FrameLowering
