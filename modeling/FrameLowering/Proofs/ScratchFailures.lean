import FrameLowering.Proofs.LoweredFrame

/-!
# Failures for want of a scratch register

Only the elimination walk fails for want of a scratch register. When it does, all stages before it
have succeeded and so has the walk itself up to some line (`lower_scratch_cases`). At that line part
of the offset is left, no register is free, and no register can be borrowed: there is no slot or no
candidate for it, or the slot is out of reach (`expand_scratch_cases`).
-/

namespace FrameLowering

/-- The reason behind a failure that has one. -/
def Failure.reason? : Failure → Option Reason
  | .error e => e.reason?
  | .fault _ => none

/-- The failure is about a scratch register. -/
def Failure.LacksScratch (f : Failure) : Prop :=
  f.reason? = some .noScratch

/-- The failure is about a block, if it is about an instruction. -/
def Failure.IsIn (f : Failure) (block : Nat) : Prop :=
  ∀ name k i reason detail, f = .error (.inst name k i reason detail) → k = block

theorem Failure.isIn_inst {name : String} {block : Nat} {i : Inst} {reason : Reason}
    {detail : Detail} : (Failure.error (.inst name block i reason detail)).IsIn block := by
  intro _ _ _ _ _ h
  exact (LowerError.inst.inj (Failure.error.inj h)).2.1.symm

theorem Failure.isIn_fault {fault : Fault} {block : Nat} : (Failure.fault fault).IsIn block := by
  intro _ _ _ _ _ h
  cases h

/-- A failure of two operations in a row is one of the first, or of the second. -/
theorem Lowering.of_bind_error {α β : Type} {x : Lowering α} {f : α → Lowering β} {e : Failure}
    {p q : Procedure} (h : (x >>= f) p = .error e q) :
    x p = .error e q ∨ ∃ a m, x p = .ok a m ∧ f a m = .error e q := by
  cases hx : x p with
  | ok a m =>
    simp only [bind, EStateM.bind, hx] at h
    exact .inr ⟨a, m, rfl, h⟩
  | error e' m =>
    simp only [bind, EStateM.bind, hx] at h
    obtain ⟨rfl, rfl⟩ := EStateM.Result.error.inj h
    exact .inl rfl

namespace Target

/-! ## Stages -/

section
variable {t : Target} {p q : Procedure} {f : Failure}

theorem not_lacksScratch_of_computeLayout (h : t.computeLayout p = .error f q) :
    ¬ f.LacksScratch := by
  rw [computeLayout] at h
  split at h
  · cases h
  split at h
  · obtain ⟨rfl, -⟩ := EStateM.Result.error.inj h
    rintro ⟨⟩
  · split at h
    · obtain ⟨rfl, -⟩ := EStateM.Result.error.inj h
      rintro ⟨⟩
    · rw [locatePointer] at h
      split at h
      · split at h
        · cases h
        · obtain ⟨rfl, -⟩ := EStateM.Result.error.inj h
          rintro ⟨⟩
      · split at h
        · obtain ⟨rfl, -⟩ := EStateM.Result.error.inj h
          rintro ⟨⟩
        · cases h

theorem not_lacksScratch_of_emitPrologue (h : t.emitPrologue p = .error f q) :
    ¬ f.LacksScratch := by
  rw [emitPrologue] at h
  split at h
  · obtain ⟨rfl, -⟩ := EStateM.Result.error.inj h
    rintro ⟨⟩
  · obtain ⟨rfl, -⟩ := EStateM.Result.error.inj h
    rintro ⟨⟩
  · simp only at h
    split at h
    · cases h
    · split at h
      · obtain ⟨rfl, -⟩ := EStateM.Result.error.inj h
        rintro ⟨⟩
      · cases h

theorem not_lacksScratch_of_emitEpilogue {k : Nat} (h : t.emitEpilogue k p = .error f q) :
    ¬ f.LacksScratch := by
  rw [emitEpilogue] at h
  split at h
  · obtain ⟨rfl, -⟩ := EStateM.Result.error.inj h
    rintro ⟨⟩
  · obtain ⟨rfl, -⟩ := EStateM.Result.error.inj h
    rintro ⟨⟩
  · split at h
    · cases h
    · obtain ⟨rfl, -⟩ := EStateM.Result.error.inj h
      rintro ⟨⟩

theorem not_lacksScratch_of_emitEpilogues {ks : List Nat} (h : t.emitEpilogues ks p = .error f q) :
    ¬ f.LacksScratch := by
  induction ks generalizing p with
  | nil => cases h
  | cons k ks ih =>
    rcases Lowering.of_bind_error h with h | ⟨_, _, hget, h⟩
    · cases h
    obtain ⟨rfl, rfl⟩ := EStateM.Result.ok.inj hget
    split at h
    · rcases Lowering.of_bind_error h with h | ⟨_, m, -, h⟩
      · exact not_lacksScratch_of_emitEpilogue h
      · exact ih h
    · exact ih h

theorem not_lacksScratch_of_emitFrame (h : t.emitFrame p = .error f q) : ¬ f.LacksScratch := by
  rcases Lowering.of_bind_error h with h | ⟨_, m, -, h⟩
  · exact not_lacksScratch_of_emitPrologue h
  rcases Lowering.of_bind_error h with hget | ⟨_, _, hget, h⟩
  · cases hget
  · exact not_lacksScratch_of_emitEpilogues h

theorem not_lacksScratch_of_verify {e : LowerError} (h : p.verify = .error e) :
    ¬ (Failure.error e).LacksScratch := by
  rw [Procedure.verify] at h
  generalize p.located = es at h
  induction es with
  | nil => cases h
  | cons x es ih =>
    obtain ⟨k, i⟩ := x
    rw [Procedure.verifyInsts] at h
    cases hleft : i.leftover? with
    | none =>
      rw [hleft] at h
      exact ih h
    | some cause =>
      rw [hleft] at h
      obtain rfl := Except.error.inj h
      rw [Inst.leftover?] at hleft
      split at hleft
      · obtain rfl := Option.some.inj hleft
        rintro ⟨⟩
      · split at hleft
        · obtain rfl := Option.some.inj hleft
          rintro ⟨⟩
        · split at hleft
          · obtain rfl := Option.some.inj hleft
            rintro ⟨⟩
          · cases hleft

/-- A function that is not lowered for want of a scratch register is stopped by the walk. -/
theorem lower_scratch_cases (h : (t.lower p).failure = some f) (hf : f.LacksScratch) :
    t.abi.thumb1Only = false ∧ ∃ g m m' q,
      t.computeLayout (t.insertSpillCode (t.placeFrame (t.assignSlots
        (t.finalizeSpillSet t.config.scavenging (t.decidePointer p.markUsed))))) = .ok () g ∧
      t.emitPrologue g = .ok () m ∧ t.emitEpilogues (List.range m.blocks.length) m = .ok () m' ∧
      t.walkBlocks (List.range m'.blocks.length) m' = .error f q := by
  rw [lower] at h
  by_cases hthumb : t.abi.thumb1Only
  · rw [if_pos hthumb] at h
    obtain rfl := Option.some.inj h
    cases hf
  rw [if_neg hthumb] at h
  by_cases hblocks : p.blocks = []
  · rw [if_pos hblocks] at h
    obtain rfl := Option.some.inj h
    cases hf
  rw [if_neg hblocks, lowerBlocks] at h
  refine ⟨Bool.eq_false_iff.2 hthumb, ?_⟩
  simp only at h
  -- every other stage fails for reasons of its own
  cases hlayout : t.computeLayout (t.insertSpillCode (t.placeFrame (t.assignSlots
      (t.finalizeSpillSet t.config.scavenging (t.decidePointer p.markUsed))))) with
  | error f' q =>
    rw [hlayout] at h
    obtain rfl := Option.some.inj h
    exact absurd hf (not_lacksScratch_of_computeLayout hlayout)
  | ok u g =>
    rw [hlayout] at h
    simp only at h
    cases hinsert : t.insertFrame g with
    | ok u q =>
      rw [hinsert] at h
      simp only at h
      cases hverify : q.verify with
      | error e =>
        rw [hverify] at h
        obtain rfl := Option.some.inj h
        exact absurd hf (not_lacksScratch_of_verify hverify)
      | ok u =>
        rw [hverify] at h
        cases h
    | error f' q =>
      rw [hinsert] at h
      obtain rfl := Option.some.inj h
      rcases Lowering.of_bind_error hinsert with hframe | ⟨_, m', hframe, hwalk⟩
      · exact absurd hf (not_lacksScratch_of_emitFrame hframe)
      obtain ⟨m, hprologue, hepilogues⟩ := emitFrame_cases hframe
      exact ⟨g, m, m', q, rfl, hprologue, hepilogues, hwalk⟩

end

/-! ## The walk -/

section
variable {t : Target} {w : WideSet} {p q : Procedure} {block : Nat} {spAdj : Int64} {f : Failure}

/-- A walk through some blocks stops in one of them. -/
theorem walkBlocks_error {ks : List Nat} (h : t.walkBlocks ks p = .error f q) :
    ∃ done k rest m, ks = done ++ k :: rest ∧ t.walkBlocks done p = .ok () m ∧
      (t.walkLines m k 0 (m.lines k)).failure = some f := by
  induction ks generalizing p with
  | nil => cases h
  | cons k ks ih =>
    rcases Lowering.of_bind_error h with h | ⟨_, m, hk, h⟩
    · refine ⟨[], k, ks, p, rfl, rfl, ?_⟩
      rw [walkBlock] at h
      cases hfailure : (t.walkLines p k 0 (p.lines k)).failure with
      | some f' =>
        simp only [hfailure] at h
        obtain ⟨rfl, -⟩ := EStateM.Result.error.inj h
        rfl
      | none => simp [hfailure] at h
    · obtain ⟨done, j, rest, m', rfl, hdone, hfailure⟩ := ih h
      refine ⟨k :: done, j, rest, m', rfl, ?_, hfailure⟩
      show (t.walkBlock k >>= fun _ => t.walkBlocks done) p = _
      simp only [bind, EStateM.bind, hk]
      exact hdone

/-- A walk through some lines stops at one of them, which is a marker or has a frame index. -/
theorem walkLines_failure {ls : List Line} (hw : t.wide? = some w)
    (h : (t.walkLines p block spAdj ls).failure = some f) :
    ∃ before l after mid ps, ls = before ++ l :: after ∧
      Walks t w p block spAdj before mid ps ∧
      (t.callFrame p block l.inst = .error f ∨
        (t.expand p block l.inst (after.map Line.inst) mid t.config.scavenging).failure =
          some f) := by
  induction ls generalizing spAdj with
  | nil => cases h
  | cons l ls ih =>
    rw [walkLines] at h
    split at h
    · next hop =>
      cases hm : t.callFrame p block l.inst with
      | error f' =>
        simp only [hm] at h
        obtain rfl := Option.some.inj h
        exact ⟨[], l, ls, spAdj, [], rfl, .nil, .inl hm⟩
      | ok m =>
        simp only [hm] at h
        obtain ⟨before, x, after, mid, ps, rfl, hwalk, hx⟩ := ih h
        exact ⟨l :: before, x, after, mid, _, rfl, .marker hop hm hwalk, hx⟩
    · next hop =>
      split at h
      · next hplace =>
        obtain ⟨before, x, after, mid, ps, rfl, hwalk, hx⟩ := ih h
        exact ⟨l :: before, x, after, mid, _, rfl, .plain hop (by simpa using hplace) hwalk, hx⟩
      · cases hfailure : (t.expand p block l.inst (ls.map Line.inst) spAdj
            t.config.scavenging).failure with
        | some f' =>
          simp only [hfailure] at h
          obtain rfl := Option.some.inj h
          exact ⟨[], l, ls, spAdj, [], rfl, .nil, .inr hfailure⟩
        | none =>
          simp only [hfailure] at h
          obtain ⟨before, x, after, mid, ps, rfl, hwalk, hx⟩ := ih h
          have hexpands := expands_of_expand hw rfl hfailure
          exact ⟨l :: before, x, after, mid, _, rfl,
            .expand hop hexpands hwalk, hx⟩

theorem not_lacksScratch_of_callFrame {i : Inst} (hw : t.wide? = some w)
    (h : t.callFrame p block i = .error f) : ¬ f.LacksScratch := by
  rw [callFrame, hw] at h
  simp only at h
  split at h
  · obtain rfl := Except.error.inj h
    rintro ⟨⟩
  · split at h
    · obtain rfl := Except.error.inj h
      rintro ⟨⟩
    · cases h

end

/-! ## One instruction -/

section
variable {t : Target} {w : WideSet} {p : Procedure} {block : Nat} {i : Inst} {spAdj : Int64}
  {f : Failure}

/-- An offset that cannot be folded in is not about registers. -/
theorem fold_error {place : Nat} {a : Address} {reason : Reason} {detail : Detail}
    (h : (t.fold w i place a).rest = .error (reason, detail)) : reason ≠ .noScratch := by
  rw [fold] at h
  split at h
  · rw [WideSet.foldAdd] at h
    split at h
    · simp only at h
      split at h
      · cases h
      · split at h
        · obtain ⟨rfl, -⟩ := Prod.mk.inj (Except.error.inj h)
          rintro ⟨⟩
        · split at h <;> cases h
    · obtain ⟨rfl, -⟩ := Prod.mk.inj (Except.error.inj h)
      rintro ⟨⟩
  · rw [Inst.foldMemory] at h
    simp only at h
    split at h
    · split at h
      · split at h
        · obtain ⟨rfl, -⟩ := Prod.mk.inj (Except.error.inj h)
          rintro ⟨⟩
        · rw [Inst.foldOffset] at h
          simp only at h
          split at h
          · cases h
          · split at h <;> cases h
          · cases h
      · obtain ⟨rfl, -⟩ := Prod.mk.inj (Except.error.inj h)
        rintro ⟨⟩
    · obtain ⟨rfl, -⟩ := Prod.mk.inj (Except.error.inj h)
      rintro ⟨⟩

/-- A frame index that cannot be replaced is an error about the instruction, or a fault. -/
theorem rebase_error_cases {e : Stuck} (h : t.rebase w p block i spAdj = .error e) :
    (∃ fault, e.failure = .fault fault) ∨ ∃ j reason detail,
      e.failure = .error (.inst p.name block j reason detail) ∧ reason ≠ .noScratch := by
  rw [rebase] at h
  simp only at h
  split at h
  · obtain rfl := Except.error.inj h
    exact .inr ⟨_, _, _, rfl, by decide⟩
  · split at h
    · obtain rfl := Except.error.inj h
      exact .inr ⟨_, _, _, rfl, by decide⟩
    · split at h
      · obtain rfl := Except.error.inj h
        exact .inl ⟨_, rfl⟩
      · split at h
        · next hrest =>
          obtain rfl := Except.error.inj h
          exact .inr ⟨_, _, _, rfl, fold_error hrest⟩
        · split at h
          · obtain rfl := Except.error.inj h
            exact .inr ⟨_, _, _, rfl, by decide⟩
          · cases h

theorem not_lacksScratch_of_rebase {e : Stuck} (h : t.rebase w p block i spAdj = .error e) :
    ¬ e.failure.LacksScratch := by
  intro hlacks
  rcases rebase_error_cases h with ⟨fault, hf⟩ | ⟨_, _, _, hf, hne⟩
  · rw [hf] at hlacks
    cases hlacks
  · rw [hf] at hlacks
    exact hne (Option.some.inj hlacks)

theorem isIn_of_rebase {e : Stuck} (h : t.rebase w p block i spAdj = .error e) :
    e.failure.IsIn block := by
  rcases rebase_error_cases h with ⟨fault, hf⟩ | ⟨_, _, _, hf, -⟩
  · rw [hf]
    exact Failure.isIn_fault
  · rw [hf]
    exact Failure.isIn_inst

/-- Without scavenging the frame index cannot be replaced, or `r12` is missed for the part of the
offset that is left. -/
theorem expandDirect_failure_cases (h : (t.expandDirect w p block i spAdj).failure = some f) :
    (∃ e, t.rebase w p block i spAdj = .error e ∧ e.failure = f) ∨
      ∃ r, t.rebase w p block i spAdj = .ok r ∧ r.rest ≠ 0 ∧
        f = .error (.inst p.name block r.inst .noScratch (.scratchInUse r.rest)) := by
  rw [expandDirect] at h
  cases hr : t.rebase w p block i spAdj with
  | error e =>
    simp only [hr] at h
    exact .inl ⟨e, rfl, Option.some.inj h⟩
  | ok r =>
    simp only [hr] at h
    split at h
    · cases h
    next hrest =>
    split at h
    · exact .inr ⟨r, rfl, hrest, (Option.some.inj h).symm⟩
    · cases h

/-- A core register cannot be borrowed if there is no slot to store it in, or if the instruction
leaves none. -/
theorem borrow_error_cases {s : Site} (h : t.borrow p s .gpr = .error f) :
    ∃ detail, f = .error (.inst p.name s.block s.inst .noScratch detail) ∧
      (p.frame.object? p.frame.scavengingIndex = none ∨
        t.candidates p s.inst RegClass.coreOrder = []) := by
  rw [borrow] at h
  split at h
  · next hslot =>
    exact ⟨_, (Except.error.inj h).symm, .inl (by simpa using hslot)⟩
  · have hinfo : RegClass.gpr.info = .ok ⟨4, 4, Reg.cores, RegClass.coreOrder⟩ := rfl
    simp only [hinfo] at h
    split at h
    · next hnone => exact ⟨_, (Except.error.inj h).symm, .inr hnone⟩
    · cases h

/-- The ways in which scavenging fails. -/
theorem expand_failure_cases {rest : List Inst} (hw : t.wide? = some w)
    (h : (t.expand p block i rest spAdj true).failure = some f) :
    (∃ e, t.rebase w p block i spAdj = .error e ∧ e.failure = f) ∨
      ∃ r, t.rebase w p block i spAdj = .ok r ∧ r.rest ≠ 0 ∧
        t.freeScratch? p ⟨block, r.inst, rest⟩ = none ∧
        (t.borrow p ⟨block, r.inst, rest⟩ .gpr = .error f ∨
          ∃ x, t.IsScratch r.inst x ∧
            ((t.expandDirect w p block (t.lend p x).spill spAdj).failure = some f ∨
              (t.expandDirect w p block (t.lend p x).reload spAdj).failure = some f)) := by
  rw [expand, hw] at h
  simp only [if_true] at h
  rw [expandScavenging] at h
  cases hr : t.rebase w p block i spAdj with
  | error e =>
    simp only [hr] at h
    exact .inl ⟨e, rfl, Option.some.inj h⟩
  | ok r =>
    simp only [hr] at h
    split at h
    · cases h
    next hrest =>
    cases hfree : t.freeScratch? p ⟨block, r.inst, rest⟩ with
    | some scratch => simp [hfree] at h
    | none =>
      refine .inr ⟨r, rfl, hrest, hfree, ?_⟩
      simp only [hfree] at h
      cases hborrow : t.borrow p ⟨block, r.inst, rest⟩ .gpr with
      | error f' =>
        simp only [hborrow] at h
        exact .inl (congrArg _ (Option.some.inj h))
      | ok b =>
        obtain ⟨hlend, hscratch⟩ := borrow_facts hborrow
        simp only [hborrow] at h
        rw [expandBorrowed] at h
        refine .inr ⟨b.reg, hscratch, ?_⟩
        rw [← hlend]
        cases hspill : (t.expandDirect w p block b.spill spAdj).failure with
        | some f' =>
          simp only [hspill] at h
          exact .inl h
        | none =>
          simp only [hspill] at h
          exact .inr h

/-- Why there is no scratch register for an instruction: part of its offset is left, no register is
free, and none can be borrowed. -/
theorem expand_scratch_cases {rest : List Inst} {name : String} {k : Nat} {j : Inst}
    {detail : Detail} (hw : t.wide? = some w)
    (h : (t.expand p block i rest spAdj true).failure =
      some (.error (.inst name k j .noScratch detail))) :
    ∃ r, t.rebase w p block i spAdj = .ok r ∧ r.rest ≠ 0 ∧
      t.freeScratch? p ⟨block, r.inst, rest⟩ = none ∧
      (p.frame.object? p.frame.scavengingIndex = none ∨
        (j = r.inst ∧ t.candidates p r.inst RegClass.coreOrder = []) ∨
        ∃ x r', t.IsScratch r.inst x ∧ (t.rebase w p block (t.lend p x).spill spAdj = .ok r' ∨
          t.rebase w p block (t.lend p x).reload spAdj = .ok r') ∧ r'.rest ≠ 0) := by
  have hlacks : (Failure.error (.inst name k j .noScratch detail)).LacksScratch := rfl
  have hdirect {i : Inst} (h : (t.expandDirect w p block i spAdj).failure =
      some (.error (.inst name k j .noScratch detail))) :
      ∃ r, t.rebase w p block i spAdj = .ok r ∧ r.rest ≠ 0 := by
    rcases expandDirect_failure_cases h with ⟨e, he, hf⟩ | ⟨r, hr, hrest, -⟩
    · exact absurd (hf ▸ hlacks) (not_lacksScratch_of_rebase he)
    · exact ⟨r, hr, hrest⟩
  rcases expand_failure_cases hw h with ⟨e, he, hf⟩ | ⟨r, hr, hrest, hfree, hcause⟩
  · exact absurd (hf ▸ hlacks) (not_lacksScratch_of_rebase he)
  refine ⟨r, hr, hrest, hfree, ?_⟩
  rcases hcause with hborrow | ⟨x, hscratch, hspill | hreload⟩
  · obtain ⟨_, hf, hnone | hnil⟩ := borrow_error_cases hborrow
    · exact .inl hnone
    · exact .inr (.inl ⟨(LowerError.inst.inj (Failure.error.inj hf)).2.2.1, hnil⟩)
  · obtain ⟨r', hr', hrest'⟩ := hdirect hspill
    exact .inr (.inr ⟨x, r', hscratch, .inl hr', hrest'⟩)
  · obtain ⟨r', hr', hrest'⟩ := hdirect hreload
    exact .inr (.inr ⟨x, r', hscratch, .inr hr', hrest'⟩)

theorem isIn_of_expandDirect (h : (t.expandDirect w p block i spAdj).failure = some f) :
    f.IsIn block := by
  rcases expandDirect_failure_cases h with ⟨e, he, rfl⟩ | ⟨r, -, -, rfl⟩
  · exact isIn_of_rebase he
  · exact Failure.isIn_inst

/-- A walk fails in the block in which it is. -/
theorem isIn_of_expand {rest : List Inst} (hw : t.wide? = some w)
    (h : (t.expand p block i rest spAdj true).failure = some f) : f.IsIn block := by
  rcases expand_failure_cases hw h with ⟨e, he, rfl⟩ | ⟨r, -, -, -, hcause⟩
  · exact isIn_of_rebase he
  rcases hcause with hborrow | ⟨x, -, hspill | hreload⟩
  · obtain ⟨_, rfl, -⟩ := borrow_error_cases hborrow
    exact Failure.isIn_inst
  · exact isIn_of_expandDirect hspill
  · exact isIn_of_expandDirect hreload

end

end Target

end FrameLowering
