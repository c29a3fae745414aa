import FrameLowering.Proofs.EliminatedIndex

/-!
# Borrowed registers

An instruction for which no register is free borrows one. The register is stored to the scavenging
slot before the instruction and loaded again after it (`Target.Borrows`). If the slot is accessed
without another scratch register (`Target.FoldsWhole`), the borrowing goes unnoticed: after the
load every register but those that the instruction defines has its value again, and nothing is
stored outside of the slot but by the instruction (`transparent_of_borrows`).

The load finds the slot only if the instruction leaves alone the register from which the slot is
addressed. An addition to the stack pointer does not (`lost_of_moveStack`).
-/

namespace FrameLowering

open ImmediateField (word)

/-! ## Definitions of an instruction -/

theorem Opcode.Becomes.info_eq {w : WideSet} {a b : Opcode} (h : Opcode.Becomes w a b) :
    b.info.flags.isAsm = a.info.flags.isAsm ∧ b.info.defs = a.info.defs := by
  cases h with
  | subtraction | move => cases w <;> exact ⟨rfl, rfl⟩
  | same | load | store => exact ⟨rfl, rfl⟩

namespace Inst

/-- The registers that an instruction can change, calls apart: those in the operands that its
opcode defines. Assembly text can change every register that it names. -/
def definitions (i : Inst) : List Reg :=
  (i.operands.map Operand.register).take
    (if i.info.flags.isAsm then i.operands.length else i.info.defs)

section
variable {i i' : Inst} {s s' : State} {w : WideSet} {place : Nat}

/-- An instruction with one definition changes the register in its first operand. -/
theorem agreesOff_definitions_assign (hasm : i.info.flags.isAsm = false) (hdefs : i.info.defs = 1)
    (s : State) (ws : List Word) : s.AgreesOff i.definitions (s.assign (i.register 0) ws) := by
  intro c hc
  refine State.cells_assign_of_notMem ?_
  rw [definitions, hasm, hdefs] at hc
  cases hos : i.operands with
  | nil => simp [register, hos, Reg.cells]
  | cons o os => simpa [register, hos] using hc o.register (by simp [hos])

/-- Calls apart, an instruction changes only what it defines. -/
theorem Effect.agreesOff_definitions (h : i.Effect s s') (hcall : i.info.flags.isCall = false) :
    s.AgreesOff i.definitions s' := by
  rcases h with ⟨-, h⟩ | ⟨-, rfl⟩
  · obtain ⟨op, os⟩ := i
    cases op
    case bl | t2bl | tbl => cases hcall
    case bxRet | tbxRet => exact h.elim
    case ldrcp =>
      obtain ⟨w, rfl⟩ := h
      exact agreesOff_definitions_assign rfl rfl s _
    case inlineAsm =>
      refine fun c hc => h c fun r hr => hc r ?_
      show r ∈ (os.map Operand.register).take os.length
      rwa [List.take_of_length_le (List.length_map _).le]
    -- stores and markers change no register
    case str | strb | strh | fstd | fsts | t2stri12 | t2stri8 | t2strs | tstrspi | callFrameDown |
        callFrameUp =>
      obtain rfl := h
      exact fun _ _ => rfl
    all_goals
      obtain rfl := h
      exact agreesOff_definitions_assign rfl rfl s _
  · exact fun _ _ => rfl

/-- Registers of which an instruction gets one in the place of its frame index. -/
theorem KeepsOperands.definitions_setOperand {r x : Reg} {d k : Bool} (h : i.KeepsOperands w i')
    (hop : Opcode.Becomes w i.op i'.op) (hplace : i.frameIndexAt = some place)
    (hx : x ∈ (i'.setOperand place (.reg r d k)).definitions) : x ∈ i.definitions ∨ x = r := by
  have hinfo : i'.info.flags.isAsm = i.info.flags.isAsm ∧ i'.info.defs = i.info.defs :=
    hop.info_eq
  rw [definitions, show (i'.setOperand place _).info = i'.info from rfl, hinfo.1, hinfo.2] at hx
  cases h with
  | @changed front middle back _ v v' base _ hfirst _ hold hnew =>
    obtain rfl := Option.some.inj (hplace.symm.trans hfirst)
    have hset : (i'.setOperand front.length (.reg r d k)).operands.map Operand.register =
        (i.operands.map Operand.register).set front.length r := by
      simp [Inst.setOperand, hold, hnew, Operand.register]
    have hlen : (i'.setOperand front.length (.reg r d k)).operands.length = i.operands.length := by
      simp [Inst.setOperand, hold, hnew]
    rw [hset, hlen, List.take_set] at hx
    exact List.mem_or_eq_of_mem_set hx
  | @dropped front back _ v base _ hfirst hadd hmove hold hnew =>
    obtain rfl := Option.some.inj (hplace.symm.trans hfirst)
    have hone : i.info.flags.isAsm = false ∧ i.info.defs = 1 := by
      rw [info, hadd]
      cases w <;> exact ⟨rfl, rfl⟩
    have hset : (i'.setOperand front.length (.reg r d k)).operands =
        front ++ .reg r d k :: back := by
      simp [Inst.setOperand, hnew]
    rw [hset, hone.1, hone.2] at hx
    rw [definitions, hone.1, hone.2, hold]
    cases front with
    | nil => exact .inr (by simpa [Operand.register] using hx)
    | cons o front => exact .inl (by simpa using hx)

end

end Inst

/-! ## Slots in reach -/

namespace Target

/-- An instruction is without its frame index once it has a base register in its place, since its
offset fits. -/
def FoldsWhole (t : Target) (w : WideSet) (p : Procedure) (block : Nat) (i : Inst)
    (spAdj : Int64) : Prop :=
  ∃ r, t.rebase w p block i spAdj = .ok r ∧ r.rest = 0

/-- The register `b.reg` is borrowed for an instruction, which is `r.inst` then: part of its offset
is left over, and no register is free for it. -/
structure Borrows (t : Target) (w : WideSet) (p : Procedure) (block : Nat) (i : Inst)
    (rest : List Inst) (spAdj : Int64) (r : Rebased) (b : Borrow) : Prop where
  rebased : t.rebase w p block i spAdj = .ok r
  left : r.rest ≠ 0
  busy : t.freeScratch? p ⟨block, r.inst, rest⟩ = none
  lent : t.borrow p ⟨block, r.inst, rest⟩ .gpr = .ok b

section
variable {t : Target} {w : WideSet} {p : Procedure} {block : Nat} {i : Inst} {rest : List Inst}
  {spAdj index : Int64} {r : Rebased} {b : Borrow} {n : Fin 16} {x : Reg} {s s' : State}

theorem foldsWhole_iff (hi : i.IsSlotAccess x index) : t.FoldsWhole w p block i spAdj ↔
    ∃ o a, p.frame.object? index = some o ∧ t.address p index o spAdj = .ok a ∧
      (t.fold w i 1 a).rest = .ok 0 := by
  constructor
  · rintro ⟨r, hr, hrest⟩
    obtain ⟨o, ho⟩ := object_of_rebase hr hi.place hi.index
    obtain ⟨j, o', a, hat, hj, ho', ha, -, hfold, -⟩ := rebase_cases hr
    rw [Option.some.inj (hat.symm.trans hi.place)] at hj hfold
    obtain rfl : index = j := Operand.frameIndex.inj (Option.some.inj (hi.index.symm.trans hj))
    refine ⟨o', a, ho', ha, ?_⟩
    rw [hfold, hrest]
  · rintro ⟨o, a, ho, ha, hfold⟩
    refine ⟨⟨(t.fold w i 1 a).inst, 1, a.base, 0⟩, ?_, rfl⟩
    rw [rebase, hi.place]
    simp only [hi.index, Option.map_some, Option.getD_some, Operand.value, ho, ha, hfold]
    rfl

/-- The store of a register to a slot fits if and only if the load from it does. -/
theorem foldsWhole_slot_iff :
    t.FoldsWhole w p block (w.set.storeToSlot (.core n) index) spAdj ↔
      t.FoldsWhole w p block (w.set.loadFromSlot (.core n) index) spAdj := by
  rw [foldsWhole_iff (w.isSlotAccess_storeToSlot (.inl ⟨n, rfl⟩) index),
    foldsWhole_iff (w.isSlotAccess_loadFromSlot (.inl ⟨n, rfl⟩) index)]
  simp only [rest_fold_slot]

theorem expandDirect_of_rest (hr : t.rebase w p block i spAdj = .ok r) (hrest : r.rest = 0) :
    t.expandDirect w p block i spAdj = { inst := r.inst } := by
  rw [expandDirect, hr]
  exact if_pos hrest

namespace Borrows

theorem expand_eq (h : t.Borrows w p block i rest spAdj r b) (hw : t.wide? = some w) :
    t.expand p block i rest spAdj true = t.expandBorrowed w p block r b spAdj := by
  simp only [expand, hw, if_true, expandScavenging, h.rebased, if_neg h.left, h.busy, h.lent]

/-- The register that is borrowed, with its store and its load. -/
theorem cases (h : t.Borrows w p block i rest spAdj r b) (hw : t.wide? = some w) :
    ∃ n, b.reg = .core n ∧ b.spill = w.set.storeToSlot (.core n) p.frame.scavengingIndex ∧
      b.reload = w.set.loadFromSlot (.core n) p.frame.scavengingIndex ∧
      t.IsScratch i (.core n) := by
  obtain ⟨hlend, hscratch⟩ := borrow_facts h.lent
  obtain ⟨n, hn⟩ := hscratch.core
  rw [hn, lend, instrSet_of_wide hw] at hlend
  refine ⟨n, hn, by rw [hlend], by rw [hlend], ?_⟩
  rw [hn] at hscratch
  exact hscratch.of_rebase h.rebased

/-- The instructions around one that borrows a register, if the slot is in reach. -/
theorem expandBorrowed_eq (h : t.Borrows w p block i rest spAdj r b) (hw : t.wide? = some w)
    (hreach : t.FoldsWhole w p block b.spill spAdj) :
    ∃ spill reload, t.rebase w p block b.spill spAdj = .ok spill ∧ spill.rest = 0 ∧
      t.rebase w p block b.reload spAdj = .ok reload ∧ reload.rest = 0 ∧
      t.expandBorrowed w p block r b spAdj =
        ⟨spill.inst :: r.chain w b.reg, r.through b.reg, [reload.inst], none⟩ := by
  obtain ⟨n, -, hspill, hreload, -⟩ := h.cases hw
  have hback : t.FoldsWhole w p block b.reload spAdj := by
    rw [hreload]
    exact foldsWhole_slot_iff.1 (hspill ▸ hreach)
  obtain ⟨spill, hr, hrest⟩ := hreach
  obtain ⟨reload, hr', hrest'⟩ := hback
  refine ⟨spill, reload, hr, hrest, hr', hrest', ?_⟩
  rw [expandBorrowed, expandDirect_of_rest hr hrest, expandDirect_of_rest hr' hrest']
  rfl

/-- The slot that the borrowed register goes to. -/
theorem slot (h : t.Borrows w p block i rest spAdj r b) (hw : t.wide? = some w)
    (hreach : t.FoldsWhole w p block b.spill spAdj) :
    ∃ o a, p.frame.object? p.frame.scavengingIndex = some o ∧
      t.address p p.frame.scavengingIndex o spAdj = .ok a := by
  obtain ⟨n, -, hspill, -⟩ := h.cases hw
  rw [hspill, foldsWhole_iff (w.isSlotAccess_storeToSlot (.inl ⟨n, rfl⟩) _)] at hreach
  obtain ⟨o, a, ho, ha, -⟩ := hreach
  exact ⟨o, a, ho, ha⟩

end Borrows

/-! ## Around the instruction -/

/-- A register that may be borrowed for an instruction. -/
structure IsLendable (t : Target) (p : Procedure) (i : Inst) (x : Reg) : Prop where
  ne_sp : x ≠ Reg.sp
  ne_pc : x ≠ Reg.pc
  ne_pointer : x ≠ t.framePointer
  unreserved : t.isReserved p x = false
  unread : i.reads x = false
  unwritten : i.writes x = false

theorem Borrows.isLendable (h : t.Borrows w p block i rest spAdj r b) :
    t.IsLendable p i b.reg := by
  obtain ⟨-, hmem⟩ := borrow_cases h.lent
  have hscratch := (isScratch_of_mem_candidates hmem).of_rebase h.rebased
  have hunnamed := hscratch.unnamed
  have hreserved : t.isReserved p b.reg = false := by
    simp only [candidates, List.mem_filter, Bool.not_eq_true', Bool.or_eq_false_iff] at hmem
    exact hmem.2.1.2
  simp only [Inst.refers, Bool.or_eq_true, not_or, Bool.not_eq_true] at hunnamed
  exact ⟨hscratch.ne_sp, ne_pc_of_mem_candidates hmem, hscratch.ne_pointer, hreserved,
    hunnamed.1, hunnamed.2⟩

section
variable {o : FrameObject} {a : Address}

/-- The store of a register to a slot in reach. -/
theorem storeToSlot_of_rest
    (hr : t.rebase w p block (w.set.storeToSlot (.core n) index) spAdj = .ok r) (hrest : r.rest = 0)
    (ho : p.frame.object? index = some o) (ha : t.address p index o spAdj = .ok a)
    (heff : r.inst.Effect s s') :
    s' = { s with
      mem := s.mem.storeWords (s.read a.base + word a.offset) (s.value (.core n)) } := by
  have hslot := w.isSlotAccess_storeToSlot (.inl ⟨n, rfl⟩) index
  exact WideSet.effect_storeToSlot (.inl ⟨n, rfl⟩)
    (forms_from_base hr hslot.place hslot.index ho ha hrest s) heff

/-- The load of a register from a slot in reach. -/
theorem loadFromSlot_of_rest
    (hr : t.rebase w p block (w.set.loadFromSlot (.core n) index) spAdj = .ok r)
    (hrest : r.rest = 0) (ho : p.frame.object? index = some o)
    (ha : t.address p index o spAdj = .ok a) (heff : r.inst.Effect s s') :
    s' = s.assign (.core n) (s.mem.loadWords (s.read a.base + word a.offset) 1) := by
  have hslot := w.isSlotAccess_loadFromSlot (.inl ⟨n, rfl⟩) index
  exact WideSet.effect_loadFromSlot (.inl ⟨n, rfl⟩)
    (forms_from_base hr hslot.place hslot.index ho ha hrest s) heff

end

/-- A run through an instruction for which `x` is borrowed, from `s` to `s₃`. The instruction
itself goes from `s₁` to `s₂`, and it finds all registers but `x` as they were. -/
structure Transparent (i : Inst) (x : Reg) (slot : Word) (s s₁ s₂ s₃ : State) : Prop where
  registers : s.AgreesOff i.definitions s₃
  returned : s₃.value x = s.value x
  entering : s.AgreesOff [x] s₁
  leaving : s₂.AgreesOff [x] s₃
  stored : ∀ a, ¬ Memory.Within slot 4 a → s₁.mem a = s.mem a
  loaded : s₃.mem = s₂.mem
  flags : s₁.flags = s.flags ∧ s₃.flags = s₂.flags

/-- Registers that an instruction defines after its frame index was eliminated. -/
theorem agreesOff_through (hr : t.rebase w p block i spAdj = .ok r)
    (heff : (r.through x).Effect s s') : s.AgreesOff (x :: i.definitions) s' := by
  obtain ⟨_, _, _, hfirst, hindex, -, -, -, hfold, -⟩ := rebase_cases hr
  have hcall : (r.through x).info.flags.isCall = false := by
    show r.inst.info.flags.isCall = false
    rw [(fold_operands hfold).1]
    exact (flags_of_fold hfold).2
  intro c hc
  refine heff.agreesOff_definitions hcall c fun y hy => ?_
  have hkeeps := keepsOperands_of_fold hfirst hindex hfold
  rcases hkeeps.definitions_setOperand (becomes_of_fold hfold) hfirst hy with hy | rfl
  · exact hc y (List.mem_cons_of_mem _ hy)
  · exact hc y List.mem_cons_self

/-- Storing the borrowed register, forming the sum in it, the instruction and loading the register
again, one after the other. -/
theorem Borrows.transparent {o : FrameObject} {a : Address} {spill reload : Rebased}
    {s s₁ s₂ s₃ : State} (h : t.Borrows w p block i rest spAdj r b) (hw : t.wide? = some w)
    (ho : p.frame.object? p.frame.scavengingIndex = some o)
    (ha : t.address p p.frame.scavengingIndex o spAdj = .ok a)
    (hspill : t.rebase w p block b.spill spAdj = .ok spill) (hfits : spill.rest = 0)
    (hreload : t.rebase w p block b.reload spAdj = .ok reload) (hfits' : reload.rest = 0)
    (hbefore : ExecAll (spill.inst :: r.chain w b.reg) s s₁)
    (heff : (r.through b.reg).Effect s₁ s₂) (hafter : ExecAll [reload.inst] s₂ s₃)
    (hbase : s₂.read a.base = s₁.read a.base)
    (hkept : ∀ x, Memory.Within (s.read a.base + word a.offset) 4 x → s₂.mem x = s₁.mem x) :
    Transparent i b.reg (s.read a.base + word a.offset) s s₁ s₂ s₃ := by
  obtain ⟨n, hn, hstore, hload, hscratch⟩ := h.cases hw
  rw [hstore] at hspill
  rw [hload] at hreload
  rw [hn] at hbefore heff ⊢
  obtain ⟨m, hfirst, hchain⟩ := hbefore
  obtain ⟨y, hlast, rfl⟩ := hafter
  have hfirst := storeToSlot_of_rest hspill hfits ho ha hfirst
  have hlast := loadFromSlot_of_rest hreload hfits' ho ha hlast
  obtain ⟨hlo, hhi⟩ := rebase_range h.rebased
  obtain ⟨hsum, hmem, hflags⟩ := Rebased.agreesOff_chain hlo hhi h.left hchain
  have hentering : s.AgreesOff [.core n] s₁ := by
    intro c hc
    rw [hsum c hc, hfirst]
  have hleaving : s₂.AgreesOff [.core n] s₃ := by
    rw [hlast]
    exact State.agreesOff_assign s₂ _ _
  -- the load goes to the address that the store went to
  have hread : s₂.read a.base = s.read a.base := by
    refine hbase.trans (hentering.read_eq fun x hx hover => ?_)
    obtain rfl := List.mem_singleton.1 hx
    have hself : Reg.core n = a.base := (Reg.eq_of_core_overlaps hover).symm
    rcases address_base ha with hsp | ⟨hfp, -⟩
    · exact hscratch.ne_sp (hself.trans hsp)
    · exact hscratch.ne_pointer (hself.trans hfp)
  have hwords : s₂.mem.loadWords (s.read a.base + word a.offset) 1 = s.value (.core n) := by
    rw [Memory.loadWords_congr (m := s₁.mem) (by decide) hkept, hmem, hfirst]
    exact Memory.loadWords_storeWords (by simp [State.value, Reg.cells])
  have hreturned : s₃.value (.core n) = s.value (.core n) := by
    rw [hlast, State.value_assign rfl, hread, hwords]
  refine ⟨fun c hc => ?_, hreturned, hentering, hleaving, fun x hx => ?_, ?_, ?_, ?_⟩
  · by_cases hmine : c ∈ (Reg.core n).cells
    · exact List.map_inj_left.1 hreturned c hmine
    · have hout : ∀ x ∈ [Reg.core n], c ∉ x.cells := by
        intro x hx
        obtain rfl := List.mem_singleton.1 hx
        exact hmine
      have hdefs : ∀ x ∈ Reg.core n :: i.definitions, c ∉ x.cells := by
        intro x hx
        rcases List.mem_cons.1 hx with rfl | hx
        · exact hmine
        · exact hc x hx
      rw [hleaving c hout, agreesOff_through h.rebased heff c hdefs, hentering c hout]
  · rw [hmem, hfirst]
    exact Memory.storeWords_of_not_within hx (by simp [State.value, Reg.cells])
  · rw [hlast, State.assign_mem]
  · rw [hflags, hfirst]
  · rw [hlast, State.assign_flags]

/-- The block after the frame index of one of its instructions was eliminated. -/
theorem eliminateAt_of_expand {place : Nat} {l : Line} {scavenging : Bool} {e : Expansion}
    (hl : (p.lines block)[place]? = some l)
    (he : t.expand p block l.inst (((p.lines block).drop (place + 1)).map Line.inst) spAdj
      scavenging = e) (hok : e.failure = none) :
    ∃ q, t.eliminateAt block place spAdj scavenging p = .ok () q ∧
      (q.lines block).map Line.inst = ((p.lines block).take place).map Line.inst ++
        (e.before ++ e.inst :: e.after) ++ ((p.lines block).drop (place + 1)).map Line.inst := by
  have hdrop : (p.lines block).drop place = l :: (p.lines block).drop (place + 1) := by
    obtain ⟨hlt, rfl⟩ := List.getElem?_eq_some_iff.1 hl
    exact List.drop_eq_getElem_cons hlt
  have hblock : ∃ k, p.blocks[block]? = some k := by
    rw [Procedure.lines] at hl
    split at hl
    · next k hk => exact ⟨k, hk⟩
    · cases hl
  obtain ⟨k, hk⟩ := hblock
  refine ⟨p.setPieces block (((p.lines block).take place).map .line ++ e.pieces l ++
    ((p.lines block).drop (place + 1)).map .line), ?_, ?_⟩
  · simp only [eliminateAt, hdrop, he, hok]
  · rw [Procedure.map_inst_setPieces hk]
    simp [Expansion.pieces, Piece.inst, Function.comp_def]

end

/-- A register that was given back is not given back again. -/
theorem release_again {n n' : Loan} {p q : Procedure} (h : n.release p = .ok n' q)
    (p' : Procedure) : n'.release p' = .ok n' p' := by
  have hreleased : n'.released := by
    rw [Loan.release] at h
    split at h
    · next hreleased =>
      obtain ⟨rfl, -⟩ := EStateM.Result.ok.inj h
      exact hreleased
    · split at h
      · cases h
      · obtain ⟨rfl, -⟩ := EStateM.Result.ok.inj h
        rfl
  exact if_pos hreleased

/-- A register is borrowed without a trace. If its slot is in reach, one instruction before the sum
and one after the access are all that the borrowing adds. The register is none that anything else
depends on, and it has its old value again in the end, as has every other register that the
instruction does not define, provided that the instruction leaves two things as they are: what is
stored in the slot, and the register from which the slot is addressed. Giving the register back a
second time does nothing. -/
theorem transparent_of_borrows {t : Target} {w : WideSet} {p : Procedure} {block place : Nat}
    {spAdj : Int64} {l : Line} {r : Rebased} {b : Borrow} (hw : t.wide? = some w)
    (hl : (p.lines block)[place]? = some l)
    (h : t.Borrows w p block l.inst (((p.lines block).drop (place + 1)).map Line.inst) spAdj r b)
    (hreach : t.FoldsWhole w p block b.spill spAdj) :
    t.IsLendable p l.inst b.reg ∧
    (∃ q o a spill reload, t.eliminateAt block place spAdj true p = .ok () q ∧
      p.frame.object? p.frame.scavengingIndex = some o ∧
      t.address p p.frame.scavengingIndex o spAdj = .ok a ∧
      t.rebase w p block b.spill spAdj = .ok spill ∧
      t.rebase w p block b.reload spAdj = .ok reload ∧
      (q.lines block).map Line.inst = ((p.lines block).take place).map Line.inst ++
        (spill.inst :: r.chain w b.reg ++ [r.through b.reg, reload.inst]) ++
        ((p.lines block).drop (place + 1)).map Line.inst ∧
      ∀ s, (∃ s', ExecAll (spill.inst :: r.chain w b.reg ++ [r.through b.reg, reload.inst]) s s') ∧
        ∀ s₁ s₂ s₃, ExecAll (spill.inst :: r.chain w b.reg) s s₁ →
          (r.through b.reg).Effect s₁ s₂ → reload.inst.Effect s₂ s₃ →
          s₂.read a.base = s₁.read a.base →
          (∀ x, Memory.Within (s.read a.base + word a.offset) 4 x → s₂.mem x = s₁.mem x) →
          Transparent l.inst b.reg (s.read a.base + word a.offset) s s₁ s₂ s₃) ∧
    ∀ (n n' : Loan) (x x' y : Procedure), n.release x = .ok n' x' → n'.release y = .ok n' y := by
  refine ⟨h.isLendable, ?_, fun n n' x x' y hrelease => release_again hrelease y⟩
  obtain ⟨o, a, ho, ha⟩ := h.slot hw hreach
  obtain ⟨spill, reload, hspill, hfits, hreload, hfits', hexpand⟩ := h.expandBorrowed_eq hw hreach
  have he := (h.expand_eq hw).trans hexpand
  obtain ⟨q, hq, hlines⟩ := eliminateAt_of_expand hl he rfl
  refine ⟨q, o, a, spill, reload, hq, ho, ha, hspill, hreload, hlines, fun s => ⟨?_, ?_⟩⟩
  · exact exists_execAll (expands_of_expand hw he rfl).stays s
  · intro s₁ s₂ s₃ hbefore heff hafter hbase hkept
    exact h.transparent hw ho ha hspill hfits hreload hfits' hbefore heff ⟨s₃, hafter, rfl⟩
      hbase hkept

/-! ## Registers that are all in use -/

/-- Code that uses every register, and returns. -/
def usesAll : List Inst :=
  [.make .inlineAsm (RegClass.coreOrder.map .use), .make .bxRet [.cond .al, .use .noreg]]

/-- A function with an instruction after which every register is in use. -/
def allInUse (i : Inst) : Procedure where
  name := "f"
  blocks := [{ lines := Line.number 0 (i :: usesAll) }]
  frame := {
    objects := [{ size := 5000, align := 4, offset := -5000 },
      { size := 4, align := 4, offset := -5004 }]
    stackSize := 5004
    scavengingIndex := 1 }
  fresh := 3

/-- A load under a condition, with its offset out of reach. -/
def loadFar : Inst :=
  .make .ldr [.use (.core 0), .frameIndex 0, .use (.core 1), .imm 4092, .cond ⟨1⟩, .use (.core 3)]

/-- An addition that moves the stack pointer to an object. -/
def moveStack : Inst :=
  .make .addri [.use Reg.sp, .frameIndex 0, .imm 1024, .cond .al, .use .noreg]

/-- A state in which only `r12` has a value. -/
def onlyScratch : State :=
  ⟨fun c => if c = .core 12 then 1 else 0, fun _ => 0, fun _ => true⟩

/-- The load with the address that is in reach folded in. -/
def loadFar.rebased : Rebased :=
  ⟨⟨.ldr, [.reg (.core 0) true false, .use Reg.sp, .use (.core 1), .imm 0, .cond ⟨1⟩,
    .use (.core 3)]⟩, 1, Reg.sp, 4096⟩

theorem loadFar.borrows : plainDefault.Borrows .arm (allInUse loadFar) 0 loadFar usesAll 0
    loadFar.rebased (plainDefault.lend (allInUse loadFar) Reg.r12) := by
  refine ⟨rfl, ?_, ?_, rfl⟩ <;> decide +kernel

theorem transparent_of_borrows_loadFar : ∃ r b spill reload,
    plainDefault.Borrows .arm (allInUse loadFar) 0 loadFar usesAll 0 r b ∧
    plainDefault.FoldsWhole .arm (allInUse loadFar) 0 b.spill 0 ∧ b.reg = Reg.r12 ∧
    ∀ s, (∃ s', ExecAll (spill :: r.chain .arm b.reg ++ [r.through b.reg, reload]) s s') ∧
      ∀ s₁ s₂ s₃, ExecAll (spill :: r.chain .arm b.reg) s s₁ → (r.through b.reg).Effect s₁ s₂ →
        reload.Effect s₂ s₃ → ∃ slot, Transparent loadFar b.reg slot s s₁ s₂ s₃ := by
  have hreach : plainDefault.FoldsWhole .arm (allInUse loadFar) 0
      (plainDefault.lend (allInUse loadFar) Reg.r12).spill 0 := ⟨_, rfl, rfl⟩
  have hl : ((allInUse loadFar).lines 0)[0]? = some ⟨0, loadFar⟩ := rfl
  obtain ⟨-, ⟨q, o, a, spill, reload, -, ho, ha, -, -, -, hruns⟩, -⟩ :=
    transparent_of_borrows rfl hl loadFar.borrows hreach
  obtain rfl := Option.some.inj ho
  obtain rfl := Except.ok.inj ha
  refine ⟨_, _, spill.inst, reload.inst, loadFar.borrows, hreach, rfl, fun s => ⟨(hruns s).1, ?_⟩⟩
  intro s₁ s₂ s₃ hbefore heff hafter
  -- the load changes `r0` only
  have hloads : ∃ ws, s₂ = s₁.assign (.core 0) ws ∨ s₂ = s₁ := by
    rcases heff with ⟨-, hacts⟩ | ⟨-, hsame⟩
    · exact ⟨_, .inl hacts⟩
    · exact ⟨[], .inr hsame⟩
  obtain ⟨ws, rfl | rfl⟩ := hloads
  · exact ⟨_, (hruns s).2 _ _ _ hbefore heff hafter (congrArg (List.headD · 0)
      (State.value_assign_of_ne (by decide))) fun _ _ => rfl⟩
  · exact ⟨_, (hruns s).2 _ _ _ hbefore heff hafter rfl fun _ _ => rfl⟩

/-- The addition with as much of its offset as fits. -/
def moveStack.rebased : Rebased :=
  ⟨⟨.addri, [.reg Reg.sp true false, .use Reg.sp, .imm 4, .cond .al, .use .noreg]⟩, 1, Reg.sp, 1024⟩

theorem moveStack.borrows : plainDefault.Borrows .arm (allInUse moveStack) 0 moveStack usesAll 0
    moveStack.rebased (plainDefault.lend (allInUse moveStack) Reg.r12) := by
  refine ⟨rfl, ?_, ?_, rfl⟩ <;> decide +kernel

/-- The slot is in reach and the instruction accesses no memory, but it moves the stack pointer, so
that the load misses the slot and the borrowed register is lost. -/
theorem lost_of_moveStack :
    let b := plainDefault.lend (allInUse moveStack) Reg.r12
    plainDefault.Borrows .arm (allInUse moveStack) 0 moveStack usesAll 0 moveStack.rebased b ∧
    plainDefault.FoldsWhole .arm (allInUse moveStack) 0 b.spill 0 ∧
    ∃ spill reload s₁ s₂ s₃, plainDefault.rebase .arm (allInUse moveStack) 0 b.spill 0 = .ok spill ∧
      plainDefault.rebase .arm (allInUse moveStack) 0 b.reload 0 = .ok reload ∧
      ExecAll (spill.inst :: moveStack.rebased.chain .arm b.reg) onlyScratch s₁ ∧
      (moveStack.rebased.through b.reg).Effect s₁ s₂ ∧ reload.inst.Effect s₂ s₃ ∧
      s₂.mem = s₁.mem ∧ s₃.value b.reg ≠ onlyScratch.value b.reg := by
  refine ⟨moveStack.borrows, ⟨_, rfl, rfl⟩, _, _, _, _, _, rfl, rfl,
    ⟨_, .inl ⟨.inl rfl, rfl⟩, _, .inl ⟨.inl rfl, rfl⟩, rfl⟩, .inl ⟨.inl rfl, rfl⟩,
    .inl ⟨.inl rfl, rfl⟩, rfl, ?_⟩
  decide +kernel

end Target

end FrameLowering
