import FrameLowering.Proofs.HeadroomPlan
import FrameLowering.Proofs.ScratchFailures
import FrameLowering.Proofs.StackMoves

/-!
# Headroom for scratch registers

When the frame may be too large for some instruction, registers are spilled that the function does
not use, or a slot for scavenging is made. Then no instruction of a block is left without a scratch
register (`Target.headroom_suffices`), provided that what was made is of use there: a spilled
register has to be dead, which it is where control goes on to a return, and the slot has to be in
reach, which it always is from a frame pointer. In a block where control ends without a return
every register counts as live, and headroom is made in vain (`Target.headroom_fails_deadEnd`).
-/

namespace FrameLowering

/-! ## The slot for scavenging -/

/-- Offsets that every load and store of a core register can take. -/
def IsNear (v : Int64) : Prop :=
  -255 ≤ v.toInt ∧ v.toInt ≤ 4095

instance (v : Int64) : Decidable (IsNear v) :=
  inferInstanceAs (Decidable (_ ∧ _))

theorem IsNear.magnitude {v : Int64} (h : IsNear v) :
    (ImmediateField.magnitude v).toInt ≤ 4095 ∧
      (v < 0 → (ImmediateField.magnitude v).toInt ≤ 255) := by
  obtain ⟨hlo, hhi⟩ := h
  have hmin : v ≠ Int64.minValue := by
    rintro rfl
    exact absurd hlo (by decide)
  rw [ImmediateField.toInt_magnitude hmin]
  refine ⟨by omega, fun hneg => ?_⟩
  rw [Int64.lt_iff_toInt_lt, Int64.toInt_zero] at hneg
  omega

theorem Inst.foldMemory_of_near {i : Inst} {position : Nat} {base : Reg} {v : Int64} (hv : IsNear v)
    (hfamily : i.info.family = .mode2 ∨
      i.info.family = .t2i12 ∧ i.op.negativeForm.info.family = .t2i8)
    (hposition : i.info.family.field.position = some position)
    (hzero : i.operands[1 + position]? = some (.imm 0)) :
    (i.foldMemory 1 base v).rest = .ok 0 := by
  obtain ⟨hmag, hneg⟩ := hv.magnitude
  have hone : v % 1 = 0 := by
    apply Int64.toInt_inj.1
    rw [Int64.toInt_mod]
    exact Int.tmod_one _
  have hfacts : i.info.family.isFoldable ∧ i.info.family.field.decode 0 = 0 ∧
      v % i.info.family.field.scale = 0 := by
    rcases hfamily with h | ⟨h, -⟩
    · rw [h]
      exact ⟨rfl, by decide, hone⟩
    · rw [h]
      exact ⟨rfl, by decide, hone⟩
  obtain ⟨hfold, hdecode, hscale⟩ := hfacts
  -- The family after the opcode has been chosen for the sign.
  have horient : (i.orient v).info.family = .mode2 ∨
      (i.orient v).info.family = .t2i12 ∧ ¬ v < 0 ∨ (i.orient v).info.family = .t2i8 ∧ v < 0 := by
    rcases hfamily with h | ⟨h, hform⟩
    · left
      rw [orient, h, if_neg]
      · exact h
      · simp [Family.field]
    · right
      by_cases hlt : v < 0
      · right
        rw [orient, h, if_pos]
        · exact ⟨hform, hlt⟩
        · simp [Family.field, hlt]
      · left
        rw [orient, if_neg]
        · exact ⟨h, hlt⟩
        · simp [hlt]
  refine foldMemory_of_fits hfold hposition hzero hdecode hscale ?_ ?_ ?_
  · rcases horient with h | ⟨h, -⟩ | ⟨h, -⟩
    all_goals
      rw [h]
      rintro ⟨⟩
  · intro hkind
    rcases horient with h | ⟨-, hlt⟩ | ⟨h, -⟩
    · rw [h] at hkind
      cases hkind
    · exact hlt
    · rw [h] at hkind
      cases hkind
  · rw [Int64.le_iff_toInt_le]
    rcases horient with h | ⟨h, -⟩ | ⟨h, hlt⟩
    · rw [h]
      exact hmag
    · rw [h]
      exact hmag
    · rw [h]
      exact hneg hlt

namespace Target

section
variable {t : Target} {w : WideSet} {p : Procedure} {block : Nat} {b : Reg} {v index spAdj : Int64}
  {n : Fin 16} {i : Inst} {r : Rebased}

/-- An access to the slot of a core register takes any near offset. -/
theorem fold_of_near (hv : IsNear v)
    (hi : i = w.set.storeToSlot (.core n) index ∨ i = w.set.loadFromSlot (.core n) index) :
    (t.fold w i 1 ⟨b, v⟩).rest = .ok 0 := by
  have hne : i.op ≠ w.add := by
    rcases hi with rfl | rfl <;> cases w <;> rintro ⟨⟩
  rw [fold, if_neg hne]
  rcases hi with rfl | rfl
  · cases w
    · exact Inst.foldMemory_of_near hv (.inl rfl) rfl rfl
    · exact Inst.foldMemory_of_near hv (.inr ⟨rfl, rfl⟩) rfl rfl
  · cases w
    · exact Inst.foldMemory_of_near hv (.inl rfl) rfl rfl
    · exact Inst.foldMemory_of_near hv (.inr ⟨rfl, rfl⟩) rfl rfl

/-- Nothing is left of the offset of a slot that is near its base. -/
theorem rest_of_lend {x : Reg} (hw : t.wide? = some w) (hx : ∃ n, x = .core n)
    (hnear : ∀ o a, p.frame.object? p.frame.scavengingIndex = some o →
      t.address p p.frame.scavengingIndex o spAdj = .ok a → IsNear a.offset)
    (hr : t.rebase w p block (t.lend p x).spill spAdj = .ok r ∨
      t.rebase w p block (t.lend p x).reload spAdj = .ok r) : r.rest = 0 := by
  obtain ⟨n, rfl⟩ := hx
  rw [lend, instrSet_of_wide hw] at hr
  rcases hr with hr | hr
  · have hslot := w.isSlotAccess_storeToSlot (.inl ⟨n, rfl⟩) p.frame.scavengingIndex
    exact rest_of_offset hslot.place hslot.index hnear (fun b v hv => fold_of_near hv (.inl rfl)) hr
  · have hslot := w.isSlotAccess_loadFromSlot (.inl ⟨n, rfl⟩) p.frame.scavengingIndex
    exact rest_of_offset hslot.place hslot.index hnear (fun b v hv => fold_of_near hv (.inr rfl)) hr

/-- A slot next to the saved registers is near the frame pointer. -/
theorem HasFrame.isNear_of_pointer {o : FrameObject} {a : Address} (h : t.HasFrame p)
    (hpointer : t.hasPointer p) (ha : t.address p p.frame.scavengingIndex o spAdj = .ok a)
    (hlo : -(savedBytes p.frame.saved + 8 : Int) < o.offset.toInt)
    (hhi : o.offset.toInt ≤ -(savedBytes p.frame.saved + 4 : Int)) : IsNear a.offset := by
  have hareas := h.areas (h.laid.framed hpointer)
  have hsets : t.setsPointer p := by
    rw [setsPointer, hpointer, Bool.or_true]
  obtain ⟨σ, hσ, -, -, o', ho', hspill⟩ := hareas.grouped.pointer hsets
  obtain ⟨q, hq, -, hqlo, hqhi⟩ := hareas.tiles.mem hσ
  obtain rfl := Option.some.inj (ho'.symm.trans hq)
  have hbytes := hareas.row.savedBytes_le
  have hpos : 4 ≤ σ.bytes := by
    have hb := hareas.row.bytes hσ
    split at hb <;> omega
  rw [address, if_neg (by simp [h.laid.scavenging]), if_pos hpointer] at ha
  obtain rfl := Except.ok.inj ha
  have hdiff : o.offset + p.frame.stackSize - p.layout.fpSpillOffset = o.offset - o'.offset := by
    rw [hspill]
    grind
  have hint : (o.offset - o'.offset).toInt = o.offset.toInt - o'.offset.toInt := by
    rw [Int64.toInt_sub]
    exact Int.bmod_eq_of_le (by omega) (by omega)
  rw [IsNear]
  simp only [hdiff, hint]
  omega

end

end Target

/-! ## Instructions with a register to spare -/

theorem Opcode.operands_le (op : Opcode) : op.info.operands ≤ 6 := by
  cases op <;> decide

/-- The registers that can be borrowed for every instruction that names few others. -/
def lowScratches : List (Fin 16) :=
  [12, 0, 1, 2, 3, 4, 5]

namespace Target

section
variable {t : Target} {w : WideSet} {p : Procedure} {block place : Nat} {spAdj rest : Int64}
  {i i' : Inst} {a : Address} {r : Rebased}

/-- An instruction that takes an offset has as many operands as its description says. -/
theorem isVariadic_of_fold (h : t.fold w i place a = ⟨i', .ok rest⟩)
    (hasm : i.info.flags.isAsm = false) : i.info.flags.isVariadic = false := by
  rw [fold] at h
  split at h
  · next hop =>
    show i.op.info.flags.isVariadic = false
    rw [hop]
    cases w <;> rfl
  · have hfold : i.op.info.family.isFoldable := (Inst.foldMemory_cases h).1
    change i.op.info.flags.isAsm = false at hasm
    show i.op.info.flags.isVariadic = false
    revert hfold hasm
    cases i.op <;> decide

theorem length_of_fold (h : t.fold w i place a = ⟨i', .ok rest⟩) :
    i'.operands.length ≤ i.operands.length := by
  rw [fold] at h
  split at h
  · next hop =>
    obtain ⟨v, -, ⟨rfl, -⟩ | ⟨negative, m, rfl, -⟩⟩ := WideSet.foldAdd_cases hop h
    · refine (List.length_eraseIdx_le ..).trans ?_
      rw [List.length_set]
    · simp [Inst.withOffset]
  · obtain ⟨-, k, v, -, -, ⟨-, rfl, -⟩ | ⟨op, v', rfl, -⟩⟩ := Inst.foldMemory_cases h
    · simp [Inst.setOperand]
    · simp [Inst.withOffset]

/-- A core register is a candidate unless it is reserved, or the instruction names it. -/
theorem mem_candidates {n : Fin 16} (hpointer : .core n ≠ t.framePointer)
    (hreserved : t.isReserved p (.core n) = false) (hrefers : ¬ i.refers (.core n)) :
    .core n ∈ t.candidates p i RegClass.coreOrder := by
  have hspecial : (Reg.core n).isSpecial = false := by
    rw [isReserved, Bool.or_eq_false_iff, Bool.or_eq_false_iff] at hreserved
    exact hreserved.1.1
  have horder : ∀ n : Fin 16, (Reg.core n).isSpecial = false →
      Reg.core n ∈ scratchFirst RegClass.coreOrder := by
    decide
  refine List.mem_filter.2 ⟨horder n hspecial, ?_⟩
  simp [hspecial, hpointer, hreserved, hrefers]

/-- Registers that every instruction may use as scratch registers if it does not name them. -/
theorem low_facts {n : Fin 16} (hn : n ∈ lowScratches) :
    .core n ≠ t.framePointer ∧ t.isReserved p (.core n) = false := by
  have hfacts : (Reg.core n).isSpecial = false ∧ Reg.core n ≠ .core 9 ∧
      Reg.core n ≠ Reg.core 7 ∧ Reg.core n ≠ Reg.core 11 := by
    revert n
    decide
  obtain ⟨hspecial, hnine, hseven, heleven⟩ := hfacts
  have hpointer : .core n ≠ t.framePointer := by
    rw [framePointer, Abi.framePointer]
    split
    · exact hseven
    · exact heleven
  exact ⟨hpointer, by simp [isReserved, hspecial, hpointer, hnine]⟩

/-- An instruction with six operands does not name seven registers. -/
theorem candidates_ne_nil (hr : t.rebase w p block i spAdj = .ok r)
    (hasm : r.inst.info.flags.isAsm = false)
    (hcount : i.info.flags.isVariadic = false → i.operands.length = i.info.operands) :
    t.candidates p r.inst RegClass.coreOrder ≠ [] := by
  obtain ⟨_, _, a, -, -, -, -, -, hfold, -, -⟩ := rebase_cases hr
  obtain ⟨hflags, -⟩ := fold_operands hfold
  rw [hflags] at hasm
  have hlength : r.inst.operands.length ≤ 6 := by
    refine (length_of_fold hfold).trans ?_
    rw [hcount (isVariadic_of_fold hfold hasm)]
    exact i.op.operands_le
  intro hnil
  -- without a candidate the operands would name all of the low registers
  have hnamed : ∀ n ∈ lowScratches, Reg.core n ∈ r.inst.operands.map Operand.register := by
    intro n hn
    obtain ⟨hpointer, hreserved⟩ := low_facts (t := t) (p := p) hn
    have hrefers : r.inst.refers (.core n) := by
      by_contra hrefers
      have hin := mem_candidates hpointer hreserved hrefers
      rw [hnil] at hin
      cases hin
    have hreach := Inst.mem_reach_of_refers hrefers (rebase_flags hr)
    have hcall : r.inst.info.flags.isCall = false := by
      rw [hflags]
      exact (flags_of_fold hfold).2
    rw [Inst.reach, hcall] at hreach
    simpa using hreach
  have hsub : (lowScratches.map Reg.core).Subperm (r.inst.operands.map Operand.register) := by
    apply List.Nodup.subperm
    · decide
    · intro x hx
      obtain ⟨n, hn, rfl⟩ := List.mem_map.1 hx
      exact hnamed n hn
  have hle := hsub.length_le
  rw [List.length_map, List.length_map, lowScratches] at hle
  simp only [List.length_cons, List.length_nil] at hle
  omega

end

end Target

/-! ## Where the walk stops -/

/-- The numbers before one of those below a bound. -/
theorem range_eq_append_cons {n k : Nat} {done rest : List Nat}
    (h : List.range n = done ++ k :: rest) : done = List.range k ∧ k < n := by
  rw [List.range_eq_range'] at h
  obtain ⟨j, -, hdone, hrest⟩ := List.range'_eq_append_iff.1 h
  obtain ⟨hk, hpos, -⟩ := List.range'_eq_cons_iff.1 hrest.symm
  obtain rfl : j = k := by omega
  rw [List.range_eq_range']
  exact ⟨hdone, by omega⟩

namespace Target

/-- Where an instruction of a block has a frame index, the slot for scavenging is near the stack
pointer. -/
def SlotInReach (t : Target) (p : Procedure) (k : Nat) : Prop :=
  ∀ o ∈ (t.planned p).frame.object? (t.planned p).frame.scavengingIndex,
    ∀ place < (p.lines k).length, ∀ l ∈ (p.lines k)[place]?, l.inst.frameIndexAt ≠ none →
      IsNear (o.offset + (t.planned p).frame.stackSize +
        t.openFrame (t.planned p) ((p.lines k).take place))

instance (t : Target) (p : Procedure) (k : Nat) : Decidable (t.SlotInReach p k) :=
  inferInstanceAs (Decidable (∀ o ∈ Frame.object? _ _, ∀ place < (p.lines k).length,
    ∀ l ∈ (p.lines k)[place]?, l.inst.frameIndexAt ≠ none → IsNear (_ + _ + _)))

/-- The walk has come to a line in the body of a block for which there is no scratch register. The
blocks before it are done, and the frame is the planned one. -/
structure IsStuck (t : Target) (w : WideSet) (p m q : Procedure) (k : Nat) (b : Block)
    (before : List Line) (l : Line) (after es : List Line) (i : Inst) (r : Rebased) : Prop where
  framed : Procedure.Framed p.fresh (t.prologueCode w m) (fun _ => t.epilogueCode w m) p m
  walks : t.WalksBlocks w (List.range k) m q
  laid : t.HasFrame q
  frame : ∃ offsetAdjustment, q.frame = { (t.planned p).frame with offsetAdjustment }
  pointer : t.hasPointer q = t.hasPointer p
  block : p.blocks[k]? = some b
  body : b.body = before ++ l :: after
  new : Line.IsNew p.fresh (if b.isReturn then t.epilogueCode w q else []) es
  rebased : t.rebase w q k l.inst (t.openFrame q before) = .ok r
  busy : t.freeScratch? q ⟨k, r.inst, (after ++ (es ++ b.exit)).map Line.inst⟩ = none
  unslotted : q.frame.object? q.frame.scavengingIndex = none ∨
    (i = r.inst ∧ t.candidates q r.inst RegClass.coreOrder = []) ∨
    ∃ x r', t.IsScratch r.inst x ∧
      (t.rebase w q k (t.lend q x).spill (t.openFrame q before) = .ok r' ∨
        t.rebase w q k (t.lend q x).reload (t.openFrame q before) = .ok r') ∧ r'.rest ≠ 0

section
variable {t : Target} {w : WideSet} {p q m : Procedure} {k first : Nat} {b : Block} {l : Line}
  {r : Rebased} {mid : Int64} {as es before after : List Line} {ps : List Piece} {i : Inst}

/-- Part of an offset is left only in the body of a block. -/
theorem body_of_rest (hw : t.wide? = some w) (hframe : t.HasFrame q)
    (hbalanced : (setupSizes b.lines).Perm (destroySizes b.lines))
    (has : Line.IsNew first (if k = 0 then t.prologueCode w q else []) as)
    (hes : Line.IsNew first (if b.isReturn then t.epilogueCode w q else []) es)
    (hsplit : as ++ b.body ++ es ++ b.exit = before ++ l :: after)
    (hwalk : Walks t w q k 0 before mid ps) (hr : t.rebase w q k l.inst mid = .ok r)
    (hrest : r.rest ≠ 0) :
    ∃ done rest, b.body = done ++ l :: rest ∧ after = rest ++ (es ++ b.exit) ∧
      mid = t.openFrame q done := by
  have hhead : ∀ x ∈ as, x.inst.op.isMarker = false :=
    fun x hx => unmarked_of_mem_prologueCode hw hframe (has.mem_of_ite hx)
  have htail : ∀ x ∈ es, x.inst.op.isMarker = false :=
    fun x hx => unmarked_of_mem_epilogueCode hw hframe (hes.mem_of_ite hx)
  rw [List.append_assoc, List.append_assoc] at hsplit
  rcases append_eq_append_cons hsplit with ⟨rest, rfl, -⟩ | ⟨done, rfl, hdone⟩
  · -- the prologue encodes its offsets
    obtain rfl := hwalk.spAdj_of_unmarked fun x hx => hhead x (List.mem_append_left _ hx)
    exact absurd (rest_of_mem_prologueCode hw hframe (has.mem_of_ite (by simp)) hr) hrest
  obtain ⟨start, _, _, hstart, hwalk, -⟩ := hwalk.append_inv
  obtain rfl := hstart.spAdj_of_unmarked hhead
  rcases append_eq_append_cons hdone with ⟨rest, hbody, hafter⟩ | ⟨more, rfl, hmore⟩
  · refine ⟨done, rest, hbody, hafter, ?_⟩
    rw [hwalk.spAdj_eq_openFrame hw, Int64.zero_add]
  -- past the body all call frames are closed again
  obtain ⟨start, _, _, hbody, hwalk, -⟩ := hwalk.append_inv
  obtain rfl := hbody.spAdj_of_balanced hw (balanced_body hbalanced)
  rcases append_eq_append_cons hmore with ⟨rest, rfl, -⟩ | ⟨more, rfl, hexit⟩
  · obtain rfl := hwalk.spAdj_of_unmarked fun x hx => htail x (List.mem_append_left _ hx)
    exact absurd (rest_of_mem_epilogueCode hw hframe (hes.mem_of_ite (by simp)) hr) hrest
  · have hmem : l ∈ b.exit := by
      rw [hexit]
      simp
    have hinst := Block.isReturn_of_mem_exit hmem
    obtain ⟨_, _, _, -, -, -, -, -, hfold, -, -⟩ := rebase_cases hr
    have hflags : l.inst.isReturn = false := (flags_of_fold hfold).1
    rw [hflags] at hinst
    cases hinst

/-- A function that is not lowered for want of a scratch register has a line at which the walk is
stuck. -/
theorem isStuck_of_lower {name : String} {detail : Detail} (hp : p.IsUnframed)
    (hbalanced : ∀ b ∈ p.blocks, (setupSizes b.lines).Perm (destroySizes b.lines))
    (hscavenging : t.config.scavenging)
    (h : (t.lower p).failure = some (.error (.inst name k i .noScratch detail))) :
    ∃ w m q b before l after es r, t.wide? = some w ∧
      t.IsStuck w p m q k b before l after es i r := by
  obtain ⟨hthumb, g, m₀, m, _, hlayout, hprologue, hepilogues, hwalk⟩ := lower_scratch_cases h rfl
  obtain ⟨w, hw⟩ := exists_wide hthumb
  obtain ⟨c, layout, -, hplanned, ⟨blocks, fresh, offsetAdjustment, hshape⟩, -, hframe, hpointer, -,
    hframed⟩ := framed_of_stages hp hthumb hw hlayout hprologue hepilogues
  -- the walk went through the blocks before this one, and into it up to some line
  obtain ⟨done, j, rest, q, hrange, hdone, hfailure⟩ := walkBlocks_error hwalk
  obtain ⟨before, l, after, mid, ps, hlines, hwalk, hstop⟩ := walkLines_failure hw hfailure
  have hstop : (t.expand q j l.inst (after.map Line.inst) mid true).failure =
      some (.error (.inst name k i .noScratch detail)) := by
    rcases hstop with hstop | hstop
    · exact absurd rfl (not_lacksScratch_of_callFrame hw hstop)
    · rw [hscavenging] at hstop
      exact hstop
  obtain rfl : k = j := isIn_of_expand hw hstop _ _ _ _ _ rfl
  obtain ⟨rfl, hlt⟩ := range_eq_append_cons hrange
  rw [hframed.length] at hlt
  have hwalks := walksBlocks_walkBlocks hw List.nodup_range hdone
  have hb := List.getElem?_eq_getElem hlt
  generalize p.blocks[k] = b at hb
  obtain ⟨as, es, has, hes, hnow⟩ := hframed.block k b hb
  obtain ⟨blocks', fresh', rfl⟩ := id hwalks.shape
  rw [← hwalks.others k (by simp)] at hnow
  rw [Procedure.lines, hnow] at hlines
  obtain ⟨r, hr, hne, hfree, hslot⟩ := expand_scratch_cases hw hstop
  have hlaid : t.HasFrame { m with blocks := blocks', fresh := fresh' } := hframe.congr
  obtain ⟨ls, ls', hbody, rfl, rfl⟩ := body_of_rest hw hlaid (hbalanced b (List.mem_of_getElem? hb))
    has hes hlines hwalk hr hne
  refine ⟨w, m, _, b, ls, l, ls', es, r, hw, hframed, hwalks, hlaid, ?_, hpointer, hb, hbody, hes,
    hr, hfree, hslot⟩
  refine ⟨offsetAdjustment, ?_⟩
  rw [planned, ← hplanned]
  exact congrArg Procedure.frame hshape

theorem IsStuck.mem_insts (h : t.IsStuck w p m q k b before l after es i r) : l.inst ∈ p.insts := by
  have hl : l ∈ b.body := by
    rw [h.body]
    simp
  exact List.mem_flatMap.2
    ⟨b, List.mem_of_getElem? h.block, List.mem_map_of_mem (Block.mem_body hl)⟩

/-- A spare register would have been free. -/
theorem IsStuck.false_of_spare {n : Fin 16} (h : t.IsStuck w p m q k b before l after es i r)
    (hw : t.wide? = some w)
    (hbalanced : ∀ b ∈ p.blocks, (setupSizes b.lines).Perm (destroySizes b.lines))
    (hslot : q.frame.object? q.frame.scavengingIndex = none) (hspare : t.IsSpare p q n)
    (hsaved : ∃ cs ∈ t.calleeSaved, cs.reg = .core n) (hreserved : t.isReserved q (.core n) = false)
    (hidle : p.KeepsIdle k) : False := by
  have hunnamed : .core n ∉ r.inst.reach :=
    (unnamed_of_rebase h.rebased (hspare.unnamed _ h.mem_insts) hspare.ne_sp hspare.ne_pointer).1
  have hrefers : ¬ r.inst.refers (.core n) := by
    intro hrefers
    exact hunnamed (Inst.mem_reach_of_refers hrefers (rebase_flags h.rebased))
  have hspilled : q.layout.isSpilled (.core n) := by
    obtain ⟨cs, hcs, hreg⟩ := hsaved
    rw [← hreg, h.laid.spilled cs hcs, hreg]
    exact hspare.saved
  have hafter : ∀ x ∈ after, x ∈ b.body := by
    intro x hx
    rw [h.body]
    exact List.mem_append_right _ (List.mem_cons_of_mem _ hx)
  have hdead : Liveness.liveAfter q k r.inst ((after ++ (es ++ b.exit)).map Line.inst) (.core n) =
      false :=
    liveAfter_of_idle hw h.framed h.walks h.laid hslot hspare hidle hbalanced h.block hafter h.new
  have hnone := (Option.or_eq_none_iff.1 h.busy).2
  have hcandidate := mem_candidates hspare.ne_pointer hreserved hrefers
  apply List.find?_eq_none.1 hnone _ hcandidate
  simp only [isExpendable, hspilled, hdead, Bool.and_self, Bool.or_true, Bool.not_false]

/-- A register would have been borrowed if the slot for scavenging is near. -/
theorem IsStuck.false_of_slot {o : FrameObject} (h : t.IsStuck w p m q k b before l after es i r)
    (hw : t.wide? = some w)
    (hcount : ∀ i ∈ p.insts, i.info.flags.isVariadic = false → i.operands.length = i.info.operands)
    (hasm : i.info.flags.isAsm = false)
    (ho : q.frame.object? q.frame.scavengingIndex = some o)
    (hnear : ∀ a, t.address q q.frame.scavengingIndex o (t.openFrame q before) = .ok a →
      IsNear a.offset) : False := by
  rcases h.unslotted with hnone | ⟨rfl, hnil⟩ | ⟨x, r', hscratch, hr', hrest⟩
  · rw [ho] at hnone
    cases hnone
  · exact candidates_ne_nil h.rebased hasm (hcount l.inst h.mem_insts) hnil
  · refine hrest (rest_of_lend hw hscratch.core ?_ hr')
    intro o' a ho' ha
    obtain rfl := Option.some.inj (ho.symm.trans ho')
    exact hnear a ha

theorem openFrame_congr {ls : List Line} (h : t.reservesCallFrame q = t.reservesCallFrame p) :
    t.openFrame q ls = t.openFrame p ls := by
  have hamount : t.markerAmount q = t.markerAmount p := by
    funext size
    simp only [markerAmount, h]
  rw [openFrame, openFrame, hamount]

/-- A slot in reach is near the stack pointer where the walk is stuck. -/
theorem IsStuck.isNear_of_reach {o : FrameObject} {a : Address}
    (h : t.IsStuck w p m q k b before l after es i r) (hpointer : ¬ t.hasPointer p)
    (hreach : t.SlotInReach p k)
    (ho : (t.planned p).frame.object? (t.planned p).frame.scavengingIndex = some o)
    (ha : t.address q q.frame.scavengingIndex o (t.openFrame q before) = .ok a) :
    IsNear a.offset := by
  obtain ⟨adjustment, hframe⟩ := h.frame
  obtain ⟨_, _, _, hplace, -⟩ := rebase_cases h.rebased
  have hlines : p.lines k = before ++ l :: (after ++ b.exit) := by
    rw [Procedure.lines, h.block]
    show b.lines = _
    rw [← b.body_append_exit, h.body, List.append_assoc]
    rfl
  have hopen : t.openFrame q before = t.openFrame (t.planned p) before := by
    apply openFrame_congr
    rw [reservesCallFrame, reservesCallFrame, hframe]
  have hnear := hreach o ho before.length (by simp [hlines]) l (by simp [hlines]) (by simp [hplace])
  rw [hlines, List.take_left] at hnear
  rw [← h.pointer] at hpointer
  rw [address, if_neg (by simp [h.laid.laid.scavenging]), if_neg hpointer] at ha
  obtain rfl := Except.ok.inj ha
  rw [hopen, hframe]
  exact hnear

/-- Headroom is enough for a block: no instruction of it, inline assembly apart, is left without a
scratch register. Either registers were spilled for headroom, one of which is not the frame pointer,
and the block keeps it idle; or there is a slot, and a frame pointer or the stack pointer is near
it. -/
theorem headroom_suffices {name : String} {detail : Detail} (hp : p.IsUnframed)
    (hcount : ∀ i ∈ p.insts, i.info.flags.isVariadic = false → i.operands.length = i.info.operands)
    (hbalanced : ∀ b ∈ p.blocks, (setupSizes b.lines).Perm (destroySizes b.lines))
    (hneeds : t.NeedsHeadroom p)
    (hspilled : t.SpillsHeadroom p → (∃ r ∈ t.headroom p, r ≠ t.framePointer) ∧ p.KeepsIdle k)
    (hslot : ¬ t.SpillsHeadroom p → t.hasPointer p ∨ t.SlotInReach p k)
    (hasm : i.info.flags.isAsm = false) :
    (t.lower p).failure ≠ some (.error (.inst name k i .noScratch detail)) := by
  intro hfailure
  obtain ⟨w, m, q, b, before, l, after, es, r, hw, hstuck⟩ :=
    isStuck_of_lower hp hbalanced hneeds.scavenging hfailure
  obtain ⟨adjustment, hframe⟩ := hstuck.frame
  have hobject (j : Int64) : q.frame.object? j = (t.planned p).frame.object? j := by
    rw [hframe]
    rfl
  have hindex : q.frame.scavengingIndex = (t.planned p).frame.scavengingIndex := by
    rw [hframe]
  have hsaved : q.frame.saved = (t.planned p).frame.saved := by
    rw [hframe]
  by_cases hspills : t.SpillsHeadroom p
  · obtain ⟨⟨x, hx, hne⟩, hidle⟩ := hspilled hspills
    obtain ⟨hreserved, cs, hcs, n, hreg, rfl, -⟩ := mem_headroom_facts hx
    -- what is reserved was decided together with the frame pointer
    refine hstuck.false_of_spare hw hbalanced ?_ (hneeds.isSpare hp hspills hx hne hsaved)
      ⟨cs, hcs, hreg⟩ ?_ hidle
    · rw [hindex, hobject]
      exact hneeds.object?_of_spills hp hspills
    · rw [isReserved, hstuck.pointer, ← hasPointer_decidePointer hp.layout]
      exact hreserved
  · obtain ⟨o, ho, hnext⟩ := hneeds.slot_of_unspilled hp hspills
    have hslotted : q.frame.object? q.frame.scavengingIndex = some o := by
      rw [hindex, hobject, ho]
    refine hstuck.false_of_slot hw hcount hasm hslotted ?_
    intro a ha
    by_cases hpointer : t.hasPointer p
    · obtain ⟨hlo, hhi⟩ := hnext hpointer
      rw [← hsaved] at hlo hhi
      exact hstuck.laid.isNear_of_pointer (hstuck.pointer ▸ hpointer) ha hlo hhi
    · exact hstuck.isNear_of_reach hpointer ((hslot hspills).resolve_left hpointer) ho ha

end

/-! ## Far objects -/

/-- A frame in which an instruction cannot reach the first object from the other end. -/
def farFrame : Frame where
  objects := [{ size := 4, align := 4 }, { size := 5000, align := 4 }]

/-- Stores to the first object. -/
def farStore : Inst :=
  .make .str [.use (.core 0), .frameIndex 0, .use .noreg, .imm 0, .cond .al, .use .noreg]

/-- Uses a register. -/
def useOf (n : Fin 16) : Inst :=
  .make .movr [.use (.core n), .use (.core 0), .cond .al, .use .noreg]

/-- A function that stores in a loop and leaves registers to spill. -/
def storesInLoop : Procedure where
  name := "f"
  blocks := [
    { lines := [⟨0, .make .bl [.imm 1]⟩, ⟨1, useOf 4⟩], successors := [1] },
    { lines := [⟨2, farStore⟩], successors := [1, 2] },
    { lines := [⟨3, .make .bxRet [.cond .al, .use .noreg]⟩] }]
  frame := farFrame
  fresh := 4

/-- A function that leaves too few registers to spill. -/
def usesMany : Procedure where
  name := "f"
  blocks := [{ lines := Line.number 0 (.make .bl [.imm 1] :: [4, 5, 6, 7, 8, 9, 10].map useOf ++
    [farStore, .make .bxRet [.cond .al, .use .noreg]]) }]
  frame := farFrame
  fresh := 10

/-- A function that does not return after its store. -/
def deadEnd : Procedure where
  name := "f"
  blocks := [{ lines := Line.number 0 [.make .bl [.imm 1], useOf 4, farStore] }]
  frame := farFrame
  fresh := 3

/-- What is promised of every function, and the need for headroom. -/
def IsPressed (t : Target) (p : Procedure) : Prop :=
  p.IsUnframed ∧
    (∀ i ∈ p.insts, i.info.flags.isVariadic = false → i.operands.length = i.info.operands) ∧
    (∀ b ∈ p.blocks, (setupSizes b.lines).Perm (destroySizes b.lines)) ∧ t.NeedsHeadroom p

instance (t : Target) (p : Procedure) : Decidable (t.IsPressed p) :=
  inferInstanceAs (Decidable (_ ∧ _ ∧ _ ∧ _))

/-- In a loop that stores to a far object a spilled register is free, and without enough registers
to spill the slot is near. -/
theorem headroom_suffices_farFrame :
    (plainDefault.IsPressed storesInLoop ∧ plainDefault.SpillsHeadroom storesInLoop ∧
      (∃ r ∈ plainDefault.headroom storesInLoop, r ≠ plainDefault.framePointer) ∧
      storesInLoop.KeepsIdle 1 ∧
      ∀ name i detail, i.info.flags.isAsm = false →
        (plainDefault.lower storesInLoop).failure ≠
          some (.error (.inst name 1 i .noScratch detail))) ∧
    plainDefault.IsPressed usesMany ∧ ¬ plainDefault.SpillsHeadroom usesMany ∧
      plainDefault.SlotInReach usesMany 0 ∧
      ∀ name i detail, i.info.flags.isAsm = false →
        (plainDefault.lower usesMany).failure ≠
          some (.error (.inst name 0 i .noScratch detail)) := by
  have hloop : plainDefault.IsPressed storesInLoop ∧ plainDefault.SpillsHeadroom storesInLoop ∧
      ∃ r ∈ plainDefault.headroom storesInLoop, r ≠ plainDefault.framePointer := by
    decide +kernel
  have hmany : plainDefault.IsPressed usesMany ∧ ¬ plainDefault.SpillsHeadroom usesMany ∧
      plainDefault.SlotInReach usesMany 0 := by
    decide +kernel
  -- the loop leads to itself and to the return
  have hidle : storesInLoop.KeepsIdle 1 := by
    apply Procedure.keepsIdle_of_closed [1, 2] <;> decide
  obtain ⟨⟨hp, hcount, hbalanced, hneeds⟩, hspills, hfree⟩ := id hloop
  obtain ⟨⟨hp', hcount', hbalanced', hneeds'⟩, hspills', hreach⟩ := id hmany
  refine ⟨⟨hloop.1, hspills, hfree, hidle, ?_⟩, hmany.1, hspills', hreach, ?_⟩
  · intro name i detail hasm
    exact headroom_suffices hp hcount hbalanced hneeds (fun _ => ⟨hfree, hidle⟩)
      (fun h => absurd hspills h) hasm
  · intro name i detail hasm
    exact headroom_suffices hp' hcount' hbalanced' hneeds' (fun h => absurd h hspills')
      (fun _ => .inr hreach) hasm

/-- If control ends without a return, no register is free, and no slot was made. -/
theorem headroom_fails_deadEnd :
    plainDefault.IsPressed deadEnd ∧ plainDefault.SpillsHeadroom deadEnd ∧
      (∃ r ∈ plainDefault.headroom deadEnd, r ≠ plainDefault.framePointer) ∧
      (plainDefault.lower deadEnd).failure = some (.error (.inst "f" 0
        (.make .str [.use (.core 0), .use Reg.sp, .use .noreg, .imm 908, .cond .al, .use .noreg])
        .noScratch .noSlot)) := by
  decide +kernel

end Target

end FrameLowering
