import FrameLowering.Proofs.SpillCoverage
import FrameLowering.Proofs.StackDistance

/-!
# How far a save is from the stack pointer

The stores of saved registers in a prologue and their loads in an epilogue are addressed from the
stack pointer, wherever it is. The distance was decided from two numbers: a slot is placed below
the fixed objects of the frame, but the stack pointer is taken to be at the bottom of an area that
begins at the stack pointer on entry. So a slot is accessed above the stack pointer by the bytes of
its area that are below it, less the depth of the fixed objects (`Target.savedAddress_of_reaches`).
Fixed objects at negative offsets therefore bring accesses below the stack pointer
(`Target.accessesBelow_wordBelow`), the last slot of each area first.
-/

namespace FrameLowering

open ImmediateField (word)

/-! ## Lines between labels -/

/-- The watch in which something is to hold of the instructions of all lines with labels from
`first` on and before `last`. -/
def Watch.labelled (allowed : Line → State → State → Prop) (first last : Nat)
    (met : Inst → State → Prop) : Watch where
  allowed := allowed
  expected l s := first ≤ l.label → l.label < last → met l.inst s

section
variable {allowed : Line → State → State → Prop} {first last : Nat} {met : Inst → State → Prop}

theorem Watch.passesNew_labelled : (labelled allowed first last met).PassesNew last :=
  fun _ _ hlast _ _ hlt => absurd hlast (Nat.not_le.2 hlt)

end

/-- A watch that holds over the lines of every block from every state holds over all runs. -/
theorem Watch.lines_of_reaches {k : Watch} {p : Procedure} {entry : State} {c : Point}
    (hblock : ∀ (b : Nat) m s, p.blocks[b]? = some m → k.Lines (fun _ => True) m.lines s)
    (h : Reaches p k.allowed entry c) : k.Lines (fun _ => True) c.rest c.state := by
  induction h with
  | refl =>
    rw [Procedure.lines]
    cases hb : p.blocks[0]? with
    | none => trivial
    | some m => exact hblock 0 m entry hb
  | tail _ hstep ih =>
    cases hstep with
    | line heff hallowed => exact ih.2 _ heff hallowed
    | jump _ _ hm => exact hblock _ _ _ hm

/-- A line with an old label divides the old lines as it divides all. -/
theorem Line.Grows.split_of_label {P : Inst → Prop} {n : Nat} {xs ys zs : List Line} {l : Line}
    (h : Grows P n xs (ys ++ l :: zs)) (hl : l.label < n) :
    ∃ us vs, xs = us ++ l :: vs ∧ Grows P n us ys := by
  induction ys generalizing xs with
  | nil =>
    cases h with
    | keep h => exact ⟨[], _, rfl, .nil⟩
    | add _ hlabel => exact absurd hlabel (Nat.not_le.2 hl)
  | cons y ys ih =>
    cases h with
    | keep h =>
      obtain ⟨us, vs, rfl, hus⟩ := ih h
      exact ⟨y :: us, vs, rfl, .keep hus⟩
    | add hnew hlabel h =>
      obtain ⟨us, vs, rfl, hus⟩ := ih h
      exact ⟨us, vs, rfl, .add hnew hlabel hus⟩

namespace Target

/-! ## Accesses from the stack pointer -/

section
variable {t : Target} {w : WideSet} {p : Procedure} {block : Nat} {i : Inst} {spAdj index : Int64}
  {s s₁ : State} {o : FrameObject} {a : Address} {e : Expansion}

/-- What stands for an access that is addressed from the stack pointer is measured from there.
The instructions before it leave the stack pointer alone, those that free a scratch register
included. -/
theorem Expands.forms_of_sp (h : Expands t w p block i spAdj e) (hplace : i.frameIndexAt = some 1)
    (hindex : i.operands[1]? = some (.frameIndex index)) (ho : p.frame.object? index = some o)
    (ha : t.address p index o spAdj = .ok a) (hbase : a.base = Reg.sp)
    (hexec : ExecAll e.before s s₁) : i.Forms e.inst (s₁.sp + word a.offset) s₁ := by
  have hthrough {r : Rebased} {scratch : Reg} {m : State}
      (hr : t.rebase w p block i spAdj = .ok r) (hrest : r.rest ≠ 0)
      (hscratch : t.IsScratch r.inst scratch) (hchain : ExecAll (r.chain w scratch) m s₁) :
      i.Forms (r.through scratch) (s₁.sp + word a.offset) s₁ := by
    obtain ⟨n, rfl⟩ := hscratch.core
    have hsp : s₁.sp = m.sp := by
      apply hchain.sp_eq
      intro j hj
      exact (WideSet.isSum_of_mem_addConstant hj).sparesStack hscratch.ne_sp
    have hforms := forms_through_base hr hplace hindex ho ha hrest hchain
    rw [hbase] at hforms
    rw [hsp]
    exact hforms
  cases h with
  | direct h =>
    cases h with
    | alone hr hrest =>
      obtain rfl : s₁ = s := hexec
      have hforms := forms_from_base hr hplace hindex ho ha hrest s₁
      rw [hbase] at hforms
      exact hforms
    | through hr hrest hscratch => exact hthrough hr hrest hscratch hexec
  | borrowed hr hrest hscratch =>
    obtain ⟨m, -, hchain⟩ := execAll_append_cons.1 hexec
    exact hthrough hr hrest hscratch hchain

end

/-! ## Distances -/

/-- An access to the slot of a saved register. The bytes of its area that are below the slot, less
`depth`, are the distance from the stack pointer. -/
def AccessesSlot (σs : List SavedSlot) (depth : Int64) (i : Inst) (s : State) : Prop :=
  ∃ σ pre post, inArea σ.area σs = pre ++ σ :: post ∧ i.op.access?.isSome ∧ i.register 0 = σ.reg ∧
    i.address s = s.sp + word (Int64.ofNat (savedBytes post) - depth)

section
variable {t : Target} {w : WideSet} {p : Procedure} {depth : Int64} {σ : SavedSlot}

/-- The bottom of an area is below the slots of the areas above it and its own. -/
theorem IsGrouped.exists_above {area : Area} {bottom : Int64} (h : t.IsGrouped p)
    (hrow : t.IsSavedRow p.frame.saved) (hbottom : p.layout.areaOffset area = .ok bottom) :
    ∃ above below, p.frame.saved = above ++ inArea area p.frame.saved ++ below ∧
      bottom = p.frame.stackSize -
        Int64.ofNat (savedBytes (above ++ inArea area p.frame.saved)) := by
  obtain ⟨hb1, hb2, hb3, -⟩ := hrow.savedBytes_inArea
  obtain ⟨hg1, hg2, hg3, hoff3, hoff2, hoff1, -, -⟩ := h
  rw [Layout.savedSize] at hoff3
  rw [← hb1] at hg1
  rw [← hb2] at hg2
  rw [← hb3] at hg3
  -- the areas come from the top of the frame in this order
  cases area with
  | gpr1 =>
    obtain rfl := Except.ok.inj hbottom
    refine ⟨[], inArea .gpr2 p.frame.saved ++ inArea .dpr p.frame.saved, ?_, ?_⟩
    · rw [List.nil_append, ← List.append_assoc]
      exact hrow.eq_append
    · rw [List.nil_append, ← hg1, hoff1, hoff2, hoff3]
      grind
  | gpr2 =>
    obtain rfl := Except.ok.inj hbottom
    refine ⟨inArea .gpr1 p.frame.saved, inArea .dpr p.frame.saved, hrow.eq_append, ?_⟩
    rw [savedBytes_append, Int64.ofNat_add, ← hg1, ← hg2, hoff2, hoff3]
    grind
  | dpr =>
    obtain rfl := Except.ok.inj hbottom
    refine ⟨inArea .gpr1 p.frame.saved ++ inArea .gpr2 p.frame.saved, [], ?_, ?_⟩
    · rw [List.append_nil]
      exact hrow.eq_append
    · rw [savedBytes_append, savedBytes_append, Int64.ofNat_add, Int64.ofNat_add, ← hg1, ← hg2,
        ← hg3, hoff3]
  | outside => cases hbottom
  | unknown => cases hbottom

/-- The address of a slot among slots that begin `depth` bytes down. -/
theorem IsGrouped.address_of_stacks {o : FrameObject} {a : Address} (h : t.IsGrouped p)
    (hrow : t.IsSavedRow p.frame.saved) (hstacks : p.frame.Stacks depth p.frame.saved)
    (hσ : σ ∈ p.frame.saved) (ho : p.frame.object? σ.index = some o)
    (ha : t.address p σ.index o 0 = .ok a) :
    ∃ pre post, inArea σ.area p.frame.saved = pre ++ σ :: post ∧
      a = ⟨Reg.sp, Int64.ofNat (savedBytes post) - depth⟩ := by
  obtain ⟨bottom, hbottom, rfl⟩ := h.address_eq hrow hσ ha
  obtain ⟨above, below, hsaved, rfl⟩ := h.exists_above hrow hbottom
  obtain ⟨pre, post, hsplit⟩ := List.append_of_mem (mem_inArea.2 ⟨hσ, rfl⟩)
  refine ⟨pre, post, hsplit, ?_⟩
  have hplaced : p.frame.Stacks depth (above ++ pre ++ σ :: (post ++ below)) := by
    rw [hsaved, hsplit] at hstacks
    simpa only [List.append_assoc, List.cons_append] using hstacks
  obtain ⟨q, hq, -, hoffset⟩ := hplaced.split
  obtain rfl := Option.some.inj (ho.symm.trans hq)
  congr 1
  rw [hoffset, hsplit]
  simp only [savedBytes_append, savedBytes_cons, Int64.ofNat_add]
  grind

/-- What stands for a store or load of a saved register accesses its slot. -/
theorem accessesSlot_of_expands {block : Nat} {i : Inst} {e : Expansion} {s s₁ : State}
    (hgrouped : t.IsGrouped p) (hrow : t.IsSavedRow p.frame.saved)
    (hstacks : p.frame.Stacks depth p.frame.saved) (hσ : σ ∈ p.frame.saved)
    (hi : i.IsSlotAccess σ.reg σ.index) (haccess : i.op.access?.isSome)
    (h : Expands t w p block i 0 e) (hexec : ExecAll e.before s s₁) :
    AccessesSlot p.frame.saved depth e.inst s₁ := by
  obtain ⟨r, hr⟩ := h.rebase
  obtain ⟨o, ho⟩ := object_of_rebase hr hi.place hi.index
  obtain ⟨-, a, ha, -⟩ := rebase_folds hr hi.place hi.index ho
  obtain ⟨pre, post, hsplit, rfl⟩ := hgrouped.address_of_stacks hrow hstacks hσ ho ha
  have hforms := h.forms_of_sp hi.place hi.index ho ha rfl hexec
  obtain ⟨k, hk⟩ := Option.isSome_iff_exists.1 haccess
  have hal : e.inst.Enabled s₁ := by
    left
    rw [hforms.predicate, hi.predicate]
  refine ⟨σ, pre, post, hsplit, ?_, ?_, ?_⟩
  · rw [hforms.access]
    exact haccess
  · rw [hforms.register_zero, hi.register_zero]
  · rw [hforms.address_eq hk hal, hi.beyond, add_zero]

end

/-! ## Where saves and restores are -/

section
variable {t : Target} {w : WideSet} {c q r : Procedure} {k first : Nat} {b : Block}
  {xs ys : List Line} {l : Line}

/-- Stores and loads of saved registers access their slots. -/
theorem exists_slot_of_mem (hw : t.wide? = some w) (hrow : t.IsSavedRow c.frame.saved) {i : Inst}
    (hi : i ∈ t.saves c ∨ i ∈ t.restores c) :
    ∃ σ ∈ c.frame.saved, i.IsSlotAccess σ.reg σ.index ∧ i.op.access?.isSome := by
  rcases hi with hi | hi
  · obtain ⟨σ, hσ, rfl⟩ := List.mem_map.1 hi
    have hslot := hrow.hasSlot hσ
    refine ⟨σ, hσ, ?_, ?_⟩
    · rw [instrSet_of_wide hw]
      exact w.isSlotAccess_storeToSlot hslot _
    · rw [instrSet_of_wide hw]
      rcases hslot with ⟨n, hn⟩ | ⟨n, hn⟩
      all_goals rw [hn]; cases w <;> rfl
  · obtain ⟨σ, hσ, rfl⟩ := List.mem_map.1 hi
    rw [List.mem_reverse] at hσ
    have hslot := hrow.hasSlot hσ
    refine ⟨σ, hσ, ?_, ?_⟩
    · rw [instrSet_of_wide hw]
      exact w.isSlotAccess_loadFromSlot hslot _
    · rw [instrSet_of_wide hw]
      rcases hslot with ⟨n, hn⟩ | ⟨n, hn⟩
      all_goals rw [hn]; cases w <;> rfl

/-- No call frame is open where a register is saved, at the start of the function, or restored,
before a return. -/
theorem openFrame_of_framed (hw : t.wide? = some w) (hrow : t.IsSavedRow c.frame.saved)
    (hframed : Procedure.Framed first (t.saves c) (fun _ => t.restores c) c q)
    (hb : c.blocks[k]? = some b) (hold : ∀ m ∈ b.lines, m.label < first)
    (hbalanced : (setupSizes b.lines).Perm (destroySizes b.lines))
    (hlines : q.lines k = xs ++ l :: ys) (hl : first ≤ l.label) :
    t.openFrame r xs = 0 ∧ (l.inst ∈ t.saves c ∨ l.inst ∈ t.restores c) := by
  obtain ⟨as, es, has, hes, hblock⟩ := hframed.block k b hb
  have hunmarked {ms : List Line} (h : ∀ m ∈ ms, m.inst ∈ t.saves c ∨ m.inst ∈ t.restores c) :
      t.openFrame r ms = 0 := by
    apply openFrame_of_unmarked
    intro m hm
    obtain ⟨σ, -, hslot, -⟩ := exists_slot_of_mem hw hrow (h m hm)
    exact hslot.flags.2
  have hsaves : ∀ m ∈ as, m.inst ∈ t.saves c := fun m hm => has.mem_of_ite hm
  have hrestores : ∀ m ∈ es, m.inst ∈ t.restores c := fun m hm => hes.mem_of_ite hm
  have hnew : l ∉ b.lines := fun hin => absurd (hold l hin) (Nat.not_lt.2 hl)
  rw [← b.body_append_exit, List.mem_append, not_or] at hnew
  rw [Procedure.lines, hblock] at hlines
  simp only [List.append_assoc] at hlines
  rcases append_eq_append_cons hlines with ⟨rest, rfl, -⟩ | ⟨done, rfl, hdone⟩
  · refine ⟨hunmarked fun m hm => .inl (hsaves m (List.mem_append_left _ hm)), .inl ?_⟩
    exact hsaves l (List.mem_append_right _ List.mem_cons_self)
  rcases append_eq_append_cons hdone with ⟨rest, hbody, -⟩ | ⟨more, rfl, hmore⟩
  · exact absurd (hbody ▸ List.mem_append_right _ List.mem_cons_self) hnew.1
  rcases append_eq_append_cons hmore with ⟨rest, rfl, -⟩ | ⟨_, -, hexit⟩
  · refine ⟨?_, .inr (hrestores l (List.mem_append_right _ List.mem_cons_self))⟩
    -- past the body all call frames are closed again
    rw [openFrame_append, openFrame_append, openFrame_of_balanced (balanced_body hbalanced),
      hunmarked fun m hm => .inl (hsaves m hm),
      hunmarked fun m hm => .inr (hrestores m (List.mem_append_left _ hm))]
    rfl
  · exact absurd (hexit ▸ List.mem_append_right _ List.mem_cons_self) hnew.2

/-- A walk through lines among which those with labels from `first` on and before `last` have frame
indices, and are where no call frame is open. -/
theorem pieces_labelled {spAdj spAdj' : Int64} {ls : List Line} {ps : List Piece} {last : Nat}
    {allowed : Line → State → State → Prop} {met : Inst → State → Prop} (done : List Line)
    (h : Walks t w q k spAdj ls spAdj' ps) (hw : t.wide? = some w)
    (hstart : spAdj = t.openFrame q done)
    (hlines : ∀ xs l ys, done ++ ls = xs ++ l :: ys → first ≤ l.label → l.label < last →
      t.openFrame q xs = 0 ∧ l.inst.frameIndexAt ≠ none ∧ ∀ e s s₁,
        Expands t w q k l.inst 0 e → ExecAll e.before s s₁ → met e.inst s₁) (s : State) :
    (Watch.labelled allowed first last met).Pieces (fun _ => True) ps s := by
  -- what is open at a line is read off the lines that were passed, so these are carried along
  induction h generalizing done s with
  | nil => trivial
  | @marker spAdj _ l ls m _ hop hm _ ih =>
    obtain ⟨v, hinsts, -, -⟩ := callFrame_facts hw hm
    apply Watch.Pieces.append
    apply Watch.pieces_fresh
    · intro i hi
      rw [hinsts] at hi
      exact (WideSet.plain_of_mem_addConstant hi).1
    intro s' _
    have hend : Walks t w q k (spAdj + m.delta) [] (spAdj + m.delta) [] := .nil
    have hone := (Walks.marker hop hm hend).spAdj_eq_openFrame hw
    refine ih (done ++ [l]) ?_ ?_ s'
    · rw [openFrame_append, hone, hstart]
    · rw [List.append_assoc, List.singleton_append]
      exact hlines
  | @plain spAdj _ l ls _ hop hplace _ ih =>
    constructor
    · intro hfirst hlast
      exact absurd hplace (hlines done l ls rfl hfirst hlast).2.1
    intro s' _ _
    refine ih (done ++ [l]) ?_ ?_ s'
    · rw [openFrame_concat (Bool.eq_false_iff.2 hop)]
      exact hstart
    · rw [List.append_assoc, List.singleton_append]
      exact hlines
  | @expand spAdj _ l ls e _ hop he _ ih =>
    obtain ⟨hbefore, hafter⟩ := he.sparesStack hw
    apply Watch.Pieces.append
    apply pieces_of_expansion
    · exact fun j hj => (hbefore j hj).isReturn
    · exact fun j hj => (hafter j hj).isReturn
    intro s₁ hexec
    constructor
    · intro hfirst hlast
      obtain ⟨hzero, -, hmet⟩ := hlines done l ls rfl hfirst hlast
      rw [hstart, hzero] at he
      exact hmet e s s₁ he hexec
    intro s₂ _ _ s₃ _
    refine ih (done ++ [l]) ?_ ?_ s₃
    · rw [openFrame_concat (Bool.eq_false_iff.2 hop)]
      exact hstart
    · rw [List.append_assoc, List.singleton_append]
      exact hlines

end

/-! ## Runs -/

/-- A line that saves or restores a register. Labels are handed out in turn, so its label comes
after those of the function and before those of the code that moves the stack pointer. -/
def SavesOrRestores (t : Target) (p : Procedure) (l : Line) : Prop :=
  p.fresh ≤ l.label ∧ l.label < (t.insertSpillCode (t.planned p)).fresh

instance (t : Target) (p : Procedure) (l : Line) : Decidable (t.SavesOrRestores p l) :=
  inferInstanceAs (Decidable (_ ∧ _))

section
variable {t : Target} {p g q : Procedure} {σ : SavedSlot}

theorem length_assignSlots_le (t : Target) (scavenger : Bool) (p : Procedure) :
    (t.assignSlots (t.finalizeSpillSet scavenger p)).frame.objects.length ≤
      p.frame.objects.length + 27 := by
  have hfew := length_savedSlots_le (t := t) (p := t.finalizeSpillSet scavenger p)
  rw [savedSlots, List.length_map, List.length_zipIdx] at hfew
  rw [length_assignSlots]
  have hobjects := (object?_cases_of_finalizeSpillSet t scavenger p).1.2
  omega

/-- Nothing but the decision about the frame pointer has been made. -/
theorem isUnplanned_decidePointer (t : Target) (hp : p.IsUnplanned) :
    (t.decidePointer p.markUsed).IsUnplanned :=
  ⟨hp.spilled, hp.unframed, hp.areas, hp.unscavenged⟩

theorem fixedDepth_finalizeSpillSet (t : Target) (p : Procedure) :
    (t.finalizeSpillSet t.config.scavenging (t.decidePointer p.markUsed)).fixedDepth =
      p.fixedDepth := by
  obtain ⟨objects, scavengingIndex, hframe⟩ :=
    t.frame_finalizeSpillSet t.config.scavenging (t.decidePointer p.markUsed)
  rw [Procedure.fixedDepth, hframe]
  rfl

/-- The planned slots begin where the fixed objects of the function end. -/
theorem stacks_planned (hp : p.IsUnplanned) (hcount : p.frame.objects.length + 27 < 2 ^ 63) :
    (t.planned p).frame.Stacks (alignTo p.fixedDepth 4) (t.planned p).frame.saved := by
  have hlen := length_assignSlots_le t t.config.scavenging (t.decidePointer p.markUsed)
  have hbound : (t.assignSlots (t.finalizeSpillSet t.config.scavenging
      (t.decidePointer p.markUsed))).frame.objects.length < 2 ^ 63 := Nat.lt_of_le_of_lt hlen hcount
  rw [saved_planned, ← fixedDepth_finalizeSpillSet]
  exact stacks_placeFrame hbound
    (scavengingIndex_notMem (isUnplanned_decidePointer t hp).unscavenged hbound)

/-- A register with a slot is spilled, for which there has to be a stack frame. -/
theorem hasStackFrame_of_mem (hwide : t.abi.thumb1Only = false) (hp : p.IsUnplanned)
    (hσ : σ ∈ (t.planned p).frame.saved) : (t.planned p).layout.hasStackFrame := by
  have hnew := isUnplanned_decidePointer t hp
  show (t.finalizeSpillSet t.config.scavenging (t.decidePointer p.markUsed)).layout.hasStackFrame
  rw [saved_planned] at hσ
  rcases finalizeSpillSet_cases_of_wide (p := t.decidePointer p.markUsed) t.config.scavenging hwide
    with ⟨-, hplan⟩ | ⟨-, -, hsame⟩
  · obtain ⟨_, _, _, hproc, -⟩ := t.planHeadroom_shape (t.decidePointer p.markUsed)
      t.config.scavenging
    rw [hplan, hproc]
  · obtain ⟨cs, hcs, -⟩ := mem_savedSlots hσ
    have hspilled := (List.mem_filter.1 hcs).2
    rw [hsame, Layout.isSpilled, hnew.spilled] at hspilled
    cases hspilled

/-- No area is recorded before slots are grouped. -/
theorem areas_planned (hp : p.IsUnplanned) : (t.planned p).layout.areas = [] := by
  have hnew := isUnplanned_decidePointer t hp
  obtain ⟨⟨spilled, hasStackFrame, farJump, heq⟩, -⟩ :=
    layout_finalizeSpillSet t t.config.scavenging hnew.unframed
  show (t.finalizeSpillSet t.config.scavenging (t.decidePointer p.markUsed)).layout.areas = []
  rw [heq]
  exact hnew.areas

theorem nodup_index_planned (hcount : p.frame.objects.length + 27 < 2 ^ 63) :
    ((t.planned p).frame.saved.map SavedSlot.index).Nodup := by
  have hlen := length_assignSlots_le t t.config.scavenging (t.decidePointer p.markUsed)
  rw [saved_planned]
  exact nodup_index_of_length (Nat.lt_of_le_of_lt hlen hcount)

/-- The slots of a planned frame are grouped, if there are any. -/
theorem isGrouped_of_computeLayout (hp : p.IsUnplanned) (hwide : t.abi.thumb1Only = false)
    (hcount : p.frame.objects.length + 27 < 2 ^ 63)
    (hlayout : t.computeLayout (t.insertSpillCode (t.planned p)) = .ok () g)
    (hσ : σ ∈ (t.planned p).frame.saved) : t.IsGrouped g := by
  obtain ⟨-, blocks, fresh, hspill⟩ := grows_insertSpillCode (t := t) .arm (t.planned p) 0
  rw [hspill] at hlayout
  have hfacts := computeLayout_facts hlayout (areas_planned hp) (nodup_index_planned hcount)
  exact hfacts.2.1 (hasStackFrame_of_mem hwide hp hσ)

/-- Saves and restores access their slots, in every block of a lowered function and from every
state. -/
theorem lines_of_lower {k : Nat} {d : Block} {allowed : Line → State → State → Prop}
    (hok : (t.lower p).failure = none) (hp : p.IsUnplanned)
    (hold : ∀ b ∈ p.blocks, ∀ l ∈ b.lines, l.label < p.fresh)
    (hbalanced : ∀ b ∈ p.blocks, (setupSizes b.lines).Perm (destroySizes b.lines))
    (hcount : p.frame.objects.length + 27 < 2 ^ 63)
    (hd : (t.lower p).proc.blocks[k]? = some d) (s : State) :
    (Watch.labelled allowed p.fresh (t.insertSpillCode (t.planned p)).fresh
      (AccessesSlot (t.lower p).proc.frame.saved (alignTo p.fixedDepth 4))).Lines
      (fun _ => True) d.lines s := by
  obtain ⟨hwide, -, -, g, hlayout, hinsert⟩ := lower_cases hok
  generalize (t.lower p).proc = q at hinsert hd ⊢
  obtain ⟨w, hw⟩ := exists_wide hwide
  change t.computeLayout (t.insertSpillCode (t.planned p)) = .ok () g at hlayout
  have hrow : t.IsSavedRow (t.planned p).frame.saved := by
    rw [saved_planned]
    exact isSavedRow_savedSlots
  have hstacks := stacks_planned (t := t) hp hcount
  have hgrouped (σ : SavedSlot) (hσ : σ ∈ (t.planned p).frame.saved) : t.IsGrouped g :=
    isGrouped_of_computeLayout hp hwide hcount hlayout hσ
  obtain ⟨hframed, blocks, fresh, hspill⟩ := framed_insertSpillCode (t := t) (p := t.planned p)
    (q := t.planned p) rfl rfl fun i hi => isReturn_of_mem_saves hw hrow hi
  rw [hspill] at hlayout hframed ⊢
  obtain ⟨layout, rfl⟩ := computeLayout_shape hlayout
  obtain ⟨m, hgrown, ⟨blocks₁, fresh₁, offsetAdjustment, hm⟩, hwalks⟩ :=
    exists_grows_of_layout hw hinsert
  obtain ⟨blocks₂, fresh₂, hq⟩ := hwalks.shape
  -- the block as it was before the walk, and as it was given
  obtain ⟨mb, n, spAdj, ps, hwalked, hn, hwalk, rfl⟩ := hwalks.exists_walk hd
  have hlt := (List.getElem?_eq_some_iff.1 hwalked).1
  rw [hgrown.length] at hlt
  change k < blocks.length at hlt
  rw [hframed.length] at hlt
  have hb := List.getElem?_eq_getElem hlt
  generalize (t.planned p).blocks[k] = b at hb
  have hmem := List.mem_of_getElem? hb
  rw [blocks_planned] at hmem
  refine Watch.lines_number Watch.passesNew_labelled (hgrown.fresh.trans hn) ?_
  refine pieces_labelled [] hwalk hw (openFrame_of_unmarked ?_).symm ?_ s
  · exact fun l hl => absurd hl List.not_mem_nil
  intro xs l ys hsplit hfirst hlast
  have hlines := hgrown.lines k
  have hnow : m.lines k = xs ++ l :: ys := by
    rw [Procedure.lines, hwalked]
    exact hsplit
  rw [hnow] at hlines
  -- the line is older than the code that moves the stack pointer, which opens no call frame
  obtain ⟨us, vs, hus, hgrows⟩ := hlines.split_of_label hlast
  obtain ⟨hzero, hinst⟩ := openFrame_of_framed (r := q) hw hrow hframed hb
    (fun l hl => t.fresh_planned p ▸ hold b hmem l hl) (hbalanced b hmem) hus
    (t.fresh_planned p ▸ hfirst)
  obtain ⟨σ, hσ, hslot, haccess⟩ := exists_slot_of_mem hw hrow hinst
  refine ⟨?_, ?_, ?_⟩
  · rw [openFrame_of_grows hgrows hw, hzero]
  · rw [hslot.place]
    exact Option.some_ne_none 1
  · intro e s s₁ he hexec
    have hgroups := hgrouped σ hσ
    subst hm hq
    exact accessesSlot_of_expands ⟨hgroups.gpr1, hgroups.gpr2, hgroups.dpr, hgroups.dprOffset,
      hgroups.gpr2Offset, hgroups.gpr1Offset, hgroups.area, hgroups.pointer⟩ hrow
      (hstacks.congr fun _ _ => rfl) hσ hslot haccess he hexec

theorem isSavedRow_of_lower (hok : (t.lower p).failure = none) :
    t.IsSavedRow (t.lower p).proc.frame.saved := by
  obtain ⟨hwide, -, -, g, hlayout, hinsert⟩ := lower_cases hok
  generalize (t.lower p).proc = q at hinsert ⊢
  obtain ⟨w, hw⟩ := exists_wide hwide
  obtain ⟨m, -, ⟨_, _, _, rfl⟩, hwalks⟩ :=
    exists_grows_of_insertFrame (c := t.planned p) hw hlayout hinsert
  obtain ⟨_, _, rfl⟩ := hwalks.shape
  show t.IsSavedRow (t.planned p).frame.saved
  rw [saved_planned]
  exact isSavedRow_savedSlots

/-- There are few bytes in an area. -/
theorem IsSavedRow.savedBytes_inArea_le {σs : List SavedSlot} (h : t.IsSavedRow σs)
    (hσ : σ ∈ σs) : savedBytes (inArea σ.area σs) ≤ 64 := by
  obtain ⟨hb1, hb2, hb3, h1, h2, h3⟩ := h.savedBytes_inArea
  rcases h.cases hσ with ⟨-, harea | harea⟩ | ⟨-, harea⟩
  all_goals
    rw [harea]
    omega

theorem fixedDepth_nonneg (p : Procedure) : 0 ≤ p.fixedDepth.toInt := by
  refine List.foldlRecOn (motive := fun depth : Int64 => 0 ≤ depth.toInt) _ _ (Int.le_refl 0) ?_
  intro depth hdepth o _
  split
  · next hlt =>
    rw [Int64.lt_iff_toInt_lt] at hlt
    omega
  · exact hdepth

/-- The distance as a signed number, where the fixed objects do not reach too far down. -/
theorem toInt_distance {n : Nat} (hn : n < 2 ^ 31) (hdepth : p.fixedDepth.toInt ≤ 2 ^ 31) :
    (word (Int64.ofNat n - alignTo p.fixedDepth 4)).toInt = n - (alignTo p.fixedDepth 4).toInt := by
  have hfour : (4 : Int64).toInt = 4 := rfl
  have hnonneg := fixedDepth_nonneg p
  obtain ⟨hle, hlt, hdvd⟩ := toInt_alignTo (a := 4) hnonneg (by decide) (by omega)
  rw [hfour] at hlt hdvd
  have hnat : (Int64.ofNat n).toInt = n := Int64.toInt_ofNat_of_lt (by omega)
  rw [ImmediateField.word_eq_ofInt, BitVec.toInt_ofInt,
    toInt_sub_of_range (by omega) (by omega), hnat]
  apply Int.bmod_eq_of_le
  · omega
  · omega

end

/-- Saves and restores are made at a distance from the stack pointer that is the same in all runs,
whatever the other lines do: the bytes of the register's area that are below its slot, less the
bytes that the fixed objects reach down from the stack pointer on entry. An access is at or above
the stack pointer if the former are at least as many, as they are without fixed objects at negative
offsets; the last slot of each area is accessed below the stack pointer with them. -/
theorem savedAddress_of_reaches {t : Target} {p : Procedure}
    {allowed : Line → State → State → Prop} {entry : State} {c : Point} {l : Line}
    {next : List Line} (hok : (t.lower p).failure = none) (hp : p.IsUnplanned)
    (hold : ∀ b ∈ p.blocks, ∀ l ∈ b.lines, l.label < p.fresh)
    (hbalanced : ∀ b ∈ p.blocks, (setupSizes b.lines).Perm (destroySizes b.lines))
    (hcount : p.frame.objects.length + 27 < 2 ^ 63)
    (hreach : Reaches (t.lower p).proc allowed entry c) (hrest : c.rest = l :: next)
    (hsave : t.SavesOrRestores p l) :
    ∃ σ pre post, inArea σ.area (t.lower p).proc.frame.saved = pre ++ σ :: post ∧
      l.inst.op.access?.isSome ∧ l.inst.register 0 = σ.reg ∧
      l.inst.address c.state =
        c.state.sp + word (Int64.ofNat (savedBytes post) - alignTo p.fixedDepth 4) ∧
      (p.fixedDepth.toInt ≤ 2 ^ 31 → (l.inst.address c.state - c.state.sp).toInt =
        savedBytes post - (alignTo p.fixedDepth 4).toInt) := by
  have hlines := Watch.lines_of_reaches (k := Watch.labelled allowed p.fresh
    (t.insertSpillCode (t.planned p)).fresh
    (AccessesSlot (t.lower p).proc.frame.saved (alignTo p.fixedDepth 4)))
    (fun _ _ s hd => lines_of_lower hok hp hold hbalanced hcount hd s) hreach
  rw [hrest] at hlines
  obtain ⟨σ, pre, post, hsplit, haccess, hreg, haddress⟩ := hlines.1 hsave.1 hsave.2
  refine ⟨σ, pre, post, hsplit, haccess, hreg, haddress, ?_⟩
  intro hdepth
  have hfew : savedBytes post < 2 ^ 31 := by
    have hσ : σ ∈ inArea σ.area (t.lower p).proc.frame.saved := by
      rw [hsplit]
      exact List.mem_append_right _ List.mem_cons_self
    have hsmall := (isSavedRow_of_lower hok).savedBytes_inArea_le (mem_inArea.1 hσ).1
    rw [hsplit, savedBytes_append, savedBytes_cons] at hsmall
    omega
  have hcancel (a x : Word) : a + x - a = x := by bv_omega
  rw [haddress, hcancel, toInt_distance hfew hdepth]

/-- A function with a word below the stack pointer on entry that uses `r4`. -/
def wordBelow : FunctionDesc where
  name := "f"
  objects := [{ size := 4, fixed := true, offset := -4 }]
  blocks := [{ insts := ["MOVr r4, r0, cc:al, noreg", "BX_RET cc:al, noreg"] }]

/-- What becomes of it. -/
def usesWordBelow : Described where
  abi := none
  proc := {
    name := "f"
    blocks := [{ lines := Line.number 0 [
      .make .movr [.use (.core 4), .use (.core 0), .cond .al, .use .noreg],
      .make .bxRet [.cond .al, .use .noreg]] }]
    frame := { fixed := [{ size := 4, align := 4, fixed := true, offset := -4 }] }
    fresh := 2 }

/-- Its lines after lowering. -/
def linesBelow : List Line :=
  (plainDefault.lower usesWordBelow.proc).proc.lines 0

/-- All lines before the return are reached. -/
theorem reaches_linesBelow {n : Nat} {l : Line} (hn : n ≤ 9) (hl : linesBelow[n]? = some l) :
    Reaches (plainDefault.lower usesWordBelow.proc).proc (fun _ _ _ => True) counted
      ⟨0, l :: linesBelow.drop (n + 1), runLines (linesBelow.take n) counted⟩ := by
  have hknown : ∀ l ∈ linesBelow.take 9, IsKnown l.inst := by decide +kernel
  obtain ⟨hlt, rfl⟩ := List.getElem?_eq_some_iff.1 hl
  rw [← List.drop_eq_getElem_cons hlt]
  apply reaches_of_known
  · rw [List.take_append_drop]
    exact .refl
  · intro l hl
    exact ⟨hknown l ((List.take_subset_take_left _ hn) hl), fun _ => trivial⟩

/-- The link register is saved there at the stack pointer, less the word below it. -/
theorem savedAddress_of_reaches_wordBelow :
    ∃ l next s, Reaches (plainDefault.lower usesWordBelow.proc).proc (fun _ _ _ => True) counted
        ⟨0, l :: next, s⟩ ∧ plainDefault.SavesOrRestores usesWordBelow.proc l ∧
      ∃ σ pre post, inArea σ.area (plainDefault.lower usesWordBelow.proc).proc.frame.saved =
          pre ++ σ :: post ∧ l.inst.register 0 = σ.reg ∧
        (l.inst.address s - s.sp).toInt = savedBytes post - 4 := by
  obtain ⟨l, hl, hsave⟩ : ∃ l ∈ linesBelow[1]?,
      plainDefault.SavesOrRestores usesWordBelow.proc l := by decide +kernel
  have hreach := reaches_linesBelow (by decide) hl
  obtain ⟨σ, pre, post, hsplit, -, hreg, -, hdistance⟩ := savedAddress_of_reaches
    (p := usesWordBelow.proc) (by decide +kernel) ⟨rfl, rfl, rfl, rfl⟩ (by decide) (by decide)
    (by decide) hreach rfl hsave
  exact ⟨l, _, _, hreach, hsave, σ, pre, post, hsplit, hreg, hdistance (by decide)⟩

/-- A line with some opcode saves or restores a register below the stack pointer. -/
def AccessesBelow (op : Opcode) : Prop :=
  ∃ l next s, Reaches (plainDefault.lower usesWordBelow.proc).proc (fun _ _ _ => True) counted
      ⟨0, l :: next, s⟩ ∧ plainDefault.SavesOrRestores usesWordBelow.proc l ∧ l.inst.op = op ∧
    (l.inst.address s - s.sp).toInt < 0

theorem accessesBelow_of_line {op : Opcode} (n : Nat) (hn : n ≤ 9)
    (h : ∃ l ∈ linesBelow[n]?, plainDefault.SavesOrRestores usesWordBelow.proc l ∧
      l.inst.op = op ∧ (l.inst.address (runLines (linesBelow.take n) counted) -
        (runLines (linesBelow.take n) counted).sp).toInt < 0) : AccessesBelow op := by
  obtain ⟨l, hl, hsave, hop, hbelow⟩ := h
  exact ⟨l, _, _, reaches_linesBelow hn hl, hsave, hop, hbelow⟩

/-- The function saves and restores `r4` below the stack pointer. -/
theorem accessesBelow_wordBelow :
    wordBelow.build = .ok usesWordBelow ∧ plainDefault.abi.thumb1Only = false ∧
      (plainDefault.lower usesWordBelow.proc).failure = none ∧
      (∀ b ∈ usesWordBelow.proc.blocks, ∀ l ∈ b.lines, l.inst.op.isMarker = false) ∧
      AccessesBelow .str ∧ AccessesBelow .ldr := by
  refine ⟨by decide +kernel, rfl, by decide +kernel, by decide, ?_, ?_⟩
  · exact accessesBelow_of_line 2 (by decide) (by decide +kernel)
  · exact accessesBelow_of_line 6 (by decide) (by decide +kernel)

end Target

end FrameLowering
