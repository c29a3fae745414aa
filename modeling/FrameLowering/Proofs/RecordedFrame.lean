import FrameLowering.Proofs.BodyPoints
import FrameLowering.Proofs.Leftovers
import FrameLowering.Record.Basic

/-!
# What frame records say

The record of a lowered function says where the values are that the caller's registers had, and
from which register objects are addressed. Both are facts about the code: the prologue stores the
registers that are listed, in the order of the list, their values stay where the record says for
as long as the frame stands, and frame indices were replaced by the register that is recorded
(`Target.record_of_lower`).
-/

namespace FrameLowering

open ImmediateField (word)

/-! ## Numbers of registers -/

/-- A physical register is known by its number. -/
theorem Reg.ofDwarf_of_dwarf {r : Reg} {n : Nat} (h : r.dwarf = .ok n) :
    Reg.ofDwarf (UInt16.ofNat n) = r := by
  cases r with
  | core k =>
    obtain rfl := Except.ok.inj h
    revert k
    decide
  | single k =>
    obtain rfl := Except.ok.inj h
    revert k
    decide
  | double k =>
    obtain rfl := Except.ok.inj h
    revert k
    decide
  | _ => cases h

theorem Reg.HasSlot.exists_dwarf {r : Reg} (h : r.HasSlot) : ∃ n, r.dwarf = .ok n := by
  rcases h with ⟨n, rfl⟩ | ⟨n, rfl⟩
  · exact ⟨_, rfl⟩
  · exact ⟨_, rfl⟩

/-- A list of computations that all succeed. -/
theorem exists_mapM_ok {α β ε : Type} {f : α → Except ε β} {R : α → β → Prop} {xs : List α}
    (h : ∀ x ∈ xs, ∃ y, f x = .ok y ∧ R x y) :
    ∃ ys, xs.mapM f = .ok ys ∧ List.Forall₂ R xs ys := by
  induction xs with
  | nil => exact ⟨[], rfl, .nil⟩
  | cons x xs ih =>
    obtain ⟨y, hy, hR⟩ := h x List.mem_cons_self
    obtain ⟨ys, hys, hall⟩ := ih fun x hx => h x (List.mem_cons_of_mem _ hx)
    refine ⟨y :: ys, ?_, .cons hR hall⟩
    rw [List.mapM_cons, hy]
    show (xs.mapM f >>= fun ys => pure (y :: ys)) = _
    rw [hys]
    rfl

namespace Procedure

/-- What is recorded of a slot. -/
def Describes (p : Procedure) (σ : SavedSlot) (s : SavedReg) : Prop :=
  Reg.ofDwarf s.dwarf = σ.reg ∧ ∃ o, p.frame.object? σ.index = some o ∧
    ∀ entry : State, entry.sp + s.offset.toBitVec = p.home entry o

theorem map_reg_of_describes {p : Procedure} {σs : List SavedSlot} {ss : List SavedReg}
    (h : List.Forall₂ p.Describes σs ss) :
    ss.map (fun s => Reg.ofDwarf s.dwarf) = σs.map SavedSlot.reg := by
  induction h with
  | nil => rfl
  | cons hone _ ih => exact congrArg₂ List.cons hone.1 ih

theorem exists_slot_of_describes {p : Procedure} {σs : List SavedSlot} {ss : List SavedReg}
    (h : List.Forall₂ p.Describes σs ss) {s : SavedReg} (hs : s ∈ ss) :
    ∃ σ ∈ σs, p.Describes σ s := by
  induction h with
  | nil => exact absurd hs List.not_mem_nil
  | @cons σ _ _ _ hone _ ih =>
    rcases List.mem_cons.1 hs with rfl | hs
    · exact ⟨σ, List.mem_cons_self, hone⟩
    · obtain ⟨τ, hτ, hdescribes⟩ := ih hs
      exact ⟨τ, List.mem_cons_of_mem _ hτ, hdescribes⟩

/-- An offset from the stack pointer on entry leads to the object. -/
theorem sp_add_offset (p : Procedure) (entry : State) (o : FrameObject) :
    entry.sp + (o.offset - p.frame.varArgsSaveSize).toInt32.toBitVec = p.home entry o := by
  have hword : (o.offset - p.frame.varArgsSaveSize).toInt32.toBitVec =
      word (o.offset - p.frame.varArgsSaveSize) := by
    rw [Int64.toBitVec_toInt32, word, BitVec.signExtend_eq_setWidth_of_le _ (by decide)]
  rw [home, hword, ImmediateField.word_sub, add_sub, sub_add_eq_add_sub]

end Procedure

/-- The record of a function, from its parts. -/
theorem Record.exists_ofProcedure {t : Target} {p : Procedure} {base : Nat} {saved : List SavedReg}
    (hname : 0 < (Text.Utf8.encode p.name).length ∧ (Text.Utf8.encode p.name).length ≤ maxName)
    (hbase : (t.frameRegister p).dwarf = .ok base)
    (hsaved : p.frame.saved.mapM (savedReg p) = .ok saved) (hfew : saved.length ≤ maxSaved) :
    ∃ rec, ofProcedure t p = .ok rec ∧ rec.frameReg = UInt16.ofNat base ∧ rec.saved = saved := by
  have hnamed : ¬ (Text.Utf8.encode p.name = [] ∨ maxName < (Text.Utf8.encode p.name).length) := by
    rintro (hnil | hlong)
    · rw [hnil] at hname
      exact absurd hname.1 (Nat.lt_irrefl 0)
    · exact absurd hlong (Nat.not_lt.2 hname.2)
  rw [ofProcedure]
  simp only [if_neg hnamed, hbase, hsaved, Except.mapError, bind, Except.bind, Nat.not_lt.2 hfew,
    if_false, pure, Except.pure]
  exact ⟨_, rfl, rfl, rfl⟩

namespace Target

section
variable {t : Target} {p q : Procedure} {σ : SavedSlot}

/-- Where a register is saved there are areas. -/
theorem HasFrame.areas_of_mem (h : t.HasFrame q) (hσ : σ ∈ q.frame.saved) : t.HasAreas q := by
  by_cases hstack : q.layout.hasStackFrame
  · exact h.areas hstack
  · rw [h.bare (Bool.eq_false_iff.2 hstack)] at hσ
    exact absurd hσ List.not_mem_nil

theorem HasFrame.length_saved_le (h : t.HasFrame q) : q.frame.saved.length ≤ 26 := by
  by_cases hstack : q.layout.hasStackFrame
  · exact (h.areas hstack).row.length_total_le
  · rw [h.bare (Bool.eq_false_iff.2 hstack)]
    exact Nat.zero_le _

/-- Every saved register can be described. -/
theorem HasFrame.exists_savedReg (h : t.HasFrame q) (hσ : σ ∈ q.frame.saved) :
    ∃ s, Record.savedReg q σ = .ok s ∧ q.Describes σ s := by
  have hareas := h.areas_of_mem hσ
  obtain ⟨o, ho, -⟩ := hareas.tiles.mem hσ
  obtain ⟨n, hn⟩ := (hareas.row.hasSlot hσ).exists_dwarf
  have hinside : σ.area ≠ .outside := by
    rcases hareas.row.cases hσ with ⟨-, harea | harea⟩ | ⟨-, harea⟩
    all_goals
      rw [harea]
      exact Area.noConfusion
  refine ⟨⟨UInt16.ofNat n, (o.offset - q.frame.varArgsSaveSize).toInt32⟩, ?_, ?_, o, ho, ?_⟩
  · rw [Record.savedReg, ho]
    simp only [if_neg hinside, hn]
  · exact Reg.ofDwarf_of_dwarf hn
  · intro entry
    exact q.sp_add_offset entry o

theorem exists_dwarf_frameRegister (t : Target) (q : Procedure) :
    ∃ n, (t.frameRegister q).dwarf = .ok n := by
  rw [frameRegister]
  split
  · obtain ⟨n, hn⟩ := t.framePointer_core
    rw [hn]
    exact ⟨_, rfl⟩
  · exact ⟨_, rfl⟩

end

end Target

/-! ## Stores of the prologue -/

/-- The register that an instruction stores. -/
def Inst.stored? (i : Inst) : Option Reg :=
  match i.op.access? with
  | some (.store _) | some .storeWords => some (i.register 0)
  | _ => none

theorem Inst.stored?_of_isSum {i : Inst} {r : Reg} (h : i.IsSum r) : i.stored? = none := by
  obtain ⟨hsum, -⟩ := h
  have hnone : i.op.access? = none := by
    revert hsum
    cases i.op <;> first | exact fun _ => rfl | exact fun h => absurd h Bool.false_ne_true
  rw [stored?, hnone]

theorem WideSet.stored?_storeToSlot {w : WideSet} {r : Reg} {index : Int64} (hr : r.HasSlot) :
    (w.set.storeToSlot r index).stored? = some r := by
  rcases hr with ⟨n, rfl⟩ | ⟨n, rfl⟩
  · cases w <;> rfl
  · cases w <;> rfl

/-- With one frame index in a known place there is none elsewhere. -/
theorem Inst.place_of_indexCount {i : Inst} {place place' : Nat} {index index' : Int64}
    (hcount : i.indexCount = 1) (hplace : i.operands[place]? = some (.frameIndex index))
    (hplace' : i.operands[place']? = some (.frameIndex index')) : place' = place := by
  by_contra hne
  have hset := Operand.countP_set_add Operand.isFrameIndex hplace (.imm 0)
  have hnone := List.countP_eq_zero.1 (Nat.succ.inj (hset.trans hcount))
  have hmem : .frameIndex index' ∈ i.operands.set place (.imm 0) :=
    List.mem_of_getElem? ((List.getElem?_set_ne (Ne.symm hne)).trans hplace')
  exact absurd rfl (hnone _ hmem)

namespace Target

/-- Registers stored by the prologue, in the order of the stores. -/
def storedFirst (t : Target) (q : Procedure) : List Reg :=
  ((q.lines 0).take (t.prologueLength q)).filterMap fun l => l.inst.stored?

section
variable {t : Target} {w : WideSet} {p q : Procedure} {i : Inst}

theorem stored?_of_rebase {r : Rebased} {block : Nat} {spAdj : Int64}
    (hr : t.rebase w p block i spAdj = .ok r) (hplace : i.frameIndexAt = some 1) :
    r.inst.stored? = i.stored? := by
  obtain ⟨index, hindex⟩ := Inst.frameIndexAt_facts hplace
  obtain ⟨o, ho⟩ := object_of_rebase hr hplace hindex
  obtain ⟨-, a, -, -, hfolds, -⟩ := rebase_folds hr hplace hindex ho
  rw [Inst.stored?, Inst.stored?, hfolds.access, Inst.register, Inst.register, hfolds.dst]

/-- A frame index in a prologue is in the place of a base. -/
theorem place_of_mem_prologueCode {place : Nat} (hw : t.wide? = some w) (hframe : t.HasFrame q)
    (hi : i ∈ t.prologueCode w q) (hplace : i.frameIndexAt = some place) : place = 1 := by
  rcases mem_prologueCode hi with ⟨v, hmove⟩ | ⟨hstack, ⟨a, hsave⟩ | ⟨-, rfl⟩⟩
  · rw [(WideSet.plain_of_mem_addConstant hmove).2.2] at hplace
    cases hplace
  · obtain ⟨σ, hσ, rfl⟩ := List.mem_map.1 hsave
    have hreg := (hframe.areas hstack).row.hasSlot (mem_inArea.1 hσ).1
    rw [instrSet_of_wide hw, (w.isSlotAccess_storeToSlot hreg σ.index).place] at hplace
    exact (Option.some.inj hplace).symm
  · have hone : (t.pointAtSaved w q).frameIndexAt = some 1 := by cases w <;> rfl
    rw [hone] at hplace
    exact (Option.some.inj hplace).symm

theorem filterMap_stored?_moveStack (v : Int64) :
    (w.moveStackAlways v).filterMap Inst.stored? = [] := by
  rw [List.filterMap_eq_nil_iff]
  intro i hi
  exact Inst.stored?_of_isSum (WideSet.isSum_of_mem_addConstant hi)

theorem filterMap_stored?_savesIn (hw : t.wide? = some w) (hrow : t.IsSavedRow q.frame.saved)
    (a : Area) :
    (t.savesIn q a).filterMap Inst.stored? = (inArea a q.frame.saved).map SavedSlot.reg := by
  rw [savesIn, List.filterMap_map, ← List.filterMap_eq_map]
  apply List.filterMap_congr
  intro σ hσ
  have hreg := hrow.hasSlot (mem_inArea.1 hσ).1
  show (t.instrSet.storeToSlot σ.reg σ.index).stored? = some σ.reg
  rw [instrSet_of_wide hw]
  exact WideSet.stored?_storeToSlot hreg

/-- The prologue stores the saved registers in their order. -/
theorem filterMap_stored?_prologueCode (hw : t.wide? = some w) (hframe : t.HasFrame q) :
    (t.prologueCode w q).filterMap Inst.stored? = q.frame.saved.map SavedSlot.reg := by
  rw [prologueCode, List.filterMap_append, filterMap_stored?_moveStack, List.nil_append]
  split
  · next hstack =>
    have hrow := (hframe.areas hstack).row
    have hpoint : (if t.setsPointer q then [t.pointAtSaved w q] else []).filterMap Inst.stored? =
        [] := by
      split
      · cases w <;> rfl
      · rfl
    simp only [List.filterMap_append, filterMap_stored?_moveStack, hpoint,
      filterMap_stored?_savesIn hw hrow, List.nil_append, List.append_nil]
    conv => rhs; rw [hrow.eq_append]
    rw [List.map_append, List.map_append]
  · next hstack =>
    rw [filterMap_stored?_moveStack, hframe.bare (Bool.eq_false_iff.2 hstack)]
    rfl

/-- Lines that need no help store what they did. -/
theorem filterMap_stored?_number {block : Nat} {ls : List Line} {ps : List Piece}
    (h : List.Forall₂ (t.StaysLine w q block) ls ps)
    (hplace : ∀ l ∈ ls, ∀ place, l.inst.frameIndexAt = some place → place = 1) (n : Nat) :
    (Piece.number n ps).1.filterMap (fun l => l.inst.stored?) =
      ls.filterMap fun l => l.inst.stored? := by
  induction h generalizing n with
  | nil => rfl
  | @cons l _ ls ps hstays _ ih =>
    obtain ⟨i, rfl, hi⟩ := hstays
    have hsame : i.stored? = l.inst.stored? := by
      rcases hi with rfl | ⟨r, hr, rfl⟩
      · rfl
      · obtain ⟨_, _, _, hat, -⟩ := rebase_cases hr
        have hone := hplace l List.mem_cons_self _ hat
        exact stored?_of_rebase hr (hone ▸ hat)
    have hrest := ih (fun m hm => hplace m (List.mem_cons_of_mem _ hm)) n
    show List.filterMap _ (({ l with inst := i } : Line) :: (Piece.number n ps).1) = _
    simp only [List.filterMap_cons, hrest, hsame]

/-- The first lines of a lowered function store the saved registers in their order. -/
theorem Lowers.storedFirst_eq (h : t.Lowers w p q) (hw : t.wide? = some w) (hp : p.IsFresh)
    (hblocks : p.blocks ≠ []) : t.storedFirst q = q.frame.saved.map SavedSlot.reg := by
  obtain ⟨b, bs, hcons⟩ := List.exists_cons_of_ne_nil hblocks
  have hb : p.blocks[0]? = some b := by rw [hcons]; rfl
  obtain ⟨head, body, tail, n, hsplit, -, hblock⟩ := h.isSplit hw hp hb
  have hlength := hsplit.length_head hw h.frame
  obtain ⟨as, has, hwalk⟩ := hsplit.head
  rw [if_pos rfl] at has hlength
  have hstays : List.Forall₂ (t.StaysLine w q 0) as head := by
    apply hwalk.forall₂_staysLine
    · intro l hl
      exact unmarked_of_mem_prologueCode hw h.frame (has.mem hl)
    · intro l hl r hr
      exact rest_of_mem_prologueCode hw h.frame (has.mem hl) hr
  have hlines : (q.lines 0).take (t.prologueLength q) = (Piece.number n head).1 := by
    rw [Procedure.lines, hblock]
    show List.take _ (Piece.number n (head ++ (body ++ tail))).1 = _
    rw [Piece.number_append, ← hlength, ← Piece.length_number n head, List.take_left]
  rw [storedFirst, hlines, filterMap_stored?_number hstays, ← filterMap_stored?_prologueCode hw h.frame,
    ← has.1, List.filterMap_map]
  · rfl
  · intro l hl place hplace
    exact place_of_mem_prologueCode hw h.frame (has.mem hl) hplace

end

/-! ## The base of frame indices -/

/-- A line has `base` in a place, or a register to which the lines right before it have added a
constant to `base`. -/
def IsBasedOn (w : WideSet) (base : Reg) (place : Nat) (before : List Line) (l : Line) : Prop :=
  l.inst.operands[place]? = some (.use base) ∨
    ∃ scratch v c pred done chain, before = done ++ chain ∧ chain ≠ [] ∧
      chain.map Line.inst = w.addConstant scratch base v c pred ∧
      l.inst.operands[place]? = some (.reg scratch false true)

section
variable {t : Target} {w : WideSet} {p q : Procedure} {block place : Nat} {i : Inst} {e : Expansion}
  {spAdj spAdj' : Int64} {r : Rebased} {l : Line} {ls : List Line} {ps : List Piece}

/-- A frame index outside the areas is replaced by the frame register. -/
theorem base_of_rebase (hr : t.rebase w p block i spAdj = .ok r)
    (houtside : ∀ index, .frameIndex index ∈ i.operands → p.layout.area index = .outside) :
    r.base = t.frameRegister p := by
  obtain ⟨index, o, a, -, hindex, -, ha, hbase, -⟩ := rebase_cases hr
  rw [address, houtside index (List.mem_of_getElem? hindex)] at ha
  rw [← hbase, frameRegister]
  simp only [ne_eq, not_true, if_false] at ha
  split at ha
  · next hpointer =>
    obtain rfl := Except.ok.inj ha
    rw [if_pos hpointer]
  · next hpointer =>
    obtain rfl := Except.ok.inj ha
    rw [if_neg hpointer]

/-- What stands for an instruction is based on the frame register. -/
theorem Expands.isBasedOn (h : Expands t w p block i spAdj e)
    (houtside : ∀ index, .frameIndex index ∈ i.operands → p.layout.area index = .outside) :
    ∃ place, i.frameIndexAt = some place ∧ ∀ before l, before.map Line.inst = e.before →
      l.inst = e.inst → IsBasedOn w (t.frameRegister p) place before l := by
  have hplace {r : Rebased} (hr : t.rebase w p block i spAdj = .ok r) :
      i.frameIndexAt = some r.place := by
    obtain ⟨_, _, _, hat, -⟩ := rebase_cases hr
    exact hat
  -- lines before an instruction that end in the chain of sums
  have hchain {r : Rebased} {scratch : Reg} {js : List Inst} {before : List Line} {l : Line}
      (hr : t.rebase w p block i spAdj = .ok r) (hrest : r.rest ≠ 0)
      (hbefore : before.map Line.inst = js ++ r.chain w scratch)
      (hl : l.inst = r.through scratch) : IsBasedOn w (t.frameRegister p) r.place before l := by
    obtain ⟨done, chain, rfl, -, hsums⟩ := List.map_eq_append_iff.1 hbefore
    refine .inr ⟨scratch, r.rest, r.inst.predicate.1, r.inst.predicate.2, done, chain, rfl, ?_, ?_, ?_⟩
    · rintro rfl
      exact chain_ne_nil hr hrest hsums.symm
    · rw [hsums, ← base_of_rebase hr houtside]
      rfl
    · rw [hl]
      exact operand_of_through hr
  cases h with
  | direct h =>
    cases h with
    | @alone r hr hrest =>
      refine ⟨r.place, hplace hr, ?_⟩
      intro before l _ hl
      left
      rw [hl, ← base_of_rebase hr houtside]
      exact operand_of_rebase hr
    | @through r _ hr hrest =>
      refine ⟨r.place, hplace hr, ?_⟩
      intro before l hbefore hl
      exact hchain hr hrest (hbefore.trans (List.nil_append _).symm) hl
  | @borrowed r _ spill _ hr hrest =>
    refine ⟨r.place, hplace hr, ?_⟩
    intro before l hbefore hl
    rw [← List.singleton_append, ← List.append_assoc] at hbefore
    exact hchain hr hrest hbefore hl

/-- Where the expansion of a line is among the pieces of a walk. -/
theorem Walks.exists_expands (h : Walks t w p block spAdj ls spAdj' ps) (hl : l ∈ ls)
    (hmarker : l.inst.op.isMarker = false) (hindex : l.inst.frameIndexAt ≠ none) :
    ∃ spAdj e qs rs, Expands t w p block l.inst spAdj e ∧ ps = qs ++ (e.pieces l ++ rs) := by
  induction h with
  | nil => exact absurd hl List.not_mem_nil
  | marker hop _ _ ih =>
    rcases List.mem_cons.1 hl with rfl | hl
    · exact absurd hop (Bool.eq_false_iff.1 hmarker)
    · obtain ⟨s, e, qs, rs, he, rfl⟩ := ih hl
      exact ⟨s, e, _, rs, he, (List.append_assoc _ _ _).symm⟩
  | plain _ hplace _ ih =>
    rcases List.mem_cons.1 hl with rfl | hl
    · exact absurd hplace hindex
    · obtain ⟨s, e, qs, rs, he, rfl⟩ := ih hl
      exact ⟨s, e, _ :: qs, rs, he, rfl⟩
  | @expand s _ _ _ e ps _ he _ ih =>
    rcases List.mem_cons.1 hl with rfl | hl
    · exact ⟨s, e, [], ps, he, rfl⟩
    · obtain ⟨s, e, qs, rs, he, rfl⟩ := ih hl
      exact ⟨s, e, _, rs, he, (List.append_assoc _ _ _).symm⟩

/-- The lines that stand for one. -/
theorem exists_lines_of_pieces (n : Nat) (qs rs : List Piece) (e : Expansion) (l : Line) :
    ∃ front before after, (Piece.number n (qs ++ (e.pieces l ++ rs))).1 =
      front ++ before ++ { l with inst := e.inst } :: after ∧ before.map Line.inst = e.before := by
  rw [Expansion.pieces, List.append_assoc, List.cons_append, Piece.number_append,
    Piece.number_append]
  exact ⟨_, _, _, (List.append_assoc _ _ _).symm, Piece.map_inst_number_fresh _ _⟩

/-- Every frame index of the function was replaced by the frame register. -/
theorem Lowers.isBasedOn (h : t.Lowers w p q) (hp : p.IsFresh) (hverify : q.verify = .ok ())
    {k : Nat} {index : Int64} (hl : l ∈ p.lines k) (hmarker : l.inst.op.isMarker = false)
    (hindex : l.inst.operands[place]? = some (.frameIndex index)) :
    ∃ before m after, q.lines k = before ++ m :: after ∧ m.label = l.label ∧
      IsBasedOn w (t.frameRegister q) place before m := by
  rw [Procedure.lines] at hl
  split at hl
  · next b hb =>
    obtain ⟨as, es, n, spAdj, ps, -, -, -, hwalk, hblock⟩ := h.block k b hb
    have hin : l ∈ as ++ b.body ++ es ++ b.exit := by
      rw [← b.body_append_exit] at hl
      rcases List.mem_append.1 hl with hl | hl
      · exact List.mem_append_left _ (List.mem_append_left _ (List.mem_append_right _ hl))
      · exact List.mem_append_right _ hl
    have hsome : l.inst.frameIndexAt ≠ none := by
      intro hnone
      exact List.findIdx?_eq_none_iff.1 hnone _ (List.mem_of_getElem? hindex) |> Bool.noConfusion
    obtain ⟨s, e, qs, rs, he, rfl⟩ := hwalk.exists_expands hin hmarker hsome
    obtain ⟨front, before, after, hlines, hbefore⟩ := exists_lines_of_pieces n qs rs e l
    have hq : q.lines k = front ++ before ++ { l with inst := e.inst } :: after := by
      rw [Procedure.lines, hblock]
      exact hlines
    -- what was verified has no other frame index
    have hclean : e.inst.indexCount = 0 := by
      have hmem : ({ l with inst := e.inst } : Line) ∈ (Piece.number n (qs ++ (e.pieces l ++ rs))).1 := by
        rw [hlines]
        exact List.mem_append_right _ List.mem_cons_self
      exact Inst.indexCount_of_leftover? (Procedure.verify_eq_ok_iff.1 hverify k _ hblock _ hmem)
    have hone : l.inst.indexCount = 1 := by
      rw [← he.indexCount.1, hclean]
    obtain ⟨at', hat, hbased⟩ := he.isBasedOn fun index hindex => by
      obtain ⟨o, ho⟩ := hp.indices b (List.mem_of_getElem? hb) l hl index hindex
      exact h.outside index o ho
    obtain ⟨index', hindex'⟩ := Inst.frameIndexAt_facts hat
    obtain rfl := Inst.place_of_indexCount hone hindex' hindex
    refine ⟨front ++ before, _, after, hq, rfl, ?_⟩
    rcases hbased before { l with inst := e.inst } hbefore rfl with hdirect | hthrough
    · exact .inl hdirect
    · obtain ⟨scratch, v, c, pred, done, chain, rfl, hne, hsums, hoperand⟩ := hthrough
      exact .inr ⟨scratch, v, c, pred, front ++ done, chain, (List.append_assoc _ _ _).symm, hne, hsums,
        hoperand⟩
  · exact absurd hl List.not_mem_nil

end

/-! ## The record of a lowered function -/

/-- A function that was lowered, and has a name that fits, has a record that tells the truth. It
lists the callee-saved registers that are spilled, which are those that the prologue stores, in
the same order. As long as the frame stands, their values on entry are found at the offsets that
it gives. Every frame index of the function was replaced by the register that it names, or by one
to which a constant was added to it. -/
theorem record_of_lower {t : Target} {p : Procedure} (hp : p.IsFresh)
    (hsizes : ∀ o ∈ p.frame.objects, Frame.isShape o.size o.align ∧ o.size.toInt < 2 ^ 31)
    (hname : 0 < (Text.Utf8.encode p.name).length ∧ (Text.Utf8.encode p.name).length ≤ 255)
    (hok : (t.lower p).failure = none)
    (hrange : ∀ j o, (t.lower p).proc.frame.object? j = some o → -2 ^ 31 < o.offset.toInt) :
    ∃ rec, Record.ofProcedure t (t.lower p).proc = .ok rec ∧
      rec.saved.map (fun s => Reg.ofDwarf s.dwarf) = t.storedFirst (t.lower p).proc ∧
      t.storedFirst (t.lower p).proc = (t.spilledSaved (t.lower p).proc).map CalleeSaved.reg ∧
      (∀ entry c, Reaches (t.lower p).proc (t.LeavesSaved p (t.lower p).proc entry) entry c →
        t.IsBodyPoint p (t.lower p).proc c.block c.rest → ∀ s ∈ rec.saved,
          c.state.mem.loadWords (entry.sp + s.offset.toBitVec) (Reg.ofDwarf s.dwarf).cells.length =
            entry.value (Reg.ofDwarf s.dwarf)) ∧
      ∃ w, t.wide? = some w ∧ ∀ k l place index, l ∈ p.lines k → l.inst.op.isMarker = false →
        l.inst.operands[place]? = some (.frameIndex index) →
        ∃ before m after, (t.lower p).proc.lines k = before ++ m :: after ∧ m.label = l.label ∧
          IsBasedOn w (Reg.ofDwarf rec.frameReg) place before m := by
  obtain ⟨-, hblocks, hverify, -⟩ := lower_cases hok
  obtain ⟨w, hw, hlowers⟩ := lowers_of_isFresh hp hok
  have hmoderate : ∀ o ∈ p.frame.objects, o.IsModerate := by
    intro o ho
    obtain ⟨hshape, hsize⟩ := hsizes o ho
    exact FrameObject.isModerate_of_isShape hshape hsize
  have hslots := hlowers.slots hmoderate hrange
  generalize (t.lower p).proc = q at hlowers hverify hslots ⊢
  rw [← hlowers.name] at hname
  obtain ⟨base, hbase⟩ := t.exists_dwarf_frameRegister q
  obtain ⟨saved, hsaved, hdescribes⟩ := exists_mapM_ok fun σ hσ => hlowers.frame.exists_savedReg hσ
  have hfew : saved.length ≤ Record.maxSaved := by
    have hle := hlowers.frame.length_saved_le
    rw [hdescribes.length_eq] at hle
    exact hle.trans (by decide)
  obtain ⟨rec, hrec, hreg, rfl⟩ := Record.exists_ofProcedure hname hbase hsaved hfew
  have hstored := hlowers.storedFirst_eq hw hp hblocks
  refine ⟨rec, hrec, ?_, hstored.trans hlowers.order, ?_, w, hw, ?_⟩
  · rw [hstored]
    exact Procedure.map_reg_of_describes hdescribes
  · intro entry c hreach hbody s hs
    have hchained := hlowers.chained_of_reaches hw hp hblocks (hslots entry) hreach hbody
    obtain ⟨σ, hσ, hdwarf, o, ho, haddress⟩ :=
      Procedure.exists_slot_of_describes hdescribes hs
    rw [hdwarf, haddress entry]
    exact hchained.saved σ hσ o ho
  · intro k l place index hl hmarker hindex
    rw [hreg, Reg.ofDwarf_of_dwarf hbase]
    exact hlowers.isBasedOn hp hverify hl hmarker hindex

/-- The record is still right when the registers that it lists have new values. -/
theorem record_of_lower_savesTwo :
    ∃ rec rest s, Record.ofProcedure plainDefault (plainDefault.lower savesTwo).proc = .ok rec ∧
      rec.saved = [⟨14, -4⟩, ⟨11, -8⟩, ⟨5, -12⟩, ⟨4, -16⟩] ∧
      rec.saved.map (fun s => Reg.ofDwarf s.dwarf) =
        plainDefault.storedFirst (plainDefault.lower savesTwo).proc ∧
      Reaches (plainDefault.lower savesTwo).proc
        (plainDefault.LeavesSaved savesTwo (plainDefault.lower savesTwo).proc counted) counted
        ⟨0, rest, s⟩ ∧
      plainDefault.IsBodyPoint savesTwo (plainDefault.lower savesTwo).proc 0 rest ∧
      (∀ x ∈ rec.saved,
        s.mem.loadWords (counted.sp + x.offset.toBitVec) (Reg.ofDwarf x.dwarf).cells.length =
          counted.value (Reg.ofDwarf x.dwarf)) ∧
      ∃ before m after, (plainDefault.lower savesTwo).proc.lines 0 = before ++ m :: after ∧
        m.label = 1 ∧ IsBasedOn .arm (Reg.ofDwarf rec.frameReg) 1 before m := by
  have hok : (plainDefault.lower savesTwo).failure = none := by decide +kernel
  have hpasses : ∀ l ∈ ((plainDefault.lower savesTwo).proc.lines 0).take 9,
      plainDefault.Passes savesTwo l := by
    decide +kernel
  have hrange : ∀ o ∈ (plainDefault.lower savesTwo).proc.frame.objects ++
      (plainDefault.lower savesTwo).proc.frame.fixed, -2 ^ 31 < o.offset.toInt := by
    decide +kernel
  have hbody : plainDefault.IsBodyPoint savesTwo (plainDefault.lower savesTwo).proc 0
      (((plainDefault.lower savesTwo).proc.lines 0).drop 9) :=
    ⟨fun _ => by decide +kernel, fun _ _ _ => by decide +kernel⟩
  have hlist : (Record.ofProcedure plainDefault (plainDefault.lower savesTwo).proc).toOption.map
      Record.saved = some [⟨14, -4⟩, ⟨11, -8⟩, ⟨5, -12⟩, ⟨4, -16⟩] := by
    decide +kernel
  have hreach := leavesSaved_of_take counted 9 hpasses rfl
  generalize runLines _ _ = s at hreach
  generalize List.drop 9 _ = rest at hreach hbody
  obtain ⟨rec, hrec, hstored, -, hsaved, w, hw, hbased⟩ := record_of_lower (by decide +kernel)
    (by decide +kernel) (by decide +kernel) hok
    fun j o ho => hrange o (List.mem_append.2 (Frame.mem_of_object? ho))
  obtain rfl : WideSet.arm = w := Option.some.inj hw
  rw [hrec] at hlist
  refine ⟨rec, rest, s, hrec, Option.some.inj hlist, hstored, hreach, hbody, ?_, ?_⟩
  · exact hsaved counted ⟨0, rest, s⟩ hreach hbody
  · exact hbased 0 ⟨1, .make .addri [.use (.core 5), .frameIndex 0, .imm 0, .cond .al, .use .noreg]⟩ 1 0
      (by decide) rfl rfl

end Target

end FrameLowering
