import FrameLowering.Proofs.FrameParts
import FrameLowering.Proofs.Leftovers

/-!
# How far down a call is

The distance from the stack pointer on entry to the one at a call. A run that comes to the entry
block again allocates the frame again, so the distance counts the frame once for each time that
the prologue has run, and on top of that the call frames that are open (`sp_of_reachesBy`). Nothing
is asked of the function but that its markers are balanced in each block and not predicated, and
of its lines but that they leave the stack pointer alone.
-/

namespace FrameLowering

open ImmediateField (word)

theorem ImmediateField.word_eq_ofInt (v : Int64) : word v = BitVec.ofInt 32 v.toInt := by
  rw [word, ← BitVec.signExtend_eq_setWidth_of_le _ (by decide), ← Int64.toInt_toBitVec]
  rfl

/-- Steps in which the lines of `p` leave the stack pointer alone, and that do not go past a
return at the end of a block. -/
def Procedure.KeepsStack (p : Procedure) (l : Line) (s s' : State) : Prop :=
  ¬ p.IsExit l ∧ (l.label < p.fresh → s'.sp = s.sp)

namespace Target

/-! ## One block -/

section
variable {t : Target} {w : WideSet} {p q : Procedure} {k first n : Nat}
  {v spAdj spAdj' : Int64}
  {b : Block} {ls front mid back : List Line} {ps : List Piece} {s : State} {l : Line}
  {allowed : Line → State → State → Prop}

/-- Where there was no call before the walk, there is none after it. -/
theorem Walks.isCall_eq_false (h : Walks t w q k spAdj ls spAdj' ps) (hw : t.wide? = some w)
    (hls : ∀ m ∈ ls, m.inst.info.flags.isCall = false) (hl : l ∈ (Piece.number n ps).1) :
    l.inst.info.flags.isCall = false := by
  have hinst : l.inst ∈ ps.map Piece.inst := by
    rw [← Piece.map_inst_number n]
    exact List.mem_map_of_mem hl
  obtain ⟨x, hx, heq⟩ := List.mem_map.1 hinst
  rw [← Bool.not_eq_true]
  intro hcall
  obtain ⟨m, hm, rfl⟩ := h.mem_of_isCall hw hx (heq ▸ hcall)
  have hquiet : l.inst.info.flags.isCall = false := heq ▸ hls m hm
  rw [hquiet] at hcall
  cases hcall

/-- At the first of the lines that are left, if it is a call, the stack pointer is below `base` by
the call frames that are open after those of the lines `ls` that come before it. -/
def MeetsCall (t : Target) (q : Procedure) (base : Word) (ls : List Line) (r : List Line)
    (s : State) : Prop :=
  ∀ l ∈ r.head?, l.inst.info.flags.isCall → ∃ xs ys, ls = xs ++ l :: ys ∧
    s.sp = base - word (t.openFrame q xs)

theorem meetsCall_of_quiet {base : Word} {r zs : List Line}
    (h : ∀ l ∈ zs, l.inst.info.flags.isCall = false) (hne : r ≠ []) (hr : r <:+ zs) (s : State)
    (more : List Line) : t.MeetsCall q base ls (r ++ more) s := by
  cases r with
  | nil => exact absurd rfl hne
  | cons m r =>
    intro l hl hcall
    obtain rfl : m = l := Option.some.inj hl
    rw [h m (hr.subset List.mem_cons_self)] at hcall
    cases hcall

/-- The end of a block: nothing is left, or an epilogue that no run goes past. -/
theorem throughout_of_back {base : Word} {post : State → Prop}
    (hback : back = [] ∨ ∃ quiet l, back = quiet ++ [l] ∧ l ∈ b.exit ∧ ∀ m ∈ quiet, m.inst.IsQuiet)
    (h : Walks t w q k spAdj back spAdj' ps) (hw : t.wide? = some w)
    (hstop : ∀ l ∈ b.exit, ∀ s s', ¬ allowed l s s') (hs : back = [] → post s) :
    Throughout allowed (t.MeetsCall q base ls) post (Piece.number n ps).1 s := by
  rcases hback with rfl | ⟨quiet, l, rfl, hexit, hquiet⟩
  · cases h
    exact hs rfl
  have hreturn : l.inst.isReturn := Block.isReturn_of_mem_exit hexit
  have hcalls : ∀ m ∈ quiet ++ [l], m.inst.info.flags.isCall = false := by
    intro m hm
    rcases List.mem_append.1 hm with hm | hm
    · exact (hquiet m hm).2
    · obtain rfl := List.mem_singleton.1 hm
      revert hreturn
      show m.inst.op.info.flags.isReturn = true → m.inst.op.info.flags.isCall = false
      cases m.inst.op <;> decide
  have hnone : ∀ m ∈ (Piece.number n ps).1, m.inst.info.flags.isCall = false :=
    fun m hm => h.isCall_eq_false hw hcalls hm
  -- the return is the last line after the walk, too
  obtain ⟨_, qs, rs, -, hlast, rfl⟩ := h.append_inv
  obtain rfl : rs = [.line l] := by
    cases hlast with
    | marker hop =>
      rw [isMarker_of_isReturn hreturn] at hop
      cases hop
    | expand _ he =>
      rw [he.isReturn] at hreturn
      cases hreturn
    | plain _ _ hnil =>
      cases hnil
      rfl
  have hlines : (Piece.number n (qs ++ [.line l])).1 = (Piece.number n qs).1 ++ [l] := by
    rw [Piece.number_append]
    rfl
  rw [hlines] at hnone ⊢
  have hmeets (r : List Line) (s : State) (hne : r ≠ []) (hr : r <:+ (Piece.number n qs).1 ++ [l]) :
      t.MeetsCall q base ls r s := by
    rw [← List.append_nil r]
    exact meetsCall_of_quiet hnone hne hr s []
  apply throughout_of_stop
  · exact hmeets _ s (by simp) (List.suffix_refl _)
  · intro r s' hne hr _
    exact hmeets r s' hne hr
  · exact hstop l hexit

/-- A block in its parts. -/
theorem throughout_of_parts (hparts : IsParted w first v b front mid back)
    (h : Walks t w q k 0 (front ++ mid ++ back) spAdj ps) (hw : t.wide? = some w)
    (hmarkers : ∀ l ∈ mid, l.inst.op.isMarker → l.inst.predicate.1 = Cond.al)
    (hallowed : ∀ l s s', l.label < first → allowed l s s' → s'.sp = s.sp)
    (hstop : ∀ l ∈ b.exit, ∀ s s', ¬ allowed l s s') :
    Throughout allowed (t.MeetsCall q (s.sp - word v) (front ++ mid ++ back))
      (fun s' => s'.sp = s.sp - word v - word (t.openFrame q (front ++ mid ++ back)))
      (Piece.number n ps).1 s := by
  rw [List.append_assoc] at h
  obtain ⟨a, head, rest, hhead, hrest, rfl⟩ := h.append_inv
  obtain ⟨a', body, tail, hbody, htail, rfl⟩ := hrest.append_inv
  have hunmarked : ∀ l ∈ front, l.inst.op.isMarker = false :=
    fun l hl => (hparts.front.storesOrAdds hl).facts.1
  have hfront : t.openFrame q front = 0 := openFrame_of_unmarked hunmarked
  rw [Piece.number_append, Piece.number_append]
  generalize (Piece.number n head).2 = n₁
  generalize (Piece.number n₁ body).2 = n₂
  apply Throughout.append
  -- the front makes no calls, and leads down
  refine (piecewise_of_sinks hparts.front hhead hw hallowed n).mono ?_ ?_
  · intro r s' hne hr _
    refine meetsCall_of_quiet ?_ hne hr s' _
    intro l hl
    exact hhead.isCall_eq_false hw (fun m hm => (hparts.front.storesOrAdds hm).facts.2.1) hl
  intro s₁ hs₁
  apply Throughout.append
  have hzero : s₁.sp = s.sp - word v - word (t.openFrame q []) := by
    rw [openFrame_of_unmarked fun l hl => absurd hl List.not_mem_nil, ImmediateField.word_zero, hs₁]
    bv_omega
  refine (piecewise_of_steady [] hbody hw (fun l hl => ⟨hparts.mid l hl, hmarkers l hl⟩) hallowed
    hzero n₁).mono ?_ ?_
  · intro r s' hne _ hr
    cases r with
    | nil => exact absurd rfl hne
    | cons m r =>
      intro l hl hcall
      obtain ⟨xs, ys, hsplit, hsp⟩ := hr l hl hcall
      rw [List.nil_append] at hsplit
      refine ⟨front ++ xs, ys ++ back, ?_, ?_⟩
      · rw [hsplit]
        simp only [List.append_assoc, List.cons_append]
      · rw [openFrame_append, hfront, Int64.zero_add, hsp]
  · intro s₂ hs₂
    refine throughout_of_back hparts.back htail hw hstop ?_
    rintro rfl
    rw [List.append_nil, openFrame_append, hfront, Int64.zero_add]
    exact hs₂

end

/-! ## Runs -/

section
variable {t : Target} {p c g q : Procedure} {l : Line} {next : List Line}

theorem fresh_planned (t : Target) (p : Procedure) : (t.planned p).fresh = p.fresh := by
  obtain ⟨regs, layout, frame, hchosen, -⟩ :=
    t.finalizeSpillSet_shape t.config.scavenging (t.decidePointer p.markUsed)
  rw [planned, hchosen]
  rfl

/-- A prologue takes the stack pointer down by the whole frame. -/
theorem prologueSize_of_computeLayout (h : t.computeLayout p = .ok () q) :
    prologueSize q = p.frame.varArgsSaveSize + p.frame.stackSize := by
  obtain ⟨hbare, rfl⟩ | ⟨-, l, -, -, h⟩ := of_computeLayout h
  · rw [prologueSize, if_neg (by simp [hbare])]
  -- the areas and what is below them make up the frame
  have hsum (l : Layout) (size : Int64) : (l.stackAreas size).gpr1Size +
      (l.stackAreas size).gpr2Size + (l.stackAreas size).dprSize +
      (l.stackAreas size).dprOffset = size := by
    show l.gpr1Size + l.gpr2Size + l.dprSize + (size - (l.gpr1Size + l.gpr2Size + l.dprSize)) = size
    grind
  obtain ⟨-, o, -, rfl⟩ | ⟨-, rfl⟩ := locatePointer_cases h
  all_goals
    simp only [prologueSize]
    rw [hsum, ite_self]

/-- What was decided about a frame leaves the rest of it as it was. -/
theorem frame_planned (t : Target) (p : Procedure) :
    ∃ objects fixed stackSize saved scavengingIndex, (t.planned p).frame = { p.markUsed.frame with
      objects, fixed, stackSize, saved, scavengingIndex } := by
  obtain ⟨regs, layout, frame, hchosen, hframe⟩ :=
    t.finalizeSpillSet_shape t.config.scavenging (t.decidePointer p.markUsed)
  rw [planned, hchosen]
  obtain ⟨objects, fixed, stackSize, hplaced⟩ :=
    t.placeFrame_frame (t.assignSlots { t.decidePointer p.markUsed with regs, layout, frame })
  rw [hplaced]
  rcases hframe with rfl | rfl
  · exact ⟨_, _, _, _, _, rfl⟩
  · exact ⟨_, _, _, _, _, rfl⟩

end

section
variable {t : Target} {w : WideSet} {p q : Procedure} {k : Nat} {b : Block} {base : Word}
  {saved : List SavedSlot} {index : Int64} {xs ys r : List Line} {l : Line} {next : List Line}
  {entry s : State}

/-- The code of a frame has no markers. -/
theorem openFrame_of_grows {n : Nat} (h : Line.Grows (t.Emits w saved index) n xs ys)
    (hw : t.wide? = some w) : t.openFrame q ys = t.openFrame q xs := by
  have hmarker (l : Line) (hl : t.Emits w saved index l.inst) :
      l.inst.info.flags.isSetup = false ∧ l.inst.info.flags.isDestroy = false :=
    Bool.or_eq_false_iff.1 (hl.facts hw).1.1
  rw [openFrame, openFrame, setupSizes, setupSizes, destroySizes, destroySizes,
    h.filter_eq _ fun l hl _ => (hmarker l hl).1, h.filter_eq _ fun l hl _ => (hmarker l hl).2]

/-- Calls are old lines. -/
theorem MeetsCall.of_grows {n : Nat} (h : t.MeetsCall q base ys r s)
    (hgrown : Line.Grows (t.Emits w saved index) n xs ys) (hw : t.wide? = some w) :
    t.MeetsCall q base xs r s := by
  intro l hl hcall
  obtain ⟨us, vs, rfl, hsp⟩ := h l hl hcall
  have hold : ¬ t.Emits w saved index l.inst := by
    intro hnew
    rw [(hnew.facts hw).1.2] at hcall
    cases hcall
  obtain ⟨us', vs', rfl, hus, -⟩ := hgrown.split hold
  exact ⟨us', vs', rfl, by rw [hsp, openFrame_of_grows hus hw]⟩

/-- Bytes that a function takes from the stack once. -/
def frameBytes (q : Procedure) : Int :=
  q.frame.varArgsSaveSize.toInt + q.frame.stackSize.toInt

theorem length_of_lower (hok : (t.lower p).failure = none) :
    (t.lower p).proc.blocks.length = p.blocks.length := by
  obtain ⟨hthumb, -, -, g, hlayout, hinsert⟩ := lower_cases hok
  obtain ⟨w, hw⟩ := exists_wide hthumb
  obtain ⟨m, hgrown, -, hwalks⟩ :=
    exists_grows_of_insertFrame (c := t.planned p) hw hlayout hinsert
  rw [hwalks.length, hgrown.length, blocks_planned]

/-- The frame of a lowered function is the one that was planned, but for the adjustment of offsets
in debug information. -/
theorem frame_of_lower (hok : (t.lower p).failure = none) : ∃ offsetAdjustment,
    (t.lower p).proc.frame = { (t.planned p).frame with offsetAdjustment } := by
  obtain ⟨hthumb, -, -, g, hlayout, hinsert⟩ := lower_cases hok
  generalize (t.lower p).proc = q at hinsert ⊢
  obtain ⟨w, hw⟩ := exists_wide hthumb
  obtain ⟨m, -, ⟨blocks, fresh, offsetAdjustment, rfl⟩, hwalks⟩ :=
    exists_grows_of_insertFrame (c := t.planned p) hw hlayout hinsert
  obtain ⟨blocks', fresh', rfl⟩ := hwalks.shape
  exact ⟨offsetAdjustment, rfl⟩

theorem frameBytes_of_lower (hok : (t.lower p).failure = none) :
    frameBytes (t.lower p).proc =
      p.frame.varArgsSaveSize.toInt + (t.planned p).frame.stackSize.toInt := by
  obtain ⟨offsetAdjustment, hlowered⟩ := frame_of_lower hok
  obtain ⟨_, _, _, _, _, hframe⟩ := t.frame_planned p
  rw [frameBytes, hlowered, hframe]
  rfl

/-- Where the stack pointer is while no call frame is open, after a run through some blocks: below
that of the entry by the frame, once for each time that the prologue has run. -/
def baseAfter (q : Procedure) (entry : State) (path : List Nat) : Word :=
  entry.sp - BitVec.ofInt 32 (path.count 0 * frameBytes q)

theorem baseAfter_nil (q : Procedure) (entry : State) : baseAfter q entry [] = entry.sp := by
  rw [baseAfter, List.count_nil, Nat.cast_zero, zero_mul]
  exact BitVec.sub_zero _

/-- The prologue runs in the entry block. -/
theorem baseAfter_cons (q : Procedure) (entry : State) (k : Nat) (path : List Nat) :
    baseAfter q entry (k :: path) =
      baseAfter q entry path - BitVec.ofInt 32 (if k = 0 then frameBytes q else 0) := by
  simp only [baseAfter, List.count_cons, beq_iff_eq]
  split
  · rw [Nat.cast_succ, add_mul, one_mul, BitVec.ofInt_add]
    bv_omega
  · exact (BitVec.sub_zero _).symm

section
variable (hok : (t.lower p).failure = none)
  (hold : ∀ b ∈ p.blocks, ∀ l ∈ b.lines, l.label < p.fresh)
  (hmarkers : ∀ b ∈ p.blocks, ∀ l ∈ b.lines, l.inst.op.isMarker → l.inst.predicate.1 = Cond.al)
  (hbalanced : ∀ b ∈ p.blocks, (setupSizes b.lines).Perm (destroySizes b.lines))
  {d : Block} {path : List Nat} {c : Point}

include hok hold hmarkers hbalanced

/-- What one block of a lowered function does to the stack pointer. -/
theorem throughout_of_lower (hd : (t.lower p).proc.blocks[k]? = some d) :
    (∃ b ∈ p.blocks, d.successors = b.successors) ∧ ∀ s,
      let base := s.sp - BitVec.ofInt 32 (if k = 0 then frameBytes (t.lower p).proc else 0)
      Throughout p.KeepsStack (t.MeetsCall (t.lower p).proc base (p.lines k))
        (fun s' => s'.sp = base) d.lines s := by
  obtain ⟨b, hb⟩ : ∃ b, p.blocks[k]? = some b := by
    have hlt := (List.getElem?_eq_some_iff.1 hd).1
    rw [length_of_lower hok] at hlt
    exact ⟨_, List.getElem?_eq_getElem hlt⟩
  obtain ⟨hthumb, -, -, g, hlayout, hinsert⟩ := lower_cases hok
  generalize (t.lower p).proc = q at hinsert hd ⊢
  obtain ⟨w, hw⟩ := exists_wide hthumb
  change t.computeLayout (t.insertSpillCode (t.planned p)) = .ok () g at hlayout
  have hblocks := t.blocks_planned p
  have hfresh := t.fresh_planned p
  have hrow : t.IsSavedRow (t.planned p).frame.saved := by
    rw [saved_planned]
    exact isSavedRow_savedSlots
  have hplaced : (t.insertSpillCode (t.planned p)).frame = (t.planned p).frame := by
    obtain ⟨-, blocks, fresh, hspill⟩ := grows_insertSpillCode (t := t) w (t.planned p) 0
    rw [hspill]
  have hsize := prologueSize_of_computeLayout hlayout
  rw [hplaced] at hsize
  obtain ⟨m, hgrown, ⟨blocks, fresh, offsetAdjustment, rfl⟩, hwalks, hparts⟩ :=
    exists_parts_of_insertFrame (c := t.planned p) hw hrow (by rwa [hblocks, hfresh]) hlayout hinsert
  obtain ⟨blocks', fresh', rfl⟩ := hwalks.shape
  rw [hfresh, hblocks] at hparts
  obtain ⟨front, mid, back, hparted, hblock⟩ := hparts k b hb
  obtain ⟨n, spAdj, ps, -, hwalk, hlowered⟩ :=
    hwalks.walks k (List.mem_range.2 (List.getElem?_eq_some_iff.1 hblock).1) _ hblock
  obtain rfl := Option.some.inj (hlowered.symm.trans hd)
  have hmem := List.mem_of_getElem? hb
  refine ⟨⟨b, hmem, rfl⟩, fun s => ?_⟩
  have hsource : p.lines k = b.lines := by rw [Procedure.lines, hb]
  rw [hsource]
  have hlines : Line.Grows (t.Emits w (t.planned p).frame.saved g.layout.fpSpillIndex)
      (t.planned p).fresh b.lines (front ++ mid ++ back) := by
    have hall := hgrown.lines k
    rw [Procedure.lines, Procedure.lines, hblocks, hb, hblock] at hall
    exact hall
  -- markers are old lines
  have halways : ∀ l ∈ mid, l.inst.op.isMarker → l.inst.predicate.1 = Cond.al := by
    intro l hl hop
    have hin : l ∈ front ++ mid ++ back :=
      List.mem_append_left _ (List.mem_append_right _ hl)
    rcases hlines.mem_cases hin with hin | hnew
    · exact hmarkers b hmem l hin hop
    · rw [(hnew.facts hw).1.1] at hop
      cases hop
  have hstop : ∀ l ∈ b.exit, ∀ s s', ¬ p.KeepsStack l s s' :=
    fun l hl s s' hkeeps => hkeeps.1 ⟨b, hmem, hl⟩
  have hrun := throughout_of_parts (n := n) (s := s) hparted hwalk hw halways
    (fun l s s' hlabel hkeeps => hkeeps.2 hlabel) hstop
  have hbytes : word (if k = 0 then prologueSize g else 0) =
      BitVec.ofInt 32 (if k = 0 then frameBytes (t.planned p) else 0) := by
    split
    · rw [hsize, ImmediateField.word_add, ImmediateField.word_eq_ofInt,
        ImmediateField.word_eq_ofInt, ← BitVec.ofInt_add]
      rfl
    · rfl
  rw [hbytes] at hrun
  refine hrun.mono ?_ ?_
  · intro r s' _ _ hmeets
    exact hmeets.of_grows hlines hw
  · intro s' hs'
    rw [openFrame_of_grows hlines hw, openFrame_of_balanced (hbalanced b hmem),
      ImmediateField.word_zero] at hs'
    exact hs'.trans (BitVec.sub_zero _)

/-- A block that a run goes into after some others. -/
theorem throughout_of_baseAfter (hd : (t.lower p).proc.blocks[k]? = some d)
    (hs : s.sp = baseAfter (t.lower p).proc entry path) :
    Throughout p.KeepsStack
      (t.MeetsCall (t.lower p).proc (baseAfter (t.lower p).proc entry (k :: path)) (p.lines k))
      (fun s => s.sp = baseAfter (t.lower p).proc entry (k :: path)) d.lines s := by
  rw [baseAfter_cons, ← hs]
  exact (throughout_of_lower hok hold hmarkers hbalanced hd).2 s

/-- What holds throughout every run. -/
theorem meetsCall_of_reachesBy (hreach : ReachesBy (t.lower p).proc p.KeepsStack entry path c) :
    Throughout p.KeepsStack
      (t.MeetsCall (t.lower p).proc (baseAfter (t.lower p).proc entry path) (p.lines c.block))
      (fun s => s.sp = baseAfter (t.lower p).proc entry path) c.rest c.state := by
  refine throughout_of_reachesBy (fun path k => t.MeetsCall (t.lower p).proc
    (baseAfter (t.lower p).proc entry path) (p.lines k))
    (fun path _ s => s.sp = baseAfter (t.lower p).proc entry path) ?_ ?_ hreach
  · -- the first run of the prologue
    obtain ⟨-, hblocks, -⟩ := lower_cases hok
    have hlt : 0 < (t.lower p).proc.blocks.length := by
      rw [length_of_lower hok]
      exact List.length_pos_of_ne_nil hblocks
    obtain ⟨d, hd⟩ : ∃ d, (t.lower p).proc.blocks[0]? = some d := ⟨_, List.getElem?_eq_getElem hlt⟩
    have hlines : (t.lower p).proc.lines 0 = d.lines := by rw [Procedure.lines, hd]
    rw [hlines]
    exact throughout_of_baseAfter hok hold hmarkers hbalanced hd (baseAfter_nil _ entry).symm
  · intro path _ _ k d s _ hs _ hd
    exact throughout_of_baseAfter hok hold hmarkers hbalanced hd hs

/-- The prologue runs once if no block leads to the entry. -/
theorem count_eq_one_of_lower (hreach : ReachesBy (t.lower p).proc p.KeepsStack entry path c)
    (hnobody : ∀ b ∈ p.blocks, 0 ∉ b.successors) : path.count 0 = 1 := by
  refine hreach.count_eq_one fun d hmem => ?_
  obtain ⟨k, hd⟩ := List.getElem?_of_mem hmem
  obtain ⟨⟨b, hb, hsame⟩, -⟩ := throughout_of_lower hok hold hmarkers hbalanced hd
  rw [hsame]
  exact hnobody b hb

/-- At every call that a run reaches, the stack pointer is below that of the entry by the frame,
once for each time that the prologue has run, and by the call frames that are open there. -/
theorem sp_of_reachesBy (hreach : ReachesBy (t.lower p).proc p.KeepsStack entry path c)
    (hrest : c.rest = l :: next) (hcall : l.inst.info.flags.isCall) :
    ∃ before after, p.lines c.block = before ++ l :: after ∧
      entry.sp - c.state.sp = BitVec.ofInt 32 (path.count 0 * frameBytes (t.lower p).proc +
        (t.openFrame (t.lower p).proc before).toInt) := by
  have hrun := meetsCall_of_reachesBy hok hold hmarkers hbalanced hreach
  rw [hrest] at hrun
  obtain ⟨before, after, hlines, hsp⟩ := hrun.1 l rfl hcall
  refine ⟨before, after, hlines, ?_⟩
  rw [hsp, baseAfter, ImmediateField.word_eq_ofInt, BitVec.ofInt_add]
  bv_omega

end

end

end Target

end FrameLowering
