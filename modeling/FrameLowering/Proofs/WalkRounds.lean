import FrameLowering.Proofs.ConstantParts
import FrameLowering.Proofs.EncodedOffsets
import FrameLowering.Proofs.LineLabels

/-!
# The rounds of the elimination walk

`Target.replaceFrameIndices` recurses over the lines that a block starts with. Run in place, the
walk is a loop over positions in a block that changes under it: a marker makes way for any number of
lines, or for none, and an instruction gets new lines before it and after it. `Target.loopBlock` is
this loop, with a bound on its rounds. It goes on behind the lines that replace a marker, counted by
how much longer the block is, and behind an instruction whose frame index was eliminated, found by
its label. So it also comes to the lines after such an instruction, and passes them.

The loop ends within six rounds for each line that the block starts with, and its result is that of
the recursive walk (`loopBlock_eq`, `loopBlocks_eq`). `Follows` says what the rounds are.
-/

namespace FrameLowering

/-! ## Functions with other lines in a block -/

namespace Procedure

/-- The function with other lines in a block, and another label to come next. -/
def relined (p : Procedure) (block : Nat) (ls : List Line) (fresh : Nat) : Procedure :=
  { p.setLines block ls with fresh }

section
variable {p : Procedure} {block k n m : Nat} {ls xs : List Line}

theorem getElem?_relined (p : Procedure) (block k n : Nat) (ls : List Line) :
    (p.relined block ls n).blocks[k]? =
      if block = k then p.blocks[k]?.map fun b => { b with lines := ls } else p.blocks[k]? :=
  p.getElem?_setLines block k ls

theorem lines_relined (hb : block < p.blocks.length) : (p.relined block ls n).lines block = ls := by
  rw [lines, getElem?_relined, if_pos rfl, List.getElem?_eq_getElem hb]
  rfl

theorem lines_relined_of_ne (h : block ≠ k) : (p.relined block ls n).lines k = p.lines k := by
  rw [lines, getElem?_relined, if_neg h, lines]

theorem length_blocks_relined : (p.relined block ls n).blocks.length = p.blocks.length :=
  List.length_modify _ _ _

theorem relined_relined : (p.relined block xs n).relined block ls m = p.relined block ls m := by
  have h : (p.blocks.modify block fun b => { b with lines := xs }).modify block
      (fun b => { b with lines := ls }) = p.blocks.modify block fun b => { b with lines := ls } := by
    rw [List.modify_modify_eq]
    rfl
  exact congrArg (fun blocks => { p with blocks, fresh := m }) h

theorem relined_self (p : Procedure) (block : Nat) :
    p.relined block (p.lines block) p.fresh = p := by
  have h : (p.relined block (p.lines block) p.fresh).blocks = p.blocks := by
    refine List.ext_getElem? fun k => ?_
    rw [getElem?_relined]
    split
    · next hk =>
      rw [← hk, lines]
      cases p.blocks[block]? <;> rfl
    · rfl
  exact congrArg (fun blocks => { p with blocks }) h

end

end Procedure

namespace Liveness

/-- A search does not look at blocks that it has seen. -/
theorem liveFrom_congr {blocks blocks' : List Block} {r : Reg} {seen work : List Nat}
    (h : ∀ b ∉ seen, blocks'[b]? = blocks[b]?) :
    liveFrom blocks' r seen work = liveFrom blocks r seen work := by
  have hcons {seen : List Nat} (b : Nat) (h : ∀ c ∉ seen, blocks'[c]? = blocks[c]?) :
      ∀ c ∉ b :: seen, blocks'[c]? = blocks[c]? :=
    fun c hc => h c fun hmem => hc (List.mem_cons_of_mem b hmem)
  have hsame {b : Nat} (hb : b < blocks.length) (h : blocks'[b]? = blocks[b]?) :
      ∃ hb' : b < blocks'.length, blocks'[b] = blocks[b] :=
    List.getElem?_eq_some_iff.1 (h.trans (List.getElem?_eq_getElem hb))
  induction seen, work using liveFrom.induct blocks r with
  | case1 seen => rw [liveFrom, liveFrom]
  | case2 seen b work hs ih =>
    rw [liveFrom, dif_pos hs, liveFrom, dif_pos hs]
    exact ih h
  | case3 seen b work hs hb hscan =>
    obtain ⟨hb', hblock⟩ := hsame hb (h b hs)
    rw [liveFrom, dif_neg hs, dif_pos hb', liveFrom, dif_neg hs, dif_pos hb, hblock, hscan]
  | case4 seen b work hs hb hscan ih =>
    obtain ⟨hb', hblock⟩ := hsame hb (h b hs)
    rw [liveFrom, dif_neg hs, dif_pos hb', liveFrom, dif_neg hs, dif_pos hb, hblock, hscan]
    exact ih (hcons b h)
  | case5 seen b work hs hb hscan hend =>
    obtain ⟨hb', hblock⟩ := hsame hb (h b hs)
    rw [liveFrom, dif_neg hs, dif_pos hb', liveFrom, dif_neg hs, dif_pos hb, hblock, hscan]
    simp only [hend]
    rfl
  | case6 seen b work hs hb hscan hend ih =>
    obtain ⟨hb', hblock⟩ := hsame hb (h b hs)
    rw [liveFrom, dif_neg hs, dif_pos hb', liveFrom, dif_neg hs, dif_pos hb, hblock, hscan]
    simp only [hend]
    exact ih (hcons b h)
  | case7 seen b work hs hb ih =>
    have hb' : ¬ b < blocks'.length := by
      rw [Nat.not_lt, ← List.getElem?_eq_none_iff, h b hs]
      exact List.getElem?_eq_none (Nat.le_of_not_lt hb)
    rw [liveFrom, dif_neg hs, dif_neg hb', liveFrom, dif_neg hs, dif_neg hb]
    exact ih h

/-- Whether a value is read after an instruction does not depend on the block's own lines, but for
those that follow. -/
theorem liveAfter_relined (p : Procedure) (block n : Nat) (ls : List Line) (here : Inst)
    (rest : List Inst) (r : Reg) :
    liveAfter (p.relined block ls n) block here rest r = liveAfter p block here rest r := by
  have hsuccessors : (p.relined block ls n).blocks[block]?.map Block.successors =
      p.blocks[block]?.map Block.successors := by
    rw [p.getElem?_relined, if_pos rfl, Option.map_map]
    rfl
  have hfrom (work : List Nat) : liveFrom (p.relined block ls n).blocks r [block] work =
      liveFrom p.blocks r [block] work := by
    refine liveFrom_congr fun b hb => ?_
    rw [p.getElem?_relined, if_neg (List.ne_of_not_mem_cons hb).symm]
  rw [liveAfter, liveAfter, hsuccessors]
  simp only [hfrom]

end Liveness

namespace Target

/-! ## Expansions in a block with other lines -/

section
variable {t : Target} {p : Procedure} {block n : Nat} {ls : List Line} {i : Inst}
  {rest : List Inst} {spAdj : Int64} {scavenging : Bool}

theorem freeScratch?_relined (i : Inst) (rest : List Inst) :
    t.freeScratch? (p.relined block ls n) ⟨block, i, rest⟩ =
      t.freeScratch? p ⟨block, i, rest⟩ := by
  have hfound (order : List Reg) (allowSaved : Bool) :
      t.findUnused (p.relined block ls n) ⟨block, i, rest⟩ order allowSaved =
        t.findUnused p ⟨block, i, rest⟩ order allowSaved := by
    rw [findUnused, findUnused]
    simp only [Liveness.liveAfter_relined]
    rfl
  rw [freeScratch?, hfound, hfound, freeScratch?]

/-- The expansion of an instruction does not depend on the lines before it. -/
theorem expand_relined : t.expand (p.relined block ls n) block i rest spAdj scavenging =
    t.expand p block i rest spAdj scavenging := by
  have hdirect (s : WideSet) : t.expandDirect s (p.relined block ls n) block i spAdj =
      t.expandDirect s p block i spAdj := rfl
  have hscavenging (s : WideSet) :
      t.expandScavenging s (p.relined block ls n) block i rest spAdj =
        t.expandScavenging s p block i rest spAdj := by
    rw [expandScavenging, expandScavenging]
    simp only [freeScratch?_relined]
    rfl
  rw [expand, expand]
  simp only [hdirect, hscavenging]
  rfl

end

end Target

/-! ## The loop -/

/-- What the walk does at a line. -/
inductive Treatment where
  /-- A call frame marker makes way for what stands for it. -/
  | replace
  /-- A frame index is eliminated. -/
  | eliminate
  /-- The line stays as it is. -/
  | pass
deriving DecidableEq

/-- What the walk does at an instruction. -/
def Inst.treatment (i : Inst) : Treatment :=
  if i.op.isMarker then .replace else if i.frameIndexAt.isNone then .pass else .eliminate

/-- A round of the loop: the line that it comes to, and what it does there. -/
structure Round where
  block : Nat
  label : Nat
  treatment : Treatment
deriving DecidableEq

/-- The round for a line of a block. -/
def Line.round (block : Nat) (l : Line) : Round :=
  ⟨block, l.label, l.inst.treatment⟩

/-- A loop that has ended: its rounds, and what came of them. -/
structure Looped where
  rounds : List Round
  result : EStateM.Result Failure Procedure Unit

/-- The loop with more rounds in front. -/
def Looped.after (front : List Round) (x : Looped) : Looped :=
  { x with rounds := front ++ x.rounds }

namespace Target

/-- A round at a place of a block. Returns the place of the next round, and by how many bytes the
stack pointer has been moved down there. -/
def treat (t : Target) (block place : Nat) (spAdj : Int64) (l : Line) : Lowering (Nat × Int64) :=
  fun p =>
    match l.inst.treatment with
    | .replace =>
      match t.callFrameAt block place p with
      | .error f q => .error f q
      | .ok delta q =>
        .ok (place + 1 + (q.lines block).length - (p.lines block).length, spAdj + delta) q
    | .eliminate =>
      match t.eliminateAt block place spAdj t.config.scavenging p with
      | .error f q => .error f q
      | .ok _ q =>
        -- the instruction may have moved; if it were gone, the loop would start again
        match (q.lines block).findIdx? fun m => m.label = l.label with
        | some k => .ok (k + 1, spAdj) q
        | none => .ok (0, spAdj) q
    | .pass => .ok (place + 1, spAdj) p

/-- The loop through a block from a place on; none if it has not ended when it has come to a place
`n` times. -/
def loopBlock (t : Target) (block : Nat) :
    (n place : Nat) → (spAdj : Int64) → Procedure → Option Looped
  | 0, _, _, _ => none
  | n + 1, place, spAdj, p =>
    match (p.lines block)[place]? with
    | none => some ⟨[], .ok () p⟩
    | some l =>
      match t.treat block place spAdj l p with
      | .error f q => some ⟨[l.round block], .error f q⟩
      | .ok (place, spAdj) q => (loopBlock t block n place spAdj q).map (.after [l.round block])

/-- The loops through some blocks, up to a failure. -/
def loopBlocks (t : Target) (n : Nat) : List Nat → Procedure → Option Looped
  | [], p => some ⟨[], .ok () p⟩
  | block :: rest, p =>
    match t.loopBlock block n 0 0 p with
    | none => none
    | some ⟨rounds, .error f q⟩ => some ⟨rounds, .error f q⟩
    | some ⟨rounds, .ok _ q⟩ => (loopBlocks t n rest q).map (.after rounds)

end Target

/-! ## Pieces as lines -/

namespace Piece

theorem number_append_snd (next : Nat) (ps qs : List Piece) :
    (number next (ps ++ qs)).2 = (number (number next ps).2 qs).2 := by
  induction ps generalizing next with
  | nil => rfl
  | cons q ps ih =>
    cases q with
    | line l => exact ih next
    | fresh i => exact ih (next + 1)

theorem number_lines (next : Nat) (ls : List Line) : number next (ls.map .line) = (ls, next) := by
  induction ls with
  | nil => rfl
  | cons l ls ih =>
    show (l :: (number next (ls.map .line)).1, (number next (ls.map .line)).2) = _
    rw [ih]

theorem number_fresh (next : Nat) (is : List Inst) :
    number next (is.map .fresh) = (Line.number next is, next + is.length) := by
  induction is generalizing next with
  | nil => rfl
  | cons i is ih =>
    show (⟨next, i⟩ :: (number (next + 1) (is.map .fresh)).1,
      (number (next + 1) (is.map .fresh)).2) = _
    rw [ih, List.length_cons, Nat.add_right_comm, Nat.add_assoc]
    rfl

theorem number_pieces (next : Nat) (e : Expansion) (l : Line) :
    number next (e.pieces l) = (Line.number next e.before ++ { l with inst := e.inst } ::
      Line.number (next + e.before.length) e.after, next + e.before.length + e.after.length) := by
  have hrest : number (next + e.before.length)
      (.line { l with inst := e.inst } :: e.after.map .fresh) =
      ({ l with inst := e.inst } :: Line.number (next + e.before.length) e.after,
        next + e.before.length + e.after.length) := by
    show (_ :: (number _ (e.after.map .fresh)).1, (number _ (e.after.map .fresh)).2) = _
    rw [number_fresh]
  rw [Expansion.pieces]
  refine Prod.ext ?_ ?_
  · rw [number_append, number_fresh, hrest]
  · rw [number_append_snd, number_fresh, hrest]

/-- Lines made from pieces have the labels they had, or new ones. -/
theorem label_number {next label : Nat} {ps : List Piece} {l : Line}
    (hps : ∀ m, .line m ∈ ps → m.label = label) (hl : l ∈ (number next ps).1) :
    l.label = label ∨ next ≤ l.label := by
  induction ps generalizing next with
  | nil => exact absurd hl List.not_mem_nil
  | cons q ps ih =>
    have hps' : ∀ m, .line m ∈ ps → m.label = label := fun m hm => hps m (List.mem_cons_of_mem q hm)
    cases q with
    | line m =>
      rcases List.mem_cons.1 hl with rfl | hl
      · exact .inl (hps l List.mem_cons_self)
      · exact ih hps' hl
    | fresh i =>
      rcases List.mem_cons.1 hl with rfl | hl
      · exact .inr (Nat.le_refl next)
      · exact (ih hps' hl).imp_right Nat.le_of_succ_le

end Piece

theorem Expansion.label_of_mem_pieces {e : Expansion} {l m : Line} (h : .line m ∈ e.pieces l) :
    m.label = l.label := by
  have hfresh (is : List Inst) : .line m ∉ is.map Piece.fresh := by
    intro hm
    obtain ⟨_, -, h⟩ := List.mem_map.1 hm
    cases h
  rcases List.mem_append.1 h with h | h
  · exact absurd h (hfresh _)
  rcases List.mem_cons.1 h with h | h
  · rw [Piece.line.inj h]
  · exact absurd h (hfresh _)

/-- Pieces among lines take labels for themselves only. -/
theorem Procedure.setPieces_relined {p : Procedure} {block n : Nat} {xs ls rest : List Line}
    (ps : List Piece) :
    (p.relined block xs n).setPieces block (ls.map .line ++ ps ++ rest.map .line) =
      p.relined block (ls ++ (Piece.number n ps).1 ++ rest) (Piece.number n ps).2 := by
  have hnumber : Piece.number n (ls.map .line ++ ps ++ rest.map .line) =
      (ls ++ (Piece.number n ps).1 ++ rest, (Piece.number n ps).2) := by
    refine Prod.ext ?_ ?_
    · rw [Piece.number_append, Piece.number_append, Piece.number_append_snd, Piece.number_lines,
        Piece.number_lines]
    · rw [Piece.number_append_snd, Piece.number_append_snd, Piece.number_lines, Piece.number_lines]
  show (p.relined block _ n).relined block (Piece.number n _).1 (Piece.number n _).2 = _
  rw [hnumber, relined_relined]

/-- The function as a walk leaves it, with a failure if it has stopped. -/
def Procedure.ending (p : Procedure) : Option Failure → EStateM.Result Failure Procedure Unit
  | some f => .error f p
  | none => .ok () p

theorem Line.findIdx?_label {front back : List Line} {l : Line} {label : Nat} (hl : l.label = label)
    (h : ∀ m ∈ front, m.label ≠ label) :
    (front ++ l :: back).findIdx? (fun m => m.label = label) = some front.length := by
  have hnone : front.findIdx? (fun m => m.label = label) = none :=
    List.findIdx?_eq_none_iff.2 fun m hm => decide_eq_false (h m hm)
  rw [List.findIdx?_append, hnone, List.findIdx?_cons, decide_eq_true hl]
  simp

/-! ## Single rounds -/

namespace Target

section
variable {t : Target} {p : Procedure} {block n : Nat} {done rest : List Line} {l : Line}
  {spAdj : Int64} {f : Failure}

theorem inst?_relined (hb : block < p.blocks.length) :
    (p.relined block (done ++ l :: rest) n).inst? block done.length = some l.inst := by
  rw [Procedure.inst?, Procedure.getElem?_relined, if_pos rfl, List.getElem?_eq_getElem hb]
  simp

/-- A marker that nothing can stand for. -/
theorem treat_marker_error (hb : block < p.blocks.length) (hop : l.inst.op.isMarker)
    (hm : t.callFrame p block l.inst = .error f) :
    t.treat block done.length spAdj l (p.relined block (done ++ l :: rest) n) =
      .error f (p.relined block (done ++ l :: rest) n) := by
  have hm' : t.callFrame (p.relined block (done ++ l :: rest) n) block l.inst = .error f := hm
  simp only [treat, Inst.treatment, if_pos hop, callFrameAt, inst?_relined hb, hm']

/-- The loop goes on behind what stands for a marker. -/
theorem treat_marker {m : StackMove} (hb : block < p.blocks.length) (hop : l.inst.op.isMarker)
    (hm : t.callFrame p block l.inst = .ok m) :
    t.treat block done.length spAdj l (p.relined block (done ++ l :: rest) n) =
      .ok ((done ++ Line.number n m.insts).length, spAdj + m.delta)
        (p.relined block (done ++ Line.number n m.insts ++ rest) (n + m.insts.length)) := by
  have hm' : t.callFrame (p.relined block (done ++ l :: rest) n) block l.inst = .ok m := hm
  have hremove : (p.relined block (done ++ l :: rest) n).remove block done.length =
      p.relined block (done ++ rest) n := by
    have herase : (done ++ l :: rest).eraseIdx done.length = done ++ rest := by
      rw [List.eraseIdx_append_of_length_le (Nat.le_refl _), Nat.sub_self]
      rfl
    rw [Procedure.remove, Procedure.lines_relined hb, herase]
    exact Procedure.relined_relined
  have hinsert : (p.relined block (done ++ rest) n).insert block done.length m.insts =
      p.relined block (done ++ Line.number n m.insts ++ rest) (n + m.insts.length) := by
    rw [Procedure.insert, Procedure.lines_relined hb, List.take_left, List.drop_left]
    exact Procedure.relined_relined
  simp only [treat, Inst.treatment, if_pos hop, callFrameAt, inst?_relined hb, hm', hremove,
    hinsert, Procedure.lines_relined hb]
  congr 2
  simp only [List.length_append, List.length_cons]
  omega

theorem treat_plain {q : Procedure} {place : Nat} (hpass : l.inst.treatment = .pass) :
    t.treat block place spAdj l q = .ok (place + 1, spAdj) q := by
  rw [treat, hpass]

theorem eliminateAt_relined (hb : block < p.blocks.length) {scavenging : Bool} {e : Expansion}
    (he : t.expand p block l.inst (rest.map Line.inst) spAdj scavenging = e) :
    t.eliminateAt block done.length spAdj scavenging (p.relined block (done ++ l :: rest) n) =
      (p.relined block (done ++ (Piece.number n (e.pieces l)).1 ++ rest)
        (Piece.number n (e.pieces l)).2).ending e.failure := by
  rw [eliminateAt]
  simp only [Procedure.lines_relined hb, List.drop_left, List.take_left, expand_relined, he,
    Procedure.setPieces_relined]
  rfl

theorem treatment_eliminate (hop : ¬ l.inst.op.isMarker) (hplace : ¬ l.inst.frameIndexAt.isNone) :
    l.inst.treatment = .eliminate := by
  rw [Inst.treatment, if_neg hop, if_neg hplace]

/-- A frame index that cannot be eliminated. -/
theorem treat_index_error {e : Expansion} (hb : block < p.blocks.length)
    (htreat : l.inst.treatment = .eliminate)
    (he : t.expand p block l.inst (rest.map Line.inst) spAdj t.config.scavenging = e)
    (hf : e.failure = some f) :
    t.treat block done.length spAdj l (p.relined block (done ++ l :: rest) n) =
      .error f (p.relined block (done ++ (Piece.number n (e.pieces l)).1 ++ rest)
        (Piece.number n (e.pieces l)).2) := by
  simp only [treat, htreat, eliminateAt_relined hb he, hf, Procedure.ending]

/-- The loop goes on behind an instruction whose frame index was eliminated. -/
theorem treat_index {e : Expansion} (hb : block < p.blocks.length)
    (htreat : l.inst.treatment = .eliminate)
    (he : t.expand p block l.inst (rest.map Line.inst) spAdj t.config.scavenging = e)
    (hf : e.failure = none) (hl : l.label < n) (hdone : ∀ m ∈ done, m.label ≠ l.label) :
    t.treat block done.length spAdj l (p.relined block (done ++ l :: rest) n) =
      .ok ((done ++ Line.number n e.before).length + 1, spAdj)
        (p.relined block (done ++ Line.number n e.before ++ { l with inst := e.inst } ::
          (Line.number (n + e.before.length) e.after ++ rest))
          (n + e.before.length + e.after.length)) := by
  have hfront : ∀ m ∈ done ++ Line.number n e.before, m.label ≠ l.label := by
    intro m hm
    rcases List.mem_append.1 hm with hm | hm
    · exact hdone m hm
    · exact Nat.ne_of_gt (Nat.lt_of_lt_of_le hl ((Line.isNew_number (Nat.le_refl n) _).2 m hm))
  have hlines : done ++ (Line.number n e.before ++ { l with inst := e.inst } ::
      Line.number (n + e.before.length) e.after) ++ rest =
      done ++ Line.number n e.before ++ { l with inst := e.inst } ::
        (Line.number (n + e.before.length) e.after ++ rest) := by simp
  have hsame : ({ l with inst := e.inst } : Line).label = l.label := rfl
  simp only [treat, htreat, eliminateAt_relined hb he, hf, Procedure.ending, Piece.number_pieces,
    hlines, Procedure.lines_relined hb, Line.findIdx?_label hsame hfront]

end

end Target

/-! ## New lines -/

/-- Nothing is done at an instruction that is no marker and has no frame index. -/
theorem Inst.treatment_eq_pass {i : Inst} (hmarker : i.op.isMarker = false)
    (hcount : i.indexCount = 0) : i.treatment = .pass := by
  have hplace : i.frameIndexAt = none := by
    rw [frameIndexAt, List.findIdx?_eq_none_iff]
    exact fun o ho => Bool.eq_false_iff.2 (List.countP_eq_zero.1 hcount o ho)
  rw [treatment, if_neg (Bool.eq_false_iff.1 hmarker), hplace]
  rfl

theorem WideSet.length_addConstant_le (s : WideSet) (dst base : Reg) (n : Int64) (c : Cond)
    (pred : Reg) : (s.addConstant dst base n c pred).length ≤ 4 := by
  rw [← List.length_map Inst.part, map_part_addConstant]
  exact RotatedImmediate.length_chunks_le _

namespace Target

section
variable {t : Target} {w : WideSet} {p : Procedure} {block : Nat} {i j : Inst} {spAdj : Int64}
  {e : Expansion}

theorem Direct.length_before_le (h : Direct t w p block i spAdj e) : e.before.length ≤ 4 := by
  cases h with
  | alone => exact Nat.zero_le 4
  | through => exact w.length_addConstant_le ..

/-- Nothing more is to be done about an instruction with one frame index, once that is
eliminated. -/
theorem Direct.treatment (h : Direct t w p block i spAdj e) (hone : i.indexCount ≤ 1)
    (hmarker : i.op.isMarker = false) (hj : j ∈ e.before ++ [e.inst]) : j.treatment = .pass := by
  rcases List.mem_append.1 hj with hj | hj
  · cases h with
    | alone => exact absurd hj List.not_mem_nil
    | through =>
      obtain ⟨-, hop, hplace⟩ := WideSet.plain_of_mem_addConstant hj
      exact Inst.treatment_eq_pass hop (Inst.indexCount_eq_zero hplace)
  · obtain rfl := List.mem_singleton.1 hj
    have hcount := (Expands.direct h).indexCount.1
    refine Inst.treatment_eq_pass ?_ (by omega)
    obtain ⟨r, hr, hinst⟩ := (Expands.direct h).inst_cases
    obtain ⟨_, _, _, -, -, -, -, -, hfold, -⟩ := rebase_cases hr
    have hop : e.inst.op = r.inst.op := by
      rcases hinst with hinst | ⟨_, hinst⟩ <;> rw [hinst]
      rfl
    have hsame : r.inst.op.isMarker = i.op.isMarker :=
      congrArg (fun f : OpcodeFlags => f.isSetup || f.isDestroy) (fold_operands hfold).1
    rw [hop, hsame, hmarker]

/-- After an instruction there are at most five new ones, and nothing is to be done about them. -/
theorem Expands.after (h : Expands t w p block i spAdj e) (hw : t.wide? = some w) :
    e.after.length ≤ 5 ∧ ∀ j ∈ e.after, j.treatment = .pass := by
  cases h with
  | direct h =>
    cases h
    all_goals exact ⟨Nat.zero_le 5, fun j hj => absurd hj List.not_mem_nil⟩
  | borrowed _ _ hscratch _ hreload =>
    obtain ⟨n, rfl⟩ := hscratch.core
    have hready : (t.lend p (.core n)).reload.IsReady ∧
        (t.lend p (.core n)).reload.op.isMarker = false :=
      isReady_slotAccess hw (.inl ⟨n, rfl⟩) (.inr rfl)
    refine ⟨?_, fun j hj => hreload.treatment hready.1.one hready.2 hj⟩
    have hlength := hreload.length_before_le
    rw [List.length_append, List.length_singleton]
    omega

theorem after_of_expand {rest : List Inst} {scavenging : Bool}
    (h : t.expand p block i rest spAdj scavenging = e) (hok : e.failure = none) :
    e.after.length ≤ 5 ∧ ∀ j ∈ e.after, j.treatment = .pass := by
  cases hw : t.wide? with
  | none =>
    rw [← h, expand, hw] at hok
    cases hok
  | some w => exact (expands_of_expand hw h hok).after hw

end

section
variable {t : Target} {p q : Procedure} {block n place : Nat} {l : Line} {spAdj spAdj' : Int64}
  {f : Failure}

theorem loopBlock_stop (hl : (p.lines block)[place]? = some l)
    (htreat : t.treat block place spAdj l p = .error f q) :
    t.loopBlock block (n + 1) place spAdj p = some ⟨[l.round block], .error f q⟩ := by
  simp only [loopBlock, hl, htreat]

theorem loopBlock_step {place' : Nat} (hl : (p.lines block)[place]? = some l)
    (htreat : t.treat block place spAdj l p = .ok (place', spAdj') q) :
    t.loopBlock block (n + 1) place spAdj p =
      (t.loopBlock block n place' spAdj' q).map (.after [l.round block]) := by
  simp only [loopBlock, hl, htreat]

/-- The loop passes lines that nothing is to be done about. -/
theorem loopBlock_pass {done new rest : List Line} (hlines : p.lines block = done ++ (new ++ rest))
    (hnew : ∀ l ∈ new, l.inst.treatment = .pass) :
    t.loopBlock block (new.length + n) done.length spAdj p =
      (t.loopBlock block n (done ++ new).length spAdj p).map
        (.after (new.map (Line.round block))) := by
  induction new generalizing done with
  | nil =>
    rw [List.append_nil, List.length_nil, Nat.zero_add]
    cases t.loopBlock block n done.length spAdj p <;> rfl
  | cons l new ih =>
    obtain ⟨hl, hnew⟩ := List.forall_mem_cons.1 hnew
    have hget : (p.lines block)[done.length]? = some l := by
      rw [hlines, List.getElem?_append_right (Nat.le_refl _), Nat.sub_self]
      rfl
    have hlines' : p.lines block = (done ++ [l]) ++ (new ++ rest) := by
      rw [hlines, List.append_assoc]
      rfl
    have hplace : done.length + 1 = (done ++ [l]).length := by
      rw [List.length_append, List.length_singleton]
    have hall : done ++ l :: new = done ++ [l] ++ new := by
      rw [List.append_assoc, List.singleton_append]
    rw [List.length_cons, Nat.add_right_comm, loopBlock_step hget (treat_plain hl), hplace,
      ih hlines' hnew, Option.map_map, hall]
    rfl

end

end Target

/-! ## Whole loops -/

/-- Rounds at old lines, with labels below `first`, are those that are due, in order; all of them if
the loop is not stopped. At new lines nothing is done. -/
structure Follows (first : Nat) (rounds due : List Round) (stopped : Bool) : Prop where
  old : (rounds.filter fun r => r.label < first) <+: due
  all : stopped = false → (rounds.filter fun r => r.label < first) = due
  new : ∀ r ∈ rounds, first ≤ r.label → r.treatment = .pass

namespace Follows

section
variable {first : Nat} {rounds rounds' due due' : List Round} {r : Round} {stopped : Bool}

theorem nil (first : Nat) : Follows first [] [] false :=
  ⟨List.prefix_refl _, fun _ => rfl, fun _ h => absurd h List.not_mem_nil⟩

theorem cons (hr : r.label < first) (h : Follows first rounds due stopped) :
    Follows first (r :: rounds) (r :: due) stopped := by
  have hfilter : (r :: rounds).filter (fun r => r.label < first) =
      r :: rounds.filter fun r => r.label < first := List.filter_cons_of_pos (decide_eq_true hr)
  refine ⟨?_, fun hgoes => ?_, fun x hx hnew => ?_⟩
  · rw [hfilter]
    exact List.cons_prefix_cons.2 ⟨rfl, h.old⟩
  · rw [hfilter, h.all hgoes]
  · rcases List.mem_cons.1 hx with rfl | hx
    · exact absurd hr (Nat.not_lt.2 hnew)
    · exact h.new x hx hnew

theorem stop (hr : r.label < first) (due : List Round) : Follows first [r] (r :: due) true :=
  cons hr ⟨List.nil_prefix, fun h => absurd h (by decide), fun _ h => absurd h List.not_mem_nil⟩

theorem append (h : Follows first rounds due false) (h' : Follows first rounds' due' stopped) :
    Follows first (rounds ++ rounds') (due ++ due') stopped := by
  have hfilter : (rounds ++ rounds').filter (fun r => r.label < first) =
      due ++ rounds'.filter fun r => r.label < first := by
    rw [List.filter_append, h.all rfl]
  refine ⟨?_, fun hgoes => ?_, fun x hx => ?_⟩
  · rw [hfilter]
    exact (List.prefix_append_right_inj due).2 h'.old
  · rw [hfilter, h'.all hgoes]
  · exact (List.mem_append.1 hx).elim (h.new x) (h'.new x)

theorem stopped_append (h : Follows first rounds due true) (due' : List Round) :
    Follows first rounds (due ++ due') true :=
  ⟨h.old.trans (List.prefix_append _ _), fun hgoes => absurd hgoes (by decide), h.new⟩

/-- Rounds at new lines do not count. -/
theorem of_new (h : ∀ r ∈ rounds, first ≤ r.label ∧ r.treatment = .pass) :
    Follows first rounds [] false := by
  have hfilter : rounds.filter (fun r => r.label < first) = [] :=
    List.filter_eq_nil_iff.2 fun r hr => by simpa using (h r hr).1
  exact ⟨hfilter ▸ List.prefix_refl _, fun _ => hfilter, fun r hr _ => (h r hr).2⟩

end

end Follows

/-- How a walk through a block ends in which the lines before it are `done`, and labels count from
`next`. -/
def Walked.ends (w : Walked) (p : Procedure) (block : Nat) (done : List Line) (next : Nat) :
    EStateM.Result Failure Procedure Unit :=
  (p.relined block (done ++ (Piece.number next w.pieces).1)
    (Piece.number next w.pieces).2).ending w.failure

theorem Walked.ends_after (w : Walked) (front : List Piece) (p : Procedure) (block : Nat)
    (done : List Line) (next : Nat) : (w.after front).ends p block done next =
      w.ends p block (done ++ (Piece.number next front).1) (Piece.number next front).2 := by
  rw [ends, ends, after, Piece.number_append, Piece.number_append_snd, List.append_assoc]

namespace Target

section
variable {t : Target} {p : Procedure} {first block n next : Nat} {done rest : List Line} {l : Line}
  {spAdj spAdj' : Int64} {f : Failure}

theorem getElem?_lines_relined (hb : block < p.blocks.length) :
    ((p.relined block (done ++ l :: rest) next).lines block)[done.length]? = some l := by
  rw [Procedure.lines_relined hb, List.getElem?_append_right (Nat.le_refl _), Nat.sub_self]
  rfl

/-- The loop, going through `rest` behind the lines that it is `done` with, ends as a walk has. -/
def LoopsTo (t : Target) (p : Procedure) (first block n : Nat) (spAdj : Int64)
    (done rest : List Line) (next : Nat) (w : Walked) : Prop :=
  ∃ rounds, t.loopBlock block n done.length spAdj (p.relined block (done ++ rest) next) =
      some ⟨rounds, w.ends p block done next⟩ ∧
    Follows first rounds (rest.map (Line.round block)) w.failure.isSome

theorem loopsTo_nil (hb : block < p.blocks.length) :
    t.LoopsTo p first block (n + 1) spAdj done [] next { pieces := [] } := by
  refine ⟨[], ?_, .nil _⟩
  rw [loopBlock, Procedure.lines_relined hb, List.append_nil, List.getElem?_eq_none (Nat.le_refl _)]
  rw [Walked.ends, Piece.number, List.append_nil]
  rfl

theorem loopsTo_stop {ps : List Piece} (hb : block < p.blocks.length) (hl : l.label < first)
    (htreat : t.treat block done.length spAdj l (p.relined block (done ++ l :: rest) next) =
      .error f (p.relined block (done ++ (Piece.number next ps).1 ++ rest)
        (Piece.number next ps).2)) :
    t.LoopsTo p first block (n + 1) spAdj done (l :: rest) next
      { pieces := ps ++ rest.map .line, failure := some f } := by
  refine ⟨[l.round block], ?_, .stop hl _⟩
  rw [loopBlock_stop (getElem?_lines_relined hb) htreat, Walked.ends, Piece.number_append,
    Piece.number_append_snd, Piece.number_lines, List.append_assoc]
  rfl

/-- A round puts `front` in the place of the line `l`. Of the lines made from that, the loop is still
to come to at most five new ones, which it will pass. -/
def Advances (t : Target) (p : Procedure) (block : Nat) (spAdj : Int64) (done : List Line) (l : Line)
    (rest : List Line) (next : Nat) (spAdj' : Int64) (front : List Piece) : Prop :=
  ∃ done' new : List Line, done ++ (Piece.number next front).1 = done' ++ new ∧
    t.treat block done.length spAdj l (p.relined block (done ++ l :: rest) next) =
      .ok (done'.length, spAdj') (p.relined block (done ++ (Piece.number next front).1 ++ rest)
        (Piece.number next front).2) ∧
    new.length ≤ 5 ∧ ∀ m ∈ new, next ≤ m.label ∧ m.inst.treatment = .pass

theorem advances_marker {m : StackMove} (hb : block < p.blocks.length) (hop : l.inst.op.isMarker)
    (hm : t.callFrame p block l.inst = .ok m) :
    t.Advances p block spAdj done l rest next (spAdj + m.delta) (m.insts.map .fresh) := by
  refine ⟨done ++ Line.number next m.insts, [], ?_, ?_, Nat.zero_le 5,
    fun _ h => absurd h List.not_mem_nil⟩
  · rw [Piece.number_fresh, List.append_nil]
  · rw [Piece.number_fresh]
    exact treat_marker hb hop hm

theorem advances_plain (hop : ¬ l.inst.op.isMarker) (hplace : l.inst.frameIndexAt.isNone) :
    t.Advances p block spAdj done l rest next spAdj [.line l] := by
  have hpass : l.inst.treatment = .pass := by rw [Inst.treatment, if_neg hop, if_pos hplace]
  refine ⟨done ++ [l], [], (List.append_nil _).symm, ?_, Nat.zero_le 5,
    fun _ h => absurd h List.not_mem_nil⟩
  rw [treat_plain hpass, List.length_append, Piece.number, Piece.number, List.append_assoc]
  rfl

theorem advances_index {e : Expansion} (hb : block < p.blocks.length)
    (htreat : l.inst.treatment = .eliminate)
    (he : t.expand p block l.inst (rest.map Line.inst) spAdj t.config.scavenging = e)
    (hf : e.failure = none) (hl : l.label < next) (hdone : ∀ m ∈ done, m.label ≠ l.label) :
    t.Advances p block spAdj done l rest next spAdj (e.pieces l) := by
  obtain ⟨hfew, hpass⟩ := after_of_expand he hf
  have hnew := Line.isNew_number (Nat.le_refl (next + e.before.length)) e.after
  refine ⟨done ++ Line.number next e.before ++ [{ l with inst := e.inst }],
    Line.number (next + e.before.length) e.after, ?_, ?_, ?_, fun m hm => ⟨?_, ?_⟩⟩
  · rw [Piece.number_pieces]
    simp
  · rw [treat_index hb htreat he hf hl hdone, Piece.number_pieces]
    simp [Nat.add_assoc]
  · rw [← List.length_map Line.inst, hnew.1]
    exact hfew
  · exact Nat.le_trans (Nat.le_add_right ..) (hnew.2 m hm)
  · exact hpass _ (hnew.mem hm)

/-- A round, and those that it takes to pass the new lines it leaves. -/
theorem Advances.loopsTo {w : Walked} {front : List Piece} (hb : block < p.blocks.length)
    (hl : l.label < first) (hnext : first ≤ next) (hn : 6 ≤ n)
    (h : t.Advances p block spAdj done l rest next spAdj' front)
    (hrest : ∀ k, n ≤ k + 6 → t.LoopsTo p first block k spAdj' (done ++ (Piece.number next front).1) rest
      (Piece.number next front).2 w) :
    t.LoopsTo p first block n spAdj done (l :: rest) next (w.after front) := by
  obtain ⟨done', new, hfront, htreat, hfew, hnew⟩ := h
  obtain ⟨k, rfl⟩ : ∃ k, n = new.length + k + 1 := ⟨n - new.length - 1, by omega⟩
  obtain ⟨rounds, hrounds, hfollows⟩ := hrest k (by omega)
  have hpass : ∀ r ∈ new.map (Line.round block), first ≤ r.label ∧ r.treatment = .pass := by
    intro r hr
    obtain ⟨m, hm, rfl⟩ := List.mem_map.1 hr
    exact ⟨Nat.le_trans hnext (hnew m hm).1, (hnew m hm).2⟩
  refine ⟨l.round block :: (new.map (Line.round block) ++ rounds), ?_, ?_⟩
  · rw [hfront] at htreat hrounds
    have hlines : (p.relined block (done' ++ new ++ rest) (Piece.number next front).2).lines block =
        done' ++ (new ++ rest) := by
      rw [Procedure.lines_relined hb, List.append_assoc]
    rw [loopBlock_step (getElem?_lines_relined hb) htreat,
      loopBlock_pass hlines fun m hm => (hnew m hm).2, hrounds, Walked.ends_after, hfront]
    rfl
  · exact .cons hl ((Follows.of_new hpass).append hfollows)

/-- The loop through the rest of a block ends as the walk through it does. The invariant: the lines
before the place do not change any more, and those from there on are still the old ones. -/
theorem loopsTo_walkLines (hb : block < p.blocks.length) (hrest : Line.Apart first rest)
    (hdone : ∀ m ∈ done, ∀ l ∈ rest, m.label ≠ l.label) (hnext : first ≤ next)
    (hn : 6 * rest.length < n) :
    t.LoopsTo p first block n spAdj done rest next (t.walkLines p block spAdj rest) := by
  induction rest generalizing done next spAdj n with
  | nil =>
    obtain ⟨n, rfl⟩ := Nat.exists_eq_succ_of_ne_zero (Nat.ne_zero_of_lt hn)
    exact loopsTo_nil hb
  | cons l rest ih =>
    obtain ⟨hl, hold⟩ := List.forall_mem_cons.1 hrest.old
    obtain ⟨hother, hunique⟩ := List.nodup_cons.1 hrest.unique
    rw [List.length_cons] at hn
    -- a round that goes past the line leaves the rest for the induction hypothesis
    have hgo {front : List Piece} {spAdj' : Int64}
        (h : t.Advances p block spAdj done l rest next spAdj' front)
        (hlabels : ∀ m, .line m ∈ front → m.label = l.label) :
        t.LoopsTo p first block n spAdj done (l :: rest) next
          ((t.walkLines p block spAdj' rest).after front) := by
      refine h.loopsTo hb hl hnext (by omega) fun k hk => ?_
      refine ih ⟨hold, hunique⟩ ?_ (Nat.le_trans hnext (le_number next front)) (by omega)
      intro m hm x hx hsame
      rcases List.mem_append.1 hm with hm | hm
      · exact hdone m hm x (List.mem_cons_of_mem l hx) hsame
      rcases Piece.label_number hlabels hm with hm | hm
      · exact hother ((hm.symm.trans hsame) ▸ List.mem_map_of_mem hx)
      · exact Nat.not_lt.2 (Nat.le_trans hnext hm) (hsame ▸ hold x hx)
    -- a round that fails ends the loop with the lines as they are
    have hstop (ps : List Piece) {f : Failure}
        (h : t.treat block done.length spAdj l (p.relined block (done ++ l :: rest) next) =
          .error f (p.relined block (done ++ (Piece.number next ps).1 ++ rest)
            (Piece.number next ps).2)) :
        t.LoopsTo p first block n spAdj done (l :: rest) next
          { pieces := ps ++ rest.map .line, failure := some f } := by
      obtain ⟨n, rfl⟩ := Nat.exists_eq_succ_of_ne_zero (Nat.ne_zero_of_lt hn)
      exact loopsTo_stop hb hl h
    rw [walkLines]
    split
    · next hop =>
      cases hm : t.callFrame p block l.inst with
      | error f =>
        refine hstop [.line l] ((treat_marker_error hb hop hm).trans ?_)
        rw [Piece.number, Piece.number, List.append_assoc]
        rfl
      | ok m =>
        refine hgo (advances_marker hb hop hm) fun x hx => ?_
        obtain ⟨_, -, h⟩ := List.mem_map.1 hx
        cases h
    · next hop =>
      split
      · next hplace =>
        refine hgo (advances_plain hop hplace) fun x hx => ?_
        rw [Piece.line.inj (List.mem_singleton.1 hx)]
      · next hplace =>
        have htreat := treatment_eliminate hop hplace
        cases hf : (t.expand p block l.inst (rest.map Line.inst) spAdj
            t.config.scavenging).failure with
        | some f =>
          simp only [hf]
          exact hstop _ (treat_index_error hb htreat rfl hf)
        | none =>
          simp only [hf]
          refine hgo (advances_index hb htreat rfl hf (Nat.lt_of_lt_of_le hl hnext)
            fun m hm => hdone m hm l List.mem_cons_self) fun x hx => Expansion.label_of_mem_pieces hx

/-- The loop through a whole block. -/
theorem loopBlock_eq (hb : block < p.blocks.length) (hlines : Line.Apart first (p.lines block))
    (hfirst : first ≤ p.fresh) (hn : 6 * (p.lines block).length < n) :
    ∃ rounds, t.loopBlock block n 0 0 p = some ⟨rounds, t.walkBlock block p⟩ ∧
      Follows first rounds ((p.lines block).map (Line.round block))
        (t.walkLines p block 0 (p.lines block)).failure.isSome := by
  have hall : t.LoopsTo p first block n 0 [] (p.lines block) p.fresh _ :=
    loopsTo_walkLines hb hlines (fun m hm => absurd hm List.not_mem_nil) hfirst hn
  obtain ⟨rounds, hrounds, hfollows⟩ := hall
  refine ⟨rounds, ?_, hfollows⟩
  rw [List.nil_append, p.relined_self] at hrounds
  exact hrounds

/-- A walk through a block gives it other lines. -/
theorem exists_walkBlock_eq (t : Target) (p : Procedure) (block : Nat) :
    ∃ ls next, p.fresh ≤ next ∧ t.walkBlock block p =
      (p.relined block ls next).ending (t.walkLines p block 0 (p.lines block)).failure :=
  ⟨_, _, le_number _ _, rfl⟩

theorem walkBlocks_cons_error {q : Procedure} {k : Nat} (ks : List Nat)
    (h : t.walkBlock k p = .error f q) : t.walkBlocks (k :: ks) p = .error f q := by
  show (t.walkBlock k >>= fun _ => t.walkBlocks ks) p = _
  simp only [bind, EStateM.bind, h]

theorem walkBlocks_cons_ok {q : Procedure} {k : Nat} (ks : List Nat)
    (h : t.walkBlock k p = .ok () q) : t.walkBlocks (k :: ks) p = t.walkBlocks ks q := by
  show (t.walkBlock k >>= fun _ => t.walkBlocks ks) p = _
  simp only [bind, EStateM.bind, h]

/-- The loops through some blocks end as the walk through them does. -/
theorem loopBlocks_eq {ks : List Nat} (hks : ks.Nodup) (hlength : ∀ k ∈ ks, k < p.blocks.length)
    (hlines : ∀ k ∈ ks, Line.Apart first (p.lines k)) (hfirst : first ≤ p.fresh)
    (hn : ∀ k ∈ ks, 6 * (p.lines k).length < n) :
    ∃ rounds stopped, t.loopBlocks n ks p = some ⟨rounds, t.walkBlocks ks p⟩ ∧
      Follows first rounds (ks.flatMap fun k => (p.lines k).map (Line.round k)) stopped ∧
      ∀ q, t.walkBlocks ks p = .ok () q → stopped = false := by
  induction ks generalizing p with
  | nil => exact ⟨[], false, rfl, .nil _, fun _ _ => rfl⟩
  | cons k ks ih =>
    obtain ⟨hk, hks⟩ := List.nodup_cons.1 hks
    obtain ⟨hb, hlength⟩ := List.forall_mem_cons.1 hlength
    obtain ⟨hlinesk, hlines⟩ := List.forall_mem_cons.1 hlines
    obtain ⟨hnk, hn⟩ := List.forall_mem_cons.1 hn
    obtain ⟨rounds, hrounds, hfollows⟩ := loopBlock_eq (t := t) hb hlinesk hfirst hnk
    obtain ⟨ls, next, hnext, hwalk⟩ := t.exists_walkBlock_eq p k
    cases hf : (t.walkLines p k 0 (p.lines k)).failure with
    | some f =>
      rw [hf] at hwalk hfollows
      rw [walkBlocks_cons_error ks hwalk]
      refine ⟨rounds, true, ?_, hfollows.stopped_append _, fun q hq => by cases hq⟩
      simp only [loopBlocks, hrounds, hwalk, Procedure.ending]
    | none =>
      rw [hf] at hwalk hfollows
      -- the blocks to come are as they were
      have hsame (j : Nat) (hj : j ∈ ks) : (p.relined k ls next).lines j = p.lines j :=
        Procedure.lines_relined_of_ne fun h => hk (h ▸ hj)
      have hrest := ih (p := p.relined k ls next) hks
        (fun j hj => Procedure.length_blocks_relined.symm ▸ hlength j hj)
        (fun j hj => hsame j hj ▸ hlines j hj) (Nat.le_trans hfirst hnext)
        (fun j hj => hsame j hj ▸ hn j hj)
      obtain ⟨rounds', stopped, hrounds', hfollows', hok⟩ := hrest
      have hdue : ks.flatMap (fun j => ((p.relined k ls next).lines j).map (Line.round j)) =
          ks.flatMap fun j => (p.lines j).map (Line.round j) :=
        List.flatMap_congr fun j hj => by rw [hsame j hj]
      rw [hdue] at hfollows'
      rw [walkBlocks_cons_ok ks hwalk]
      refine ⟨rounds ++ rounds', stopped, ?_, hfollows.append hfollows', hok⟩
      simp only [loopBlocks, hrounds, hwalk, Procedure.ending, hrounds', Option.map_some]
      rfl

end

end Target

end FrameLowering
