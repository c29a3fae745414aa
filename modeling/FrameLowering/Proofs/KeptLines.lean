import FrameLowering.Proofs.KeptOperands
import FrameLowering.Proofs.StackDistance

/-!
# Lines that lowering keeps

Lines are known by their labels, and those that lowering inserts have labels that no line had
before. Of the lines with old labels none is lost or moved, the markers of call frames apart,
which are taken away. A line without a frame index is left as it is, and one with a frame index
keeps what `Inst.Retains` says.

The stages before the walk only insert lines, so the old ones can be told apart by their labels
(`Line.Grows`). For the walk there is one statement (`Walks.keeps`), by induction along it. The
main statement `keeps_of_lower` is about every block of a function. Nothing is said about the
lines that are inserted.
-/

namespace FrameLowering

/-- What has become of a line. -/
structure Line.Keeps (w : WideSet) (l l' : Line) : Prop where
  label : l'.label = l.label
  plain : l.inst.frameIndexAt = none → l'.inst = l.inst
  retains : l.inst.frameIndexAt ≠ none → l.inst.Retains w l'.inst

/-- The line of a piece that is none of the new instructions. -/
def Piece.line? : Piece → Option Line
  | .line l => some l
  | .fresh _ => none

namespace Piece

theorem filterMap_line (l : Line) (ps : List Piece) :
    (line l :: ps).filterMap line? = l :: ps.filterMap line? :=
  rfl

/-- New instructions get labels from `n` on. -/
theorem filter_number {first n : Nat} (h : first ≤ n) (ps : List Piece) :
    (number n ps).1.filter (fun l => l.label < first) =
      (ps.filterMap line?).filter fun l => l.label < first := by
  induction ps generalizing n with
  | nil => rfl
  | cons x ps ih =>
    cases x with
    | line l =>
      show List.filter _ (l :: (number n ps).1) = _
      rw [filterMap_line, List.filter_cons, List.filter_cons, ih h]
    | fresh i =>
      show List.filter _ (⟨n, i⟩ :: (number (n + 1) ps).1) = _
      rw [List.filterMap_cons_none rfl, ← ih (Nat.le_succ_of_le h), List.filter_cons_of_neg]
      simpa using h

theorem filterMap_map_fresh (is : List Inst) : (is.map fresh).filterMap line? = [] := by
  rw [List.filterMap_eq_nil_iff]
  intro x hx
  obtain ⟨i, -, rfl⟩ := List.mem_map.1 hx
  rfl

/-- An expansion has one line, the one that was expanded. -/
theorem filterMap_pieces (e : Expansion) (l : Line) :
    (e.pieces l).filterMap line? = [{ l with inst := e.inst }] := by
  rw [Expansion.pieces, List.filterMap_append, filterMap_line, filterMap_map_fresh,
    filterMap_map_fresh, List.nil_append]

end Piece

namespace Target

section
variable {t : Target} {w : WideSet} {p : Procedure} {block first : Nat} {spAdj spAdj' : Int64}
  {ls : List Line} {ps : List Piece}

/-- Along a walk, old lines stay in order. Markers are the only ones that go. -/
theorem Walks.keeps (h : Walks t w p block spAdj ls spAdj' ps)
    (hplace : ∀ l ∈ ls, l.label < first →
      ∀ n ∈ l.inst.frameIndexAt, n = 1 ∨ l.inst.info.flags.isAsm) :
    List.Forall₂ (Line.Keeps w)
      (ls.filter fun l => !l.inst.op.isMarker && l.label < first)
      ((ps.filterMap Piece.line?).filter fun l => l.label < first) := by
  -- a line with a new label is passed over on both sides
  have hstep {l l' : Line} {ls ls' : List Line} (hop : ¬ l.inst.op.isMarker)
      (hkeeps : l.label < first → Line.Keeps w l l') (hlabel : l'.label = l.label)
      (hrest : List.Forall₂ (Line.Keeps w)
        (ls.filter fun l => !l.inst.op.isMarker && l.label < first)
        (ls'.filter fun l => l.label < first)) :
      List.Forall₂ (Line.Keeps w)
        ((l :: ls).filter fun l => !l.inst.op.isMarker && l.label < first)
        ((l' :: ls').filter fun l => l.label < first) := by
    by_cases hold : l.label < first
    · rw [List.filter_cons_of_pos (by simp [hop, hold]),
        List.filter_cons_of_pos (by simp [hlabel, hold])]
      exact .cons (hkeeps hold) hrest
    · rw [List.filter_cons_of_neg (by simp [hold]),
        List.filter_cons_of_neg (by simp [hlabel, hold])]
      exact hrest
  induction h with
  | nil => exact .nil
  | marker hop hm _ ih =>
    rw [List.filterMap_append, Piece.filterMap_map_fresh, List.filter_cons_of_neg (by simp [hop])]
    exact ih fun l hl => hplace l (List.mem_cons_of_mem _ hl)
  | @plain _ _ l ls ps hop hnone _ ih =>
    rw [Piece.filterMap_line]
    refine hstep hop (fun _ => ⟨rfl, fun _ => rfl, fun hsome => absurd hnone hsome⟩) rfl ?_
    exact ih fun l hl => hplace l (List.mem_cons_of_mem _ hl)
  | @expand _ _ l ls e ps hop he _ ih =>
    rw [List.filterMap_append, Piece.filterMap_pieces, List.singleton_append]
    refine hstep hop (fun hold => ?_) rfl (ih fun l hl => hplace l (List.mem_cons_of_mem _ hl))
    obtain ⟨r, hr⟩ := he.rebase
    obtain ⟨_, _, _, hfirst, -⟩ := rebase_cases hr
    refine ⟨rfl, fun hnone => ?_, fun _ => he.retains ?_⟩
    · rw [hfirst] at hnone
      cases hnone
    · rw [hfirst]
      exact (hplace l List.mem_cons_self hold _ hfirst).imp_left (congrArg some)

end

/-- Lowering touches no more than it has to. In every block of a function that was lowered, the
old lines are those that were there, in order, without the markers of call frames. An instruction
without a frame index is what it was, and every other one keeps its predicate, all operands but
the frame index and the immediate that goes with it, and its opcode up to the sign of an offset. -/
theorem keeps_of_lower {t : Target} {p : Procedure}
    (hold : ∀ b ∈ p.blocks, ∀ l ∈ b.lines, l.label < p.fresh)
    (hplace : ∀ b ∈ p.blocks, ∀ l ∈ b.lines,
      ∀ n ∈ l.inst.frameIndexAt, n = 1 ∨ l.inst.info.flags.isAsm)
    (hok : (t.lower p).failure = none) :
    (t.lower p).proc.blocks.length = p.blocks.length ∧ ∃ w, t.wide? = some w ∧
      ∀ k, List.Forall₂ (Line.Keeps w) ((p.lines k).filter fun l => !l.inst.op.isMarker)
        (((t.lower p).proc.lines k).filter fun l => l.label < p.fresh) := by
  obtain ⟨hthumb, -, -, g, hlayout, hinsert⟩ := lower_cases hok
  refine ⟨length_of_lower hok, ?_⟩
  generalize (t.lower p).proc = q at hinsert ⊢
  obtain ⟨w, hw⟩ := exists_wide hthumb
  refine ⟨w, hw, fun k => ?_⟩
  obtain ⟨m, hgrown, -, hwalks⟩ :=
    exists_grows_of_insertFrame (c := t.planned p) hw hlayout hinsert
  have hlines : (t.planned p).lines k = p.lines k := by
    rw [Procedure.lines, Procedure.lines, blocks_planned]
  have hgrows := hgrown.lines k
  rw [hlines, fresh_planned] at hgrows
  cases hb : p.blocks[k]? with
  | none =>
    have hbeyond : q.blocks[k]? = none := by
      rw [List.getElem?_eq_none_iff] at hb ⊢
      rwa [hwalks.length, hgrown.length, blocks_planned]
    rw [Procedure.lines, Procedure.lines, hb, hbeyond]
    exact .nil
  | some b =>
    have hmem := List.mem_of_getElem? hb
    have hk : k < m.blocks.length := by
      rw [hgrown.length, blocks_planned]
      exact (List.getElem?_eq_some_iff.1 hb).1
    obtain ⟨n, spAdj, ps, hn, hwalk, hblock⟩ :=
      hwalks.walks k (List.mem_range.2 hk) _ (List.getElem?_eq_getElem hk)
    have hm : m.lines k = (m.blocks[k]).lines := by
      rw [Procedure.lines, List.getElem?_eq_getElem hk]
    rw [← hm] at hwalk
    have hp : p.lines k = b.lines := by rw [Procedure.lines, hb]
    -- before the walk the old lines are all there, with the markers
    have hbefore : (m.lines k).filter (fun l => !l.inst.op.isMarker && l.label < p.fresh) =
        (p.lines k).filter fun l => !l.inst.op.isMarker := by
      rw [hgrows.filter_eq _ fun l _ hl => by simp [hl], hp]
      refine List.filter_congr fun l hl => ?_
      simp [hold b hmem l hl]
    have hafter : (q.lines k).filter (fun l => l.label < p.fresh) =
        (ps.filterMap Piece.line?).filter fun l => l.label < p.fresh := by
      rw [Procedure.lines, hblock]
      refine Piece.filter_number (Nat.le_trans ?_ hn) ps
      rw [← fresh_planned t p]
      exact hgrown.fresh
    rw [← hbefore, hafter]
    refine hwalk.keeps fun l hl hlabel => ?_
    -- inserted lines have new labels
    have hin : l ∈ (m.lines k).filter fun l => l.label < p.fresh := by simp [hl, hlabel]
    rw [hgrows.filter_eq _ fun l _ hl => by simp [hl], hp] at hin
    exact hplace b hmem l (List.mem_of_mem_filter hin)

/-- A function in which a call frame is set up around accesses of an object. -/
def accessesAcrossCall : Procedure where
  name := "f"
  blocks := [{ lines := Line.number 0 [
    .make .callFrameDown [.imm 8, .cond .al, .use .noreg],
    .make .addri [.use (.core 0), .frameIndex 0, .imm (-8), .cond ⟨1⟩, .use (.core 3)],
    .make .inlineAsm [.use (.core 1), .imm 7, .frameIndex 0, .use .noreg, .imm 0],
    .make .movr [.use (.core 1), .use (.core 2), .cond .al, .use .noreg],
    .make .str [.use (.core 0), .frameIndex 0, .use (.core 1), .imm 2, .cond .al, .use .noreg],
    .make .callFrameUp [.imm 8, .imm 0, .cond .al, .use .noreg],
    .make .bxRet [.cond .al, .use .noreg]] }]
  frame := { objects := [{ size := 5000, align := 8 }] }
  fresh := 7

theorem keeps_of_lower_accessesAcrossCall :
    (plainDefault.lower accessesAcrossCall).failure = none ∧ ∃ w, plainDefault.wide? = some w ∧
      List.Forall₂ (Line.Keeps w)
        ((accessesAcrossCall.lines 0).filter fun l => !l.inst.op.isMarker)
        (((plainDefault.lower accessesAcrossCall).proc.lines 0).filter fun l => l.label < 7) := by
  have hok : (plainDefault.lower accessesAcrossCall).failure = none := by decide +kernel
  have hold : ∀ b ∈ accessesAcrossCall.blocks, ∀ l ∈ b.lines, l.label < 7 := by decide
  have hplace : ∀ b ∈ accessesAcrossCall.blocks, ∀ l ∈ b.lines,
      ∀ n ∈ l.inst.frameIndexAt, n = 1 ∨ l.inst.info.flags.isAsm := by decide
  obtain ⟨-, w, hw, hkeeps⟩ := keeps_of_lower hold hplace hok
  exact ⟨hok, w, hw, hkeeps 0⟩

end Target

end FrameLowering
