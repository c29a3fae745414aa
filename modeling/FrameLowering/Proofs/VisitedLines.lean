import FrameLowering.Proofs.CallFrameTracking

/-!
# What stands for a line that the walk has visited

The elimination walk starts from a function with its prologue and its epilogues inserted
(`Target.prepared?`). It comes to every line of it, and puts instructions before and after those
with a frame index. `Target.Expanded` says where in a lowered block the expansion of a line is, by
the visit of the walk that has made it. Every line of a lowered block that had a frame index is in
such an expansion (`Target.exists_expanded`).
-/

namespace FrameLowering

/-! ## Lines among pieces -/

namespace Piece

/-- A line with an old label is one of the pieces. -/
theorem exists_of_number {n : Nat} {ps : List Piece} {xs ys : List Line} {l : Line}
    (h : (number n ps).1 = xs ++ l :: ys) (hl : l.label < n) :
    ∃ qs rs, ps = qs ++ .line l :: rs ∧ xs = (number n qs).1 ∧
      ys = (number (number n qs).2 rs).1 := by
  induction ps generalizing n xs with
  | nil => exact absurd h.symm (by simp [number])
  | cons q ps ih =>
    cases q with
    | line m =>
      change m :: (number n ps).1 = xs ++ l :: ys at h
      cases xs with
      | nil =>
        obtain ⟨rfl, rfl⟩ := List.cons.inj h
        exact ⟨[], ps, rfl, rfl, rfl⟩
      | cons x xs =>
        obtain ⟨rfl, hrest⟩ := List.cons.inj h
        obtain ⟨qs, rs, rfl, rfl, rfl⟩ := ih hrest hl
        exact ⟨.line m :: qs, rs, rfl, rfl, rfl⟩
    | fresh i =>
      change ⟨n, i⟩ :: (number (n + 1) ps).1 = xs ++ l :: ys at h
      cases xs with
      | nil =>
        obtain ⟨rfl, -⟩ := List.cons.inj h
        exact absurd hl (Nat.lt_irrefl n)
      | cons x xs =>
        obtain ⟨rfl, hrest⟩ := List.cons.inj h
        obtain ⟨qs, rs, rfl, rfl, rfl⟩ := ih hrest (Nat.lt_succ_of_lt hl)
        exact ⟨.fresh i :: qs, rs, rfl, rfl, rfl⟩

/-- New instructions are passed before a line is come to. -/
theorem exists_of_fresh_append {is : List Inst} {ps qs rs : List Piece} {l : Line}
    (h : is.map fresh ++ ps = qs ++ .line l :: rs) :
    ∃ qs', qs = is.map fresh ++ qs' ∧ ps = qs' ++ .line l :: rs := by
  induction is generalizing qs with
  | nil => exact ⟨qs, rfl, h⟩
  | cons i is ih =>
    cases qs with
    | nil => cases (List.cons.inj h).1
    | cons q qs =>
      obtain ⟨rfl, hrest⟩ := List.cons.inj h
      obtain ⟨qs', rfl, hps⟩ := ih hrest
      exact ⟨qs', rfl, hps⟩

end Piece

namespace Target

/-- What the line is expanded to that the walk comes to. -/
def expansion (t : Target) (k : Nat) (v : Visit) : Expansion :=
  t.expand v.function k v.line.inst (v.after.map Line.inst) v.spAdj t.config.scavenging

section
variable {t : Target} {p : Procedure} {k : Nat} {spAdj spAdj' : Int64} {ls rest : List Line}
  {qs rs : List Piece} {l : Line}

/-- A line among the pieces of a walk is one that the walk has come to. If it had a frame index, its
expansion is around it. -/
theorem GetsPast.exists_visit (h : t.GetsPast p k rest spAdj ls spAdj' (qs ++ .line l :: rs)) :
    ∃ v : Visit, v.function = p ∧ ls ++ rest = v.before ++ v.line :: v.after ∧
      t.GetsPast p k (v.line :: v.after) spAdj v.before v.spAdj v.pieces ∧
      v.line.label = l.label ∧ (v.line.inst.frameIndexAt.isSome → (t.expansion k v).failure = none ∧
        qs = v.pieces ++ (t.expansion k v).before.map .fresh ∧ l.inst = (t.expansion k v).inst ∧
        ∃ rs', rs = (t.expansion k v).after.map .fresh ++ rs') := by
  generalize hps : qs ++ .line l :: rs = ps at h
  induction h generalizing qs with
  | nil => exact absurd hps (by simp)
  | @marker _ _ x _ m _ hop hm _ ih =>
    obtain ⟨qs, rfl, hrest⟩ := Piece.exists_of_fresh_append hps.symm
    obtain ⟨v, hfunction, hsplit, hpast, hlabel, hexpand⟩ := ih hrest.symm
    refine ⟨{ v with before := x :: v.before, pieces := m.insts.map .fresh ++ v.pieces }, hfunction,
      congrArg (x :: ·) hsplit, .marker hop hm hpast, hlabel, fun hplace => ?_⟩
    obtain ⟨hfine, hqs, hinst, hrs⟩ := hexpand hplace
    exact ⟨hfine, by rw [hqs, List.append_assoc]; rfl, hinst, hrs⟩
  | @plain start _ x ls _ hop hnone _ ih =>
    cases qs with
    | nil =>
      obtain ⟨hl, rfl⟩ := List.cons.inj hps
      obtain rfl : l = x := Piece.line.inj hl
      refine ⟨⟨p, [], l, ls ++ rest, [], start⟩, rfl, rfl, .nil, rfl, fun hplace => ?_⟩
      rw [Option.isNone_iff_eq_none.1 hnone] at hplace
      cases hplace
    | cons q qs =>
      obtain ⟨rfl, hrest⟩ := List.cons.inj hps
      obtain ⟨v, hfunction, hsplit, hpast, hlabel, hexpand⟩ := ih hrest
      refine ⟨{ v with before := x :: v.before, pieces := .line x :: v.pieces }, hfunction,
        congrArg (x :: ·) hsplit, .plain hop hnone hpast, hlabel, fun hplace => ?_⟩
      obtain ⟨hfine, hqs, hinst, hrs⟩ := hexpand hplace
      exact ⟨hfine, by rw [hqs]; rfl, hinst, hrs⟩
  | @expand start _ x ls e ps hop hsome he hok _ ih =>
    rw [Expansion.pieces, List.append_assoc] at hps
    obtain ⟨qs, rfl, hrest⟩ := Piece.exists_of_fresh_append hps.symm
    cases qs with
    | nil =>
      -- this is the line
      obtain ⟨hl, hafter⟩ := List.cons.inj hrest
      obtain rfl : { x with inst := e.inst } = l := Piece.line.inj hl
      have hthis : t.expansion k ⟨p, [], x, ls ++ rest, [], start⟩ = e := he
      refine ⟨⟨p, [], x, ls ++ rest, [], start⟩, rfl, rfl, .nil, rfl, fun _ => ?_⟩
      rw [hthis]
      exact ⟨hok, by simp, rfl, ps, hafter.symm⟩
    | cons q qs =>
      obtain ⟨rfl, hbeyond⟩ := List.cons.inj hrest
      obtain ⟨qs, rfl, hlater⟩ := Piece.exists_of_fresh_append hbeyond
      obtain ⟨v, hfunction, hsplit, hpast, hlabel, hexpand⟩ := ih hlater.symm
      rw [hsplit] at he
      refine ⟨{ v with before := x :: v.before, pieces := e.pieces x ++ v.pieces }, hfunction,
        congrArg (x :: ·) hsplit, .expand hop hsome he hok hpast, hlabel, fun hplace => ?_⟩
      obtain ⟨hfine, hqs, hinst, hrs⟩ := hexpand hplace
      refine ⟨hfine, ?_, hinst, hrs⟩
      rw [hqs, Expansion.pieces]
      simp only [List.append_assoc, List.cons_append]
      rfl

/-- A walk that gets through a block, with all of its pieces. -/
theorem getsPast_walkLines (hok : (t.walkLines p k spAdj ls).failure = none) :
    ∃ spAdj', t.GetsPast p k [] spAdj ls spAdj' (t.walkLines p k spAdj ls).pieces := by
  rw [← List.append_nil ls] at hok
  obtain ⟨spAdj', ps, h⟩ := exists_getsPast hok
  have hpieces : (t.walkLines p k spAdj ls).pieces = ps := by
    have hwalk := h.walkLines_eq
    rw [List.append_nil] at hwalk
    rw [hwalk]
    exact List.append_nil ps
  exact ⟨spAdj', hpieces ▸ h⟩

end

/-! ## The function that the walk starts from -/

/-- What an operation makes of a function, if it succeeds. -/
def result? (x : Lowering Unit) (p : Procedure) : Option Procedure :=
  match x p with
  | .ok _ q => some q
  | .error _ _ => none

/-- The function as it is when its frame indices are to be replaced. -/
def prepared? (t : Target) (p : Procedure) : Option Procedure :=
  result? (do t.computeLayout; t.emitFrame) (t.insertSpillCode (t.planned p))

section
variable {t : Target} {w : WideSet} {p q m : Procedure} {k : Nat}

theorem result?_eq_some_iff {x : Lowering Unit} : result? x p = some q ↔ x p = .ok () q := by
  rw [result?]
  cases x p with
  | ok _ r => simp
  | error f r => simp

theorem prepared?_cases (h : t.prepared? p = some m) :
    ∃ g m₀, t.computeLayout (t.insertSpillCode (t.planned p)) = .ok () g ∧
      t.emitPrologue g = .ok () m₀ ∧
      t.emitEpilogues (List.range m₀.blocks.length) m₀ = .ok () m := by
  obtain ⟨_, g, hlayout, hframe⟩ := Lowering.of_bind (result?_eq_some_iff.1 h)
  obtain ⟨m₀, hprologue, hepilogues⟩ := emitFrame_cases hframe
  exact ⟨g, m₀, hlayout, hprologue, hepilogues⟩

/-- The walk of `lower` starts from that function. -/
theorem exists_prepared_of_lower (hok : (t.lower p).failure = none) :
    ∃ m, t.prepared? p = some m ∧ t.replaceFrameIndices m = .ok () (t.lower p).proc := by
  obtain ⟨-, -, -, g, hlayout, hinsert⟩ := lower_cases hok
  obtain ⟨_, m, hframe, hwalk⟩ := Lowering.of_bind hinsert
  refine ⟨m, result?_eq_some_iff.2 ?_, hwalk⟩
  change t.computeLayout (t.insertSpillCode (t.planned p)) = .ok () g at hlayout
  simp only [bind, EStateM.bind, hlayout]
  exact hframe

/-- It has its old lines between a prologue and its epilogues. -/
theorem framed_of_prepared (h : t.prepared? p = some m) (hw : t.wide? = some w)
    (hp : p.IsUnframed) :
    Procedure.Framed p.fresh (t.prologueCode w m) (fun _ => t.epilogueCode w m) p m := by
  obtain ⟨g, m₀, hlayout, hprologue, hepilogues⟩ := prepared?_cases h
  obtain ⟨c, layout, -, -, -, -, -, -, -, hframed⟩ :=
    framed_of_stages hp (thumb1Only_of_wide hw) hw hlayout hprologue hepilogues
  exact hframed

/-- A line with an old label is a line of the block before. If it does not return it is in the body,
with nothing but the prologue before the lines that are before it. -/
theorem split_of_framed {first : Nat} {head : List Inst} {tail : Nat → List Inst} {l : Line}
    {before after : List Line} (h : Procedure.Framed first head tail p q)
    (hlines : q.lines k = before ++ l :: after) (hold : l.label < first) :
    ∃ b as, p.blocks[k]? = some b ∧ l ∈ b.lines ∧
      Line.IsNew first (if k = 0 then head else []) as ∧
      (l.inst.isReturn = false → ∃ ls rest, before = as ++ ls ∧ b.body = ls ++ l :: rest) := by
  have hk : k < p.blocks.length := h.length ▸ lt_length_of_lines hlines
  obtain ⟨as, es, has, hes, hblock⟩ := h.block k _ (List.getElem?_eq_getElem hk)
  refine ⟨p.blocks[k], as, List.getElem?_eq_getElem hk, ?_⟩
  rw [Procedure.lines, hblock] at hlines
  simp only [List.append_assoc] at hlines
  rcases append_eq_append_cons hlines with ⟨rest, rfl, -⟩ | ⟨ls, rfl, hrest⟩
  · exact absurd (has.2 l (List.mem_append_right _ List.mem_cons_self)) (Nat.not_le.2 hold)
  rcases append_eq_append_cons hrest with ⟨rest, hbody, -⟩ | ⟨more, -, hrest⟩
  · refine ⟨Block.mem_body ?_, has, fun _ => ⟨ls, rest, rfl, hbody⟩⟩
    rw [hbody]
    exact List.mem_append_right _ List.mem_cons_self
  rcases append_eq_append_cons hrest with ⟨rest, rfl, -⟩ | ⟨_, -, hexit⟩
  · exact absurd (hes.2 l (List.mem_append_right _ List.mem_cons_self)) (Nat.not_le.2 hold)
  · have hmem : l ∈ p.blocks[k].exit := hexit ▸ List.mem_append_right _ List.mem_cons_self
    refine ⟨?_, has, fun hreturn => ?_⟩
    · rw [← Block.body_append_exit]
      exact List.mem_append_right _ hmem
    · rw [Block.isReturn_of_mem_exit hmem] at hreturn
      cases hreturn

end

/-! ## The expansion of a line in a lowered block -/

/-- A block of a lowered function around a line that the walk has come to: `front` is what stands
for the lines before it, then come the instructions that are put before it, the line itself, and the
instructions that are put after it. -/
structure Expanded (t : Target) (p : Procedure) (k : Nat) (v : Visit) (front before : List Line)
    (l : Line) (after back : List Line) : Prop where
  visited : ∃ m, t.prepared? p = some m ∧ t.Visits m k v
  fine : (t.expansion k v).failure = none
  lines : (t.lower p).proc.lines k = front ++ (before ++ l :: (after ++ back))
  fresh : p.fresh ≤ v.function.fresh
  passed : front = (Piece.number v.function.fresh v.pieces).1
  before : before.map Line.inst = (t.expansion k v).before
  label : l.label = v.line.label
  inst : l.inst = (t.expansion k v).inst
  after : after.map Line.inst = (t.expansion k v).after

section
variable {t : Target} {p : Procedure} {k : Nat} {l m : Line} {xs ys : List Line}

/-- Every line of a lowered block that had a frame index is in the expansion that the walk has made
for it. -/
theorem exists_expanded (hp : p.IsFresh) (hok : (t.lower p).failure = none)
    (hlines : (t.lower p).proc.lines k = xs ++ l :: ys) (hm : m ∈ p.allLines)
    (hlabel : m.label = l.label) (hplace : m.inst.frameIndexAt.isSome) :
    ∃ v front before after back, v.line = m ∧ t.Expanded p k v front before l after back ∧
      xs = front ++ before ∧ ys = after ++ back := by
  obtain ⟨hthumb, -⟩ := lower_cases hok
  obtain ⟨w, hw⟩ := exists_wide hthumb
  obtain ⟨r, hprepared, hreplace⟩ := exists_prepared_of_lower hok
  have hframed := framed_of_prepared hprepared hw hp.toIsUnframed
  have hk : k < p.blocks.length := by
    rw [← length_of_lower hok]
    exact lt_length_of_lines hlines
  obtain ⟨f, hreached, hfresh, hfine, hnumber⟩ :=
    exists_walkLines hw hreplace (hframed.length ▸ hk)
  -- the line is one of the pieces, since its label is old
  obtain ⟨b, hb, hmb⟩ := List.mem_flatMap.1 hm
  have hold : l.label < p.fresh := hlabel ▸ hp.old b hb m hmb
  have hle : p.fresh ≤ f.fresh := hframed.fresh.trans hfresh
  obtain ⟨qs, rs, hps, rfl, rfl⟩ :=
    Piece.exists_of_number (hnumber.symm.trans hlines) (Nat.lt_of_lt_of_le hold hle)
  obtain ⟨spAdj, hpast⟩ := getsPast_walkLines hfine
  rw [hps] at hpast
  obtain ⟨v, rfl, hsplit, hbefore, hsame, hexpand⟩ := hpast.exists_visit
  rw [List.append_nil] at hsplit
  obtain rfl : v.line = m := by
    obtain ⟨b, -, hb, hmem, -⟩ := split_of_framed hframed hsplit (hsame ▸ hold)
    refine eq_of_label hp _ ?_ m hm (hsame.trans hlabel.symm)
    exact List.mem_flatMap.2 ⟨b, List.mem_of_getElem? hb, hmem⟩
  obtain ⟨hdone, rfl, hinst, rs', rfl⟩ := hexpand hplace
  rw [Piece.number_append, Piece.number_append] at hlines ⊢
  refine ⟨v, _, _, _, _, rfl, ?_, rfl, rfl⟩
  exact {
    visited := ⟨r, hprepared, hreached, hsplit, hbefore⟩
    fine := hdone
    lines := by rw [hlines, List.append_assoc]
    fresh := hle
    passed := rfl
    before := Piece.map_inst_number_fresh _ _
    label := hsame.symm
    inst := hinst
    after := Piece.map_inst_number_fresh _ _ }

variable {w : WideSet} {v : Visit} {front before after back : List Line}

/-- The walk changes nothing but the blocks, before it comes to the line and after. -/
theorem Expanded.shape (h : t.Expanded p k v front before l after back) (hw : t.wide? = some w)
    (hok : (t.lower p).failure = none) : ∃ m, t.prepared? p = some m ∧ t.Visits m k v ∧
      (∃ blocks fresh, v.function = { m with blocks, fresh }) ∧
      ∃ blocks fresh, (t.lower p).proc = { m with blocks, fresh } := by
  obtain ⟨m, hprepared, hv⟩ := h.visited
  obtain ⟨m', hprepared', hreplace⟩ := exists_prepared_of_lower hok
  obtain rfl := Option.some.inj (hprepared.symm.trans hprepared')
  refine ⟨m, hprepared, hv, (hv.shape hw).1, ?_⟩
  exact (walksBlocks_walkBlocks hw List.nodup_range hreplace).shape

theorem Expanded.expands (h : t.Expanded p k v front before l after back) (hw : t.wide? = some w)
    (hok : (t.lower p).failure = none) :
    Expands t w (t.lower p).proc k v.line.inst v.spAdj (t.expansion k v) := by
  obtain ⟨m, -, -, ⟨_, _, hfunction⟩, blocks, fresh, hlowered⟩ := h.shape hw hok
  have hq : (t.lower p).proc = { v.function with blocks, fresh } := by rw [hlowered, hfunction]
  rw [hq]
  exact (expands_of_expand hw rfl h.fine).congr

/-- The lines that the walk has passed before it are the prologue, in the entry block, and then
lines of the body. -/
theorem Expanded.exists_walks (h : t.Expanded p k v front before l after back)
    (hw : t.wide? = some w) (hok : (t.lower p).failure = none) (hp : p.IsFresh)
    (hmem : v.line ∈ p.allLines) :
    ∃ as b ls spAdj head body,
      Line.IsNew p.fresh (if k = 0 then t.prologueCode w (t.lower p).proc else []) as ∧
      b ∈ p.blocks ∧ ls ⊆ b.body ∧ Walks t w (t.lower p).proc k 0 as spAdj head ∧
      Walks t w (t.lower p).proc k spAdj ls v.spAdj body ∧ v.pieces = head ++ body := by
  obtain ⟨m, hprepared, hv, ⟨_, _, hfunction⟩, blocks, fresh, hlowered⟩ := h.shape hw hok
  have hreturn := (h.expands hw hok).isReturn
  obtain ⟨b', hb', hline⟩ := List.mem_flatMap.1 hmem
  obtain ⟨b, as, hb, -, has, hbody⟩ := split_of_framed
    (framed_of_prepared hprepared hw hp.toIsUnframed) hv.lines (hp.old b' hb' _ hline)
  obtain ⟨ls, rest, hbefore, hls⟩ := hbody hreturn
  have hpast := hv.past.walks hw
  rw [hbefore, hfunction] at hpast
  obtain ⟨spAdj, head, body, hhead, hlater, hpieces⟩ := hpast.append_inv
  rw [hlowered]
  refine ⟨as, b, ls, spAdj, head, body, has, List.mem_of_getElem? hb, ?_, hhead.congr, hlater.congr,
    hpieces⟩
  rw [hls]
  exact List.subset_append_left ls _

end

end Target

end FrameLowering
