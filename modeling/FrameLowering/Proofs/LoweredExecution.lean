import FrameLowering.Proofs.LoweredFrame
import FrameLowering.Proofs.ScratchLiveness

/-!
# Execution of a lowered function

A block of a lowered function is the prologue, if it is the first, then what became of its old
lines, and the epilogue before a return. Each part leads to the state in which the next can run,
so that a watch on the old lines holds in every run of the function
(`Target.Lowers.lines_of_reaches`). From this follows what a caller can rely on: at every return the
stack pointer and the callee-saved registers are what they were on entry
(`Target.restores_of_reaches`).
-/

namespace FrameLowering

open Relation

namespace Block

theorem mem_body {b : Block} {l : Line} (h : l ∈ b.body) : l ∈ b.lines := by
  rw [← b.body_append_exit]
  exact List.mem_append_left _ h

/-- Where returns come last, there is none in the body of a block. -/
theorem isReturn_of_mem_body {b : Block} {l : Line}
    (hlast : ∀ l ∈ b.lines.dropLast, l.inst.isReturn = false) (h : l ∈ b.body) :
    l.inst.isReturn = false := by
  rw [body] at h
  split at h
  · exact hlast l h
  · next hreturn =>
    rw [isReturn] at hreturn
    cases hl : b.lines.getLast? with
    | none =>
      rw [List.getLast?_eq_none_iff.1 hl] at h
      exact absurd h List.not_mem_nil
    | some m =>
      obtain ⟨ls, hls⟩ := List.getLast?_eq_some_iff.1 hl
      rw [hls, List.dropLast_concat] at hlast
      rw [hls] at h
      rcases List.mem_append.1 h with h | h
      · exact hlast l h
      · obtain rfl := List.mem_singleton.1 h
        simpa [hl] using hreturn

end Block

/-- Nothing comes after a return. -/
theorem Inst.not_acts_of_isReturn {i : Inst} {s s' : State} (h : i.isReturn) : ¬ i.Acts s s' := by
  obtain ⟨op, os⟩ := i
  cases op
  case bxRet | tbxRet => exact id
  all_goals exact absurd h Bool.false_ne_true

/-- All lines of a function. -/
def Procedure.allLines (p : Procedure) : List Line :=
  p.blocks.flatMap Block.lines

namespace Target

section
variable {t : Target} {w : WideSet} {p q : Procedure} {first : Nat} {entry s : State}
  {guarded : Prop}

/-- Markers are no returns. -/
theorem isMarker_of_isReturn {i : Inst} (h : i.isReturn) : i.op.isMarker = false := by
  revert h
  show i.op.info.flags.isReturn = true → i.op.isMarker = false
  cases i.op <;> decide

/-- The return at the end of a block does not count as a marker. -/
theorem balanced_body {b : Block} (h : (setupSizes b.lines).Perm (destroySizes b.lines)) :
    (setupSizes b.body).Perm (destroySizes b.body) := by
  by_cases hreturn : b.isReturn
  · obtain ⟨l, -, hl, hlines⟩ := Block.exit_of_isReturn hreturn
    have hmarker : (l.inst.info.flags.isSetup || l.inst.info.flags.isDestroy) = false :=
      isMarker_of_isReturn hl
    obtain ⟨hsetup, hdestroy⟩ := Bool.or_eq_false_iff.1 hmarker
    rw [hlines] at h
    simpa [setupSizes, destroySizes, List.filter_append, hsetup, hdestroy] using h
  · rw [Block.body, if_neg hreturn]
    exact h

/-- A return has no frame index that could be eliminated. -/
theorem Expands.isReturn {block : Nat} {i : Inst} {spAdj : Int64} {e : Expansion}
    (h : Expands t w p block i spAdj e) : i.isReturn = false := by
  obtain ⟨r, hr⟩ := h.rebase
  obtain ⟨_, _, _, -, -, -, -, -, hfold, -, -⟩ := rebase_cases hr
  exact (flags_of_fold hfold).1

/-- A walk leaves the return at the end of a block as it is. -/
theorem Walks.of_exit {block : Nat} {b : Block} {spAdj spAdj' : Int64} {ps : List Piece}
    (h : Walks t w q block spAdj b.exit spAdj' ps) (hreturn : b.isReturn) :
    ∃ l ∈ b.lines, b.exit = [l] ∧ l.inst.isReturn ∧ l.inst.frameIndexAt = none ∧
      ps = [.line l] := by
  obtain ⟨l, hexit, hl, hlines⟩ := Block.exit_of_isReturn hreturn
  rw [hexit] at h
  cases h with
  | marker hop =>
    rw [isMarker_of_isReturn hl] at hop
    cases hop
  | expand _ he =>
    rw [he.isReturn] at hl
    cases hl
  | plain _ hplace hnil =>
    cases hnil
    refine ⟨l, ?_, hexit, hl, hplace, rfl⟩
    rw [hlines]
    exact List.mem_append_right _ List.mem_cons_self

/-- A return is met in the state that was prepared for it, and ends the run. -/
theorem pieces_of_exit {block : Nat} {b : Block} {spAdj spAdj' : Int64} {ps : List Piece}
    {post : State → Prop} (hreturn : b.isReturn)
    (halways : ∀ l ∈ b.lines, l.inst.isReturn → l.inst.predicate.1 = Cond.al)
    (h : Walks t w q block spAdj b.exit spAdj' ps) (hs : guarded → t.Restores entry s) :
    (t.watch q entry first guarded).Pieces post ps s := by
  obtain ⟨l, hmem, -, hl, -, rfl⟩ := h.of_exit hreturn
  refine ⟨fun hg _ => hs hg, fun s' heff _ => ?_⟩
  -- an unconditional return has no effect, so that nothing is left to show after it
  have hacts := (Inst.effect_iff_acts (halways l hmem hl)).1 heff
  exact absurd hacts (Inst.not_acts_of_isReturn hl)

end

section
variable {t : Target} {w : WideSet} {p q : Procedure} {entry s : State} {guarded : Prop}

/-- Nothing is expected of lines that do not return. -/
theorem passesNew_watch (t : Target) (q : Procedure) (entry : State) (guarded : Prop)
    (first : Nat) : (t.watch q entry first guarded).PassesNew first :=
  fun _ _ _ hreturn _ h => absurd h (by simp [hreturn])

theorem eq_of_label (hp : p.IsFresh) :
    ∀ m ∈ p.allLines, ∀ m' ∈ p.allLines, m.label = m'.label → m = m' :=
  fun _ hm _ hm' => List.inj_on_of_nodup_map hp.unique hm hm'

/-- The lines in the body of a block. -/
theorem Lowers.isBodyLine (h : t.Lowers w p q) (hp : p.IsBuilt) {b : Block} {l : Line}
    (hb : b ∈ p.blocks) (hl : l ∈ b.body) : t.IsBodyLine q p.fresh l := by
  have hmem := Block.mem_body hl
  refine ⟨hp.old b hb l hmem, Block.isReturn_of_mem_body (hp.last b hb) hl, ?_,
    hp.markers b hb l hmem⟩
  exact h.spares _ (List.mem_flatMap.2 ⟨b, hb, List.mem_map_of_mem hmem⟩)

/-- A block is entered in the state in which bodies run; the first has to make it. -/
def Enters (t : Target) (q : Procedure) (entry : State) (guarded : Prop) (k : Nat) (s : State) :
    Prop :=
  if k = 0 then s = entry else t.Steady q entry guarded [] 0 s

/-- The start of a block. -/
theorem pieces_of_head {k : Nat} {as : List Line} {spAdj : Int64} {ps : List Piece}
    (hw : t.wide? = some w) (hframe : t.HasFrame q)
    (has : Line.IsNew p.fresh (if k = 0 then t.prologueCode w q else []) as)
    (hwalk : Walks t w q k 0 as spAdj ps) (hs : t.Enters q entry guarded k s) :
    spAdj = 0 ∧ (t.watch q entry p.fresh guarded).Pieces (t.Steady q entry guarded [] 0) ps s := by
  rw [Enters] at hs
  split at has
  · next hk =>
    rw [if_pos hk] at hs
    have hmeets : Meets t w q (t.watch q entry p.fresh guarded) p.fresh
        (t.prologueCode w q) (fun s => s = entry)
        (fun s => t.Located q entry 0 s ∧ t.Preserves q entry [] s) :=
      meets_prologue hw (t.passesNew_watch q entry guarded p.fresh) hframe
    refine ⟨hmeets.spAdj_eq has hwalk, ?_⟩
    refine (hmeets.pieces k as spAdj ps s has hwalk hs).mono fun s' hs' => ?_
    exact ⟨hs'.1, fun _ => hs'.2⟩
  · next hk =>
    rw [if_neg hk] at hs
    obtain rfl := List.map_eq_nil_iff.1 has.1
    cases hwalk
    exact ⟨rfl, hs⟩

/-- The end of a block: the caller's state is back at a return, and without one nothing has
changed. -/
theorem pieces_of_tail {k : Nat} {b : Block} {es : List Line} {spAdj : Int64} {ps : List Piece}
    (hw : t.wide? = some w) (hp : p.IsBuilt) (hframe : t.HasFrame q) (hb : b ∈ p.blocks)
    (hes : Line.IsNew p.fresh (if b.isReturn then t.epilogueCode w q else []) es)
    (hwalk : Walks t w q k 0 (es ++ b.exit) spAdj ps) (hs : t.Steady q entry guarded [] 0 s) :
    (t.watch q entry p.fresh guarded).Pieces (t.Steady q entry guarded [] 0) ps s := by
  by_cases hreturn : b.isReturn
  · rw [if_pos hreturn] at hes
    obtain ⟨mid, qs, rs, hqs, hrs, rfl⟩ := hwalk.append_inv
    have hmeets : Meets t w q (t.watch q entry p.fresh guarded) p.fresh
        (t.epilogueCode w q) (t.Steady q entry guarded [] 0) (fun s => guarded → t.Restores entry s) :=
      meets_epilogue hw (t.passesNew_watch q entry guarded p.fresh) hframe
    refine Watch.Pieces.append ((hmeets.pieces k es mid qs s hes hqs hs).mono fun s' hs' => ?_)
    exact pieces_of_exit hreturn (hp.returns b hb) hrs hs'
  · rw [if_neg hreturn] at hes
    obtain rfl := List.map_eq_nil_iff.1 hes.1
    rw [Block.exit, if_neg hreturn] at hwalk
    cases hwalk
    exact hs

/-- A block from its start to its end. -/
theorem Lowers.lines (h : t.Lowers w p q) (hw : t.wide? = some w) (hp : p.IsBuilt)
    (hslots : guarded → t.HasSlots q entry) {k : Nat} {b : Block} (hb : p.blocks[k]? = some b)
    (hs : t.Enters q entry guarded k s) :
    ∃ c, q.blocks[k]? = some c ∧ c.successors = b.successors ∧
      (t.watch q entry p.fresh guarded).Lines (t.Steady q entry guarded [] 0) c.lines s := by
  obtain ⟨as, es, n, spAdj, ps, has, hes, hn, hwalk, hblock⟩ := h.block k b hb
  have hmem := List.mem_of_getElem? hb
  refine ⟨_, hblock, rfl, Watch.lines_number (t.passesNew_watch q entry guarded p.fresh) hn ?_⟩
  -- the walk went through the prologue, the body and the end of the block, one after the other
  rw [List.append_assoc, List.append_assoc] at hwalk
  obtain ⟨_, head, rest, hhead, hrest, rfl⟩ := hwalk.append_inv
  obtain ⟨_, body, tail, hbody, htail, rfl⟩ := hrest.append_inv
  obtain ⟨rfl, hstart⟩ := pieces_of_head hw h.frame has hhead hs
  -- markers are in balance, so that blocks hand over the stack pointer as they found it
  obtain rfl := hbody.spAdj_of_balanced hw (balanced_body (hp.balanced b hmem))
  refine Watch.Pieces.append (hstart.mono fun s₁ hs₁ => Watch.Pieces.append ?_)
  have hmiddle := pieces_of_walks hw hbody (fun l hl => h.isBodyLine hp hmem hl) h.frame.laid hslots
    hs₁
  exact hmiddle.mono fun s₂ hs₂ => pieces_of_tail hw hp h.frame hmem hes htail hs₂

/-- Every block comes from one before lowering. -/
theorem Lowers.exists_block (h : t.Lowers w p q) {k : Nat} {m : Block}
    (hm : q.blocks[k]? = some m) : ∃ b, p.blocks[k]? = some b := by
  have hlt := (List.getElem?_eq_some_iff.1 hm).1
  rw [h.length] at hlt
  exact ⟨_, List.getElem?_eq_getElem hlt⟩

/-- Still no block leads to the entry. -/
theorem Lowers.zero_notMem (h : t.Lowers w p q) (hp : p.IsFresh) {m : Block} (hm : m ∈ q.blocks) :
    0 ∉ m.successors := by
  obtain ⟨k, hk⟩ := List.getElem?_of_mem hm
  obtain ⟨b, hb⟩ := h.exists_block hk
  obtain ⟨_, _, _, _, _, -, -, -, -, hblock⟩ := h.block k b hb
  obtain rfl := Option.some.inj (hk.symm.trans hblock)
  exact hp.entry b (List.mem_of_getElem? hb)

/-- In every run of a lowered function, every line is met as is expected of it. -/
theorem Lowers.lines_of_reaches (h : t.Lowers w p q) (hw : t.wide? = some w) (hp : p.IsBuilt)
    (hblocks : p.blocks ≠ []) (hslots : guarded → t.HasSlots q entry) {c : Point}
    (hreach : Reaches q (t.watch q entry p.fresh guarded).allowed entry c) :
    (t.watch q entry p.fresh guarded).Lines (t.Steady q entry guarded [] 0) c.rest c.state := by
  refine Watch.expected_of_reaches ?_ (fun k m s hk hm hs => ?_)
    (fun m hm => h.zero_notMem hp.toIsFresh hm) hreach
  · -- only the entry block starts in the state on entry
    obtain ⟨b, bs, hcons⟩ := List.exists_cons_of_ne_nil hblocks
    have hb : p.blocks[0]? = some b := by rw [hcons]; rfl
    have hs : t.Enters q entry guarded 0 entry := by rw [Enters, if_pos rfl]
    obtain ⟨m, hm, -, hlines⟩ := h.lines hw hp hslots hb hs
    rw [Procedure.lines, hm]
    exact hlines
  · obtain ⟨b, hb⟩ := h.exists_block hm
    have hs : t.Enters q entry guarded k s := by
      rw [Enters, if_neg hk]
      exact hs
    obtain ⟨m', hm', -, hlines⟩ := h.lines hw hp hslots hb hs
    obtain rfl := Option.some.inj (hm.symm.trans hm')
    exact hlines

/-- A run comes to the start of a block in the state in which the block is to be entered. -/
theorem Lowers.enters_of_reaches (h : t.Lowers w p q) (hw : t.wide? = some w) (hp : p.IsBuilt)
    (hblocks : p.blocks ≠ []) (hslots : guarded → t.HasSlots q entry) {k : Nat}
    (hreach : Reaches q (t.watch q entry p.fresh guarded).allowed entry ⟨k, q.lines k, s⟩) :
    t.Enters q entry guarded k s := by
  rw [Enters]
  rcases ReflTransGen.cases_tail hreach with hstart | ⟨c, hc, hstep⟩
  · injection hstart with hk _ hs
    rw [if_pos hk]
    exact hs
  have hend := h.lines_of_reaches hw hp hblocks hslots hc
  generalize hlines : q.lines k = ls at hstep
  cases hstep with
  | line =>
    -- no line comes before the first of a block
    have hlength := (suffix_of_reaches hc).length_le
    rw [hlines, List.length_cons] at hlength
    omega
  | jump hb hk _ =>
    rw [if_neg]
    · exact hend
    · rintro rfl
      exact h.zero_notMem hp.toIsFresh (List.mem_of_getElem? hb) hk

end

/-! ## The caller's state -/

/-- Steps in which the lines of `p` leave reserved registers alone. -/
def LeavesReserved (t : Target) (p : Procedure) (l : Line) (s s' : State) : Prop :=
  l.label < p.fresh → t.KeepsReserved p s s'

/-- Steps in which the lines of `p` also leave the slots alone that its lowered form `q` has for
saved registers and for scavenging. -/
def LeavesFrame (t : Target) (p q : Procedure) (entry : State) (l : Line) (s s' : State) : Prop :=
  l.label < p.fresh → t.KeepsReserved p s s' ∧ q.KeepsSlots entry s s'

section
variable {t : Target} {p q : Procedure} {entry s s' : State} {c : Point}

/-- Registers are reserved by the decision about the frame pointer. -/
theorem KeepsReserved.congr (h : t.KeepsReserved p s s')
    (hpointer : t.hasPointer q = t.hasPointer p) : t.KeepsReserved q s s' := by
  intro r hr hsp
  rw [isReserved, hpointer] at hr
  rw [hpointer] at hsp
  exact h r hr hsp

theorem reaches_mono {allowed allowed' : Line → State → State → Prop}
    (h : Reaches q allowed entry c) (hmono : ∀ l s s', allowed l s s' → allowed' l s s') :
    Reaches q allowed' entry c := by
  refine ReflTransGen.mono (fun a b hstep => ?_) _ _ h
  cases hstep with
  | line heff hallowed => exact .line heff (hmono _ _ _ hallowed)
  | jump hb hc hm => exact .jump hb hc hm

end

/-! ## Runs of known instructions -/

/-- The state after a load or store, or after a sum. -/
def outcome (i : Inst) (s : State) : State :=
  match i.op.access? with
  | some k => k.result (i.address s) (i.register 0) s
  | none => s.write (i.register 0) (s.read (i.register 1) + i.beyond s)

/-- Unconditional loads, stores and sums. -/
def IsKnown (i : Inst) : Prop :=
  i.predicate.1 = Cond.al ∧ (i.op.access?.isSome ∨ (i.op.addend? 0).isSome)

instance : DecidablePred IsKnown :=
  fun _ => inferInstanceAs (Decidable (_ ∧ (_ ∨ _)))

theorem IsKnown.effect {i : Inst} (h : IsKnown i) (s : State) : i.Effect s (outcome i s) := by
  obtain ⟨hal, hkind⟩ := h
  refine (Inst.effect_iff_acts hal).2 ?_
  rw [outcome]
  cases hk : i.op.access? with
  | some k =>
    rw [Inst.Acts, hk]
  | none =>
    rw [hk] at hkind
    exact (Inst.acts_addend_iff (hkind.resolve_left Bool.false_ne_true)).2 rfl

/-- Sums in registers that are not reserved. -/
def IsHarmless (t : Target) (p : Procedure) (i : Inst) : Prop :=
  i.op.access? = none ∧ ∃ n, i.register 0 = .core n ∧ t.isReserved p (.core n) = false

/-- A line that a run can pass: it is known what it does, and a line of the function is
harmless. -/
def Passes (t : Target) (p : Procedure) (l : Line) : Prop :=
  IsKnown l.inst ∧ (p.fresh ≤ l.label ∨ t.IsHarmless p l.inst)

instance (t : Target) (p : Procedure) : DecidablePred (t.Passes p) :=
  fun _ => inferInstanceAs (Decidable (_ ∧ (_ ∨ _ ∧ _)))

theorem Passes.leavesFrame {t : Target} {p q : Procedure} {entry s : State} {l : Line}
    (h : t.Passes p l) : t.LeavesFrame p q entry l s (outcome l.inst s) := by
  intro hold
  obtain ⟨hnone, n, hn, hreserved⟩ := h.2.resolve_left (by omega)
  rw [outcome, hnone, hn]
  refine ⟨fun r hr _ => State.value_assign_of_ne fun hover => ?_, fun _ _ _ _ _ _ => rfl⟩
  rw [Reg.eq_of_core_overlaps hover, hreserved] at hr
  cases hr

/-- The state after some lines. -/
def runLines (ls : List Line) (s : State) : State :=
  ls.foldl (fun s l => outcome l.inst s) s

theorem execAll_runLines {ls : List Line} {s : State} (h : ∀ l ∈ ls, IsKnown l.inst) :
    ExecAll (ls.map Line.inst) s (runLines ls s) := by
  induction ls generalizing s with
  | nil => rfl
  | cons l ls ih =>
    obtain ⟨hl, hls⟩ := List.forall_mem_cons.1 h
    exact ⟨_, hl.effect s, ih hls⟩

/-- A run through known lines. -/
theorem reaches_of_known {q : Procedure} {allowed : Line → State → State → Prop}
    {entry s : State} {k : Nat} {ls rest : List Line}
    (h : Reaches q allowed entry ⟨k, ls ++ rest, s⟩)
    (hls : ∀ l ∈ ls, IsKnown l.inst ∧ ∀ s, allowed l s (outcome l.inst s)) :
    Reaches q allowed entry ⟨k, rest, runLines ls s⟩ := by
  induction ls generalizing s with
  | nil => exact h
  | cons l ls ih =>
    obtain ⟨⟨hknown, hallowed⟩, hls⟩ := List.forall_mem_cons.1 hls
    exact ih (h.tail (.line (hknown.effect s) (hallowed s))) hls

/-- A run through lines that can be passed. -/
theorem reaches_of_passes {t : Target} {p q : Procedure} {entry s : State} {k : Nat}
    {ls rest : List Line} (h : Reaches q (t.LeavesFrame p q entry) entry ⟨k, ls ++ rest, s⟩)
    (hls : ∀ l ∈ ls, t.Passes p l) :
    Reaches q (t.LeavesFrame p q entry) entry ⟨k, rest, runLines ls s⟩ :=
  reaches_of_known h fun l hl => ⟨(hls l hl).1, fun _ => (hls l hl).leavesFrame⟩

/-- A state in which every core register holds its number. -/
def counted : State where
  cells
    | .core n => n.val
    | _ => 0
  mem := fun _ => 0
  flags := fun _ => false

/-- The first block is run from its start up to a line. -/
theorem reaches_of_take {t : Target} {p q : Procedure} {rest : List Line} (entry : State) (n : Nat)
    (hls : ∀ l ∈ (q.lines 0).take n, t.Passes p l) (hrest : (q.lines 0).drop n = rest) :
    Reaches q (t.LeavesFrame p q entry) entry
      ⟨0, rest, runLines ((q.lines 0).take n) entry⟩ := by
  subst hrest
  refine reaches_of_passes ?_ hls
  rw [List.take_append_drop]
  exact .refl

/-- At every return that a run of a lowered function reaches, the caller's state is back: the
stack pointer and all callee-saved registers have the values they had on entry. -/
theorem restores_of_reaches {t : Target} {p : Procedure} {entry : State} {c : Point} {l : Line}
    {next : List Line} (hp : p.IsBuilt)
    (hsizes : ∀ o ∈ p.frame.objects, Frame.isShape o.size o.align ∧ o.size.toInt < 2 ^ 31)
    (hok : (t.lower p).failure = none)
    (hrange : ∀ j o, (t.lower p).proc.frame.object? j = some o → -2 ^ 31 < o.offset.toInt)
    (hreach : Reaches (t.lower p).proc (t.LeavesFrame p (t.lower p).proc entry) entry c)
    (hrest : c.rest = l :: next) (hreturn : l.inst.isReturn) : t.Restores entry c.state := by
  obtain ⟨-, hblocks, -, -⟩ := lower_cases hok
  obtain ⟨w, hw, hlowers⟩ := lowers_of_lower hp hok
  have hslots : True → t.HasSlots (t.lower p).proc entry := by
    intro _
    refine hlowers.slots (fun o ho => ?_) hrange entry
    obtain ⟨hshape, hsize⟩ := hsizes o ho
    exact FrameObject.isModerate_of_isShape hshape hsize
  have hlines := hlowers.lines_of_reaches hw hp hblocks hslots (reaches_mono hreach ?_)
  · rw [hrest] at hlines
    exact hlines.1 trivial hreturn
  · intro l s s' hleaves hold
    obtain ⟨hreserved, hkeeps⟩ := hleaves hold
    exact ⟨hreserved.congr hlowers.pointer, fun _ => hkeeps⟩

/-- A function with a frame pointer that needs two callee-saved registers. -/
def savesTwo : Procedure where
  name := "f"
  blocks := [{
    lines := [
      ⟨0, .make .movr [.use (.core 4), .use (.core 0), .cond .al, .use .noreg]⟩,
      ⟨1, .make .addri [.use (.core 5), .frameIndex 0, .imm 0, .cond .al, .use .noreg]⟩,
      ⟨2, .make .bxRet [.cond .al, .use .noreg]⟩] }]
  frame := { objects := [{ size := 8, align := 8 }], hasVarSized := true }
  fresh := 3

theorem restores_of_reaches_savesTwo :
    ∃ s, Reaches (plainDefault.lower savesTwo).proc
        (plainDefault.LeavesFrame savesTwo (plainDefault.lower savesTwo).proc counted) counted
        ⟨0, [⟨2, .make .bxRet [.cond .al, .use .noreg]⟩], s⟩ ∧ plainDefault.Restores counted s := by
  have hok : (plainDefault.lower savesTwo).failure = none := by decide +kernel
  have hpasses : ∀ l ∈ ((plainDefault.lower savesTwo).proc.lines 0).take 15,
      plainDefault.Passes savesTwo l := by
    decide +kernel
  have hrest : ((plainDefault.lower savesTwo).proc.lines 0).drop 15 =
      [⟨2, .make .bxRet [.cond .al, .use .noreg]⟩] := by
    decide +kernel
  have hrange : ∀ o ∈ (plainDefault.lower savesTwo).proc.frame.objects ++
      (plainDefault.lower savesTwo).proc.frame.fixed, -2 ^ 31 < o.offset.toInt := by
    decide +kernel
  have hreach := reaches_of_take counted 15 hpasses hrest
  generalize runLines _ _ = s at hreach
  refine ⟨s, hreach, restores_of_reaches (by decide +kernel) (by decide +kernel) hok ?_ hreach rfl rfl⟩
  exact fun j o ho => hrange o (List.mem_append.2 (Frame.mem_of_object? ho))

end Target

end FrameLowering
