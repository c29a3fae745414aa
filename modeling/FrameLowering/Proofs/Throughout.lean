import FrameLowering.Proofs.ObjectAccess
import FrameLowering.Proofs.Watching

/-!
# What holds throughout a run

A watch says what is to hold where certain lines are met. Here it is said of every point of a
run, whichever lines are left there, those included that frame lowering inserts
(`Throughout`). Blocks that hand over to each other carry it through a whole run
(`throughout_of_reachesBy`), and pieces of a block carry it through the block (`Piecewise`).
-/

namespace FrameLowering

open Relation

/-- Lines executed from a state, by steps that are allowed: `during` holds as long as some of
them are left, and `post` when none is. -/
def Throughout (allowed : Line → State → State → Prop) (during : List Line → State → Prop)
    (post : State → Prop) : List Line → State → Prop
  | [], s => post s
  | l :: ls, s =>
    during (l :: ls) s ∧
      ∀ s', l.inst.Effect s s' → allowed l s s' → Throughout allowed during post ls s'

section
variable {allowed : Line → State → State → Prop} {during during' : List Line → State → Prop}
  {post post' : State → Prop} {ls ms : List Line} {s : State}

/-- Lines after others. What holds during the first lines may speak of those that follow. -/
theorem Throughout.append
    (h : Throughout allowed (fun r => during (r ++ ms)) (Throughout allowed during post ms) ls s) :
    Throughout allowed during post (ls ++ ms) s := by
  induction ls generalizing s with
  | nil => exact h
  | cons l ls ih =>
    obtain ⟨hhere, hnext⟩ := h
    refine ⟨hhere, ?_⟩
    intro s' heff hallowed
    exact ih (hnext s' heff hallowed)

theorem Throughout.mono (h : Throughout allowed during post ls s)
    (hduring : ∀ r s, r ≠ [] → r <:+ ls → during r s → during' r s)
    (hpost : ∀ s, post s → post' s) : Throughout allowed during' post' ls s := by
  induction ls generalizing s with
  | nil => exact hpost s h
  | cons l ls ih =>
    obtain ⟨hhere, hnext⟩ := h
    constructor
    · exact hduring _ s (List.cons_ne_nil l ls) (List.suffix_refl _) hhere
    · intro s' heff hallowed
      refine ih (hnext s' heff hallowed) ?_
      intro r s hne hr
      exact hduring r s hne (hr.trans (List.suffix_cons l ls))

/-- The watch that expects nothing. -/
def Watch.idle (allowed : Line → State → State → Prop) : Watch where
  allowed := allowed
  expected _ _ := True

theorem Watch.passesNew_idle (allowed : Line → State → State → Prop) (first : Nat) :
    (idle allowed).PassesNew first :=
  fun _ _ _ _ => trivial

/-- A watch that expects nothing still says where the lines end. -/
theorem throughout_of_lines {k : Watch} (h : k.Lines post ls s)
    (hduring : ∀ r s, r ≠ [] → r <:+ ls → during r s) :
    Throughout k.allowed during post ls s := by
  induction ls generalizing s with
  | nil => exact h
  | cons l ls ih =>
    constructor
    · exact hduring _ s (List.cons_ne_nil l ls) (List.suffix_refl _)
    · intro s' heff hallowed
      refine ih (h.2 s' heff hallowed) ?_
      intro r s hne hr
      exact hduring r s hne (hr.trans (List.suffix_cons l ls))

/-- Lines that end in one that no allowed step passes lead nowhere. -/
theorem throughout_of_stop {l : Line} (hhere : during (ls ++ [l]) s)
    (hduring : ∀ r s, r ≠ [] → r <:+ ls ++ [l] → r.length ≤ ls.length → during r s)
    (hstop : ∀ s s', ¬ allowed l s s') : Throughout allowed during post (ls ++ [l]) s := by
  induction ls generalizing s with
  | nil =>
    refine ⟨hhere, ?_⟩
    intro s' _ hallowed
    exact absurd hallowed (hstop s s')
  | cons m ls ih =>
    refine ⟨hhere, ?_⟩
    intro s' _ _
    have hrest : ls ++ [l] <:+ m :: ls ++ [l] := List.suffix_cons m (ls ++ [l])
    apply ih
    · exact hduring _ s' (by simp) hrest (by simp)
    · intro r s hne hr hlen
      exact hduring r s hne (hr.trans hrest) (Nat.le_succ_of_le hlen)

/-- What holds throughout each block, from every state in which a block hands over to it, holds
throughout each run. -/
theorem throughout_of_reachesBy {p : Procedure} {entry : State} {path : List Nat} {c : Point}
    (during : List Nat → Nat → List Line → State → Prop) (leaves : List Nat → Nat → State → Prop)
    (hentry : Throughout allowed (during [0] 0) (leaves [0] 0) (p.lines 0) entry)
    (hjump : ∀ path b m k n s, p.blocks[b]? = some m → leaves path b s → k ∈ m.successors →
      p.blocks[k]? = some n →
      Throughout allowed (during (k :: path) k) (leaves (k :: path) k) n.lines s)
    (h : ReachesBy p allowed entry path c) :
    Throughout allowed (during path c.block) (leaves path c.block) c.rest c.state := by
  induction h with
  | start => exact hentry
  | line _ hstep hrest ih =>
    cases hstep with
    | line heff hallowed => exact ih.2 _ heff hallowed
    | jump => exact absurd rfl hrest
  | jump _ hstep hrest ih =>
    cases hstep with
    | line => cases hrest
    | jump hb hc hm => exact hjump _ _ _ _ _ _ hb ih hc hm

/-- The same of what does not depend on the blocks that a run came through. -/
theorem throughout_of_reaches {p : Procedure} {entry : State} {c : Point}
    (during : Nat → List Line → State → Prop) (leaves : Nat → State → Prop)
    (hentry : Throughout allowed (during 0) (leaves 0) (p.lines 0) entry)
    (hjump : ∀ b m k n s, p.blocks[b]? = some m → leaves b s → k ∈ m.successors →
      p.blocks[k]? = some n → Throughout allowed (during k) (leaves k) n.lines s)
    (h : Reaches p allowed entry c) :
    Throughout allowed (during c.block) (leaves c.block) c.rest c.state := by
  obtain ⟨path, hpath⟩ := reaches_iff_exists_path.1 h
  exact throughout_of_reachesBy (fun _ => during) (fun _ => leaves) hentry (fun _ => hjump) hpath

end

/-! ## Pieces -/

/-- Lines made from pieces, part by part. -/
theorem Piece.number_append (next : Nat) (ps qs : List Piece) :
    (number next (ps ++ qs)).1 = (number next ps).1 ++ (number (number next ps).2 qs).1 := by
  induction ps generalizing next with
  | nil => rfl
  | cons q ps ih =>
    cases q with
    | line l => exact congrArg (l :: ·) (ih next)
    | fresh i => exact congrArg (⟨next, i⟩ :: ·) (ih (next + 1))

theorem Piece.length_number (next : Nat) (ps : List Piece) :
    (number next ps).1.length = ps.length := by
  rw [← List.length_map Line.inst, map_inst_number, List.length_map]

/-- Pieces executed from a state, whichever labels they get: `met` holds at each of them. -/
def Piecewise (allowed : Line → State → State → Prop) (met : Line → State → Prop)
    (post : State → Prop) (ps : List Piece) (s : State) : Prop :=
  ∀ next, Throughout allowed (fun r s => ∀ l ∈ r.head?, met l s) post (Piece.number next ps).1 s

section
variable {allowed : Line → State → State → Prop} {met : Line → State → Prop}
  {post : State → Prop} {ps qs : List Piece} {s : State}

theorem piecewise_nil (h : post s) : Piecewise allowed met post [] s :=
  fun _ => h

theorem piecewise_line {l : Line} (hmet : met l s)
    (h : ∀ s', l.inst.Effect s s' → allowed l s s' → Piecewise allowed met post ps s') :
    Piecewise allowed met post (.line l :: ps) s := by
  intro next
  constructor
  · intro m hm
    obtain rfl : l = m := Option.some.inj hm
    exact hmet
  · intro s' heff hallowed
    exact h s' heff hallowed next

/-- New instructions, one after another. Where the first of them have been executed, the next
one is met. -/
theorem piecewise_fresh {is : List Inst}
    (hmet : ∀ done i rest s', is = done ++ i :: rest → ExecAll done s s' → ∀ n, met ⟨n, i⟩ s')
    (h : ∀ s', ExecAll is s s' → Piecewise allowed met post ps s') :
    Piecewise allowed met post (is.map .fresh ++ ps) s := by
  induction is generalizing s with
  | nil => exact h s rfl
  | cons i is ih =>
    intro next
    constructor
    · intro m hm
      obtain rfl : (⟨next, i⟩ : Line) = m := Option.some.inj hm
      exact hmet [] i is s rfl rfl next
    · intro s' heff _
      refine ih ?_ ?_ (next + 1)
      · intro done j rest s'' his hexec
        exact hmet (i :: done) j rest s'' (congrArg (i :: ·) his) ⟨s', heff, hexec⟩
      · intro s'' hexec
        exact h s'' ⟨s', heff, hexec⟩

theorem Piecewise.append (h : Piecewise allowed met (Piecewise allowed met post qs) ps s) :
    Piecewise allowed met post (ps ++ qs) s := by
  intro next
  rw [Piece.number_append]
  refine Throughout.append ?_
  refine (h next).mono ?_ fun s' hs' => hs' _
  intro r s' hne _ hr l hl
  cases r with
  | nil => exact absurd rfl hne
  | cons m r => exact hr l hl

theorem Piecewise.mono {met' : Line → State → Prop} {post' : State → Prop}
    (h : Piecewise allowed met post ps s) (hmet : ∀ l s, met l s → met' l s)
    (hpost : ∀ s, post s → post' s) : Piecewise allowed met' post' ps s := by
  intro next
  refine (h next).mono ?_ hpost
  intro r s' _ _ hr l hl
  exact hmet l s' (hr l hl)

end

/-! ## Instructions that add -/

/-- An instruction that does no more than change a register to a sum. -/
def Inst.IsSum (i : Inst) (r : Reg) : Prop :=
  (i.op.addend? 0).isSome ∧ i.register 0 = r

theorem WideSet.isSum_of_mem_addConstant {w : WideSet} {dst base pred : Reg} {v : Int64} {c : Cond}
    {i : Inst} (h : i ∈ w.addConstant dst base v c pred) : i.IsSum dst := by
  rw [addConstant] at h
  generalize RotatedImmediate.chunks _ = ws at h
  induction ws generalizing base with
  | nil => exact absurd h List.not_mem_nil
  | cons x ws ih =>
    rcases List.mem_cons.1 h with rfl | h
    · by_cases hv : v < 0
      · rw [if_pos hv]
        cases w <;> exact ⟨rfl, rfl⟩
      · rw [if_neg hv]
        cases w <;> exact ⟨rfl, rfl⟩
    · exact ih h

/-- Sums leave memory and all other registers alone. -/
theorem ExecAll.of_sums {is : List Inst} {r : Reg} {s s' : State} (hsums : ∀ i ∈ is, i.IsSum r)
    (h : ExecAll is s s') : s.AgreesOff [r] s' ∧ s'.mem = s.mem := by
  induction is generalizing s with
  | nil =>
    obtain rfl : s' = s := h
    exact ⟨fun _ _ => rfl, rfl⟩
  | cons i is ih =>
    obtain ⟨m, heff, hrest⟩ := h
    obtain ⟨hsum, hreg⟩ := hsums i List.mem_cons_self
    have hfirst : s.AgreesOff [r] m ∧ m.mem = s.mem := by
      rcases heff with ⟨-, hacts⟩ | ⟨-, rfl⟩
      · rw [(Inst.acts_addend_iff hsum).1 hacts, hreg]
        exact ⟨State.agreesOff_assign s r _, rfl⟩
      · exact ⟨fun _ _ => rfl, rfl⟩
    obtain ⟨hagrees, hmem⟩ := ih (fun j hj => hsums j (List.mem_cons_of_mem _ hj)) hrest
    constructor
    · intro c hc
      rw [hagrees c hc, hfirst.1 c hc]
    · rw [hmem, hfirst.2]

end FrameLowering
