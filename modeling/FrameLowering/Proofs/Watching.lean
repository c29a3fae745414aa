import FrameLowering.Lowering.Walk
import FrameLowering.Proofs.ConstantChains

/-!
# Watching a run

To follow a run of lowered code it is watched: each line is met in a state in which
something is expected of it, and steps that are not allowed are left out. A watch that
holds over the lines of every block, from every state that can begin the block to one that
can end it, holds over all runs (`Watch.expected_of_reaches`). A run that has come to a line
has gone through the lines before it in the block (`Reaches.exists_runsThrough`). Blocks are
put together from pieces, and so are the proofs about them.
-/

namespace FrameLowering

open Relation

/-- What is taken for granted of the steps of a run, and what is to be shown of the states
in which lines are met. -/
structure Watch where
  allowed : Line → State → State → Prop
  expected : Line → State → Prop

namespace Watch

/-- Lines executed from a state meet what is expected of them, and end in `post`. -/
def Lines (k : Watch) (post : State → Prop) : List Line → State → Prop
  | [], s => post s
  | l :: ls, s =>
    k.expected l s ∧
      ∀ s', l.inst.Effect s s' → k.allowed l s s' → Lines k post ls s'

/-- What is expected holds at every line that a run meets, if each block keeps an
invariant and the entry, which no block leads to, establishes it. -/
theorem expected_of_reaches {k : Watch} {p : Procedure} {inv : State → Prop} {entry : State}
    (hentry : k.Lines inv (p.lines 0) entry)
    (hblock : ∀ b m s, b ≠ 0 → p.blocks[b]? = some m → inv s → k.Lines inv m.lines s)
    (hfirst : ∀ m ∈ p.blocks, 0 ∉ m.successors) {c : Point}
    (h : Reaches p k.allowed entry c) : k.Lines inv c.rest c.state := by
  induction h with
  | refl => exact hentry
  | tail _ hstep ih =>
    cases hstep with
    | line heff hallowed => exact ih.2 _ heff hallowed
    | @jump b c m n s hb hc hn =>
      refine hblock c n s ?_ hn ih
      rintro rfl
      exact hfirst m (List.mem_of_getElem? hb) hc

end Watch

/-! ## Runs within a block -/

/-- Lines executed one after another, by steps that are allowed. -/
def RunsThrough (allowed : Line → State → State → Prop) : List Line → State → State → Prop
  | [], s, s' => s' = s
  | l :: ls, s, s' => ∃ m, l.inst.Effect s m ∧ allowed l s m ∧ RunsThrough allowed ls m s'

section
variable {allowed : Line → State → State → Prop} {p : Procedure} {entry s s' : State} {b : Nat}
  {l : Line} {ls front mid rest : List Line}

theorem RunsThrough.execAll (h : RunsThrough allowed ls s s') :
    ExecAll (ls.map Line.inst) s s' := by
  induction ls generalizing s with
  | nil => exact h
  | cons l ls ih =>
    obtain ⟨m, heff, -, hrest⟩ := h
    exact ⟨m, heff, ih hrest⟩

theorem RunsThrough.concat {s'' : State} (h : RunsThrough allowed ls s s')
    (heff : l.inst.Effect s' s'') (hallowed : allowed l s' s'') :
    RunsThrough allowed (ls ++ [l]) s s'' := by
  induction ls generalizing s with
  | nil =>
    obtain rfl : s' = s := h
    exact ⟨s'', heff, hallowed, rfl⟩
  | cons k ls ih =>
    obtain ⟨m, hfirst, hthis, hrest⟩ := h
    exact ⟨m, hfirst, hthis, ih hrest⟩

/-- Lines that were watched end where they are to end. -/
theorem Watch.Lines.of_runsThrough {k : Watch} {post : State → Prop} (h : k.Lines post ls s)
    (hruns : RunsThrough k.allowed ls s s') : post s' := by
  induction ls generalizing s with
  | nil =>
    obtain rfl : s' = s := hruns
    exact h
  | cons l ls ih =>
    obtain ⟨m, heff, hallowed, hrest⟩ := hruns
    exact ih (h.2 m heff hallowed) hrest

/-- What is left of a block is the end of it. -/
theorem suffix_of_reaches {c : Point} (h : Reaches p allowed entry c) :
    c.rest <:+ p.lines c.block := by
  induction h with
  | refl => exact List.suffix_refl _
  | tail _ hstep ih =>
    cases hstep with
    | line => exact (List.suffix_cons _ _).trans ih
    | jump _ _ hm => rw [Procedure.lines, hm]

/-- Within a block there is one way to come to a line. -/
theorem Reaches.exists_step (h : Reaches p allowed entry ⟨b, rest, s⟩)
    (hlines : p.lines b = front ++ l :: rest) :
    ∃ s₀, Reaches p allowed entry ⟨b, l :: rest, s₀⟩ ∧ l.inst.Effect s₀ s ∧ allowed l s₀ s := by
  have hne : p.lines b ≠ rest := by
    intro hsame
    have hlength := congrArg List.length (hsame.symm.trans hlines)
    rw [List.length_append, List.length_cons] at hlength
    omega
  rcases ReflTransGen.cases_tail h with hstart | ⟨c, hc, hstep⟩
  · injection hstart with hb hrest
    exact absurd (hb ▸ hrest.symm) hne
  · cases hstep with
    | @line _ k _ s₀ _ heff hallowed =>
      obtain ⟨before, hbefore⟩ : k :: rest <:+ front ++ l :: rest := hlines ▸ suffix_of_reaches hc
      obtain ⟨rfl, -⟩ := List.cons.inj (List.append_inj' hbefore rfl).2
      exact ⟨s₀, hc, heff, hallowed⟩
    | jump _ _ hm =>
      refine absurd ?_ hne
      rw [Procedure.lines, hm]

/-- A run that is within a block has come through the lines before. -/
theorem Reaches.exists_runsThrough (h : Reaches p allowed entry ⟨b, rest, s⟩)
    (hlines : p.lines b = front ++ (mid ++ rest)) :
    ∃ s₀, Reaches p allowed entry ⟨b, mid ++ rest, s₀⟩ ∧ RunsThrough allowed mid s₀ s := by
  induction mid using List.reverseRecOn generalizing rest s with
  | nil => exact ⟨s, h, rfl⟩
  | append_singleton mid l ih =>
    rw [List.append_assoc, List.singleton_append] at hlines ⊢
    have hsplit : p.lines b = (front ++ mid) ++ l :: rest := by rw [hlines, List.append_assoc]
    obtain ⟨s₁, hreach, heff, hallowed⟩ := h.exists_step hsplit
    obtain ⟨s₀, hstart, hruns⟩ := ih hreach hlines
    exact ⟨s₀, hstart, hruns.concat heff hallowed⟩

end

/-! ## Pieces -/

namespace Piece

/-- The instruction of a piece. -/
def inst : Piece → Inst
  | .line l => l.inst
  | .fresh i => i

theorem map_inst_number (next : Nat) (ps : List Piece) :
    (number next ps).1.map Line.inst = ps.map inst := by
  induction ps generalizing next with
  | nil => rfl
  | cons q ps ih =>
    cases q with
    | line l => exact congrArg (l.inst :: ·) (ih next)
    | fresh i => exact congrArg (i :: ·) (ih (next + 1))

theorem map_inst_number_fresh (next : Nat) (is : List Inst) :
    (number next (is.map fresh)).1.map Line.inst = is := by
  rw [map_inst_number, List.map_map]
  exact List.map_id is

end Piece

namespace Watch

/-- Pieces executed from a state meet what is expected of the lines among them. -/
def Pieces (k : Watch) (post : State → Prop) : List Piece → State → Prop
  | [], s => post s
  | .line l :: ps, s =>
    k.expected l s ∧
      ∀ s', l.inst.Effect s s' → k.allowed l s s' → Pieces k post ps s'
  | .fresh i :: ps, s => i.isReturn = false ∧ ∀ s', i.Effect s s' → Pieces k post ps s'

/-- Nothing is expected of lines with labels from `first` on, returns apart. -/
def PassesNew (k : Watch) (first : Nat) : Prop :=
  ∀ l s, first ≤ l.label → l.inst.isReturn = false → k.expected l s

/-- Lines made from pieces, which get new labels. -/
theorem lines_number {k : Watch} {post : State → Prop} {first next : Nat} {ps : List Piece}
    {s : State} (hnew : k.PassesNew first) (hnext : first ≤ next) (h : k.Pieces post ps s) :
    k.Lines post (Piece.number next ps).1 s := by
  induction ps generalizing next s with
  | nil => exact h
  | cons q ps ih =>
    cases q with
    | line l =>
      obtain ⟨hl, hrest⟩ := h
      exact ⟨hl, fun s' heff hallowed => ih hnext (hrest s' heff hallowed)⟩
    | fresh i =>
      obtain ⟨hi, hrest⟩ := h
      exact ⟨hnew _ _ hnext hi, fun s' heff _ => ih (Nat.le_succ_of_le hnext) (hrest s' heff)⟩

theorem Pieces.append {k : Watch} {post : State → Prop} {ps qs : List Piece} {s : State}
    (h : k.Pieces (k.Pieces post qs) ps s) : k.Pieces post (ps ++ qs) s := by
  induction ps generalizing s with
  | nil => exact h
  | cons q ps ih =>
    cases q with
    | line l => exact ⟨h.1, fun s' heff hallowed => ih (h.2 s' heff hallowed)⟩
    | fresh i => exact ⟨h.1, fun s' heff => ih (h.2 s' heff)⟩

theorem Pieces.mono {k : Watch} {post post' : State → Prop} {ps : List Piece} {s : State}
    (h : k.Pieces post ps s) (hpost : ∀ s, post s → post' s) : k.Pieces post' ps s := by
  induction ps generalizing s with
  | nil => exact hpost s h
  | cons q ps ih =>
    cases q with
    | line l => exact ⟨h.1, fun s' heff hallowed => ih (h.2 s' heff hallowed)⟩
    | fresh i => exact ⟨h.1, fun s' heff => ih (h.2 s' heff)⟩

/-- New instructions are executed one after another. -/
theorem pieces_fresh {k : Watch} {post : State → Prop} {is : List Inst} {s : State}
    (hret : ∀ i ∈ is, i.isReturn = false) (h : ∀ s', ExecAll is s s' → post s') :
    k.Pieces post (is.map .fresh) s := by
  induction is generalizing s with
  | nil => exact h s rfl
  | cons i is ih =>
    refine ⟨hret i List.mem_cons_self, fun m hm => ?_⟩
    refine ih (fun j hj => hret j (List.mem_cons_of_mem _ hj)) fun s' hs' => ?_
    exact h s' ⟨m, hm, hs'⟩

end Watch

end FrameLowering
