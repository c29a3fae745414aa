import FrameLowering.Proofs.BorrowedRegister
import FrameLowering.Proofs.LineLabels
import FrameLowering.Proofs.WalkRounds

/-!
# Termination of the elimination walk

Three things in the elimination of frame indices could go on for ever. The walk goes through blocks
that change under it; run as a loop it ends, and comes to each line that a block starts with once
(`Procedure.Handles`). The expansion of an instruction may need expansions for the accesses to the
scavenging slot; `Target.expandNested` expands these in turn, up to a bound on the depth, and two
levels are enough (`expandNested_eq`). The search for a live register follows blocks whose
successors may form cycles; `Liveness.searchAfter` keeps a record of the blocks that it scans, in
which none is twice (`scanned_searchAfter`). `walkEnds_of_isLabelled` puts them together. The one
thing it asks of a function, that the labels in a block are different, is true of every function
that is being lowered (`isLabelled_of_build`, `isLabelled_of_layout`).
-/

namespace FrameLowering

/-! ## Searches for a live register -/

namespace Liveness

/-- A search for a live register: its answer, and the blocks that it scans, in order. -/
structure Search where
  live : Bool
  scanned : List Nat

/-- The search with one block more in front. -/
def Search.after (block : Nat) (s : Search) : Search :=
  { s with scanned := block :: s.scanned }

/-- The search of `liveFrom`. -/
def searchFrom (blocks : List Block) (r : Reg) (seen work : List Nat) : Search :=
  match work with
  | [] => ⟨false, []⟩
  | b :: work =>
    if hs : b ∈ seen then searchFrom blocks r seen work
    else if hb : b < blocks.length then
      match scan r blocks[b].insts with
      | some true => ⟨true, [b]⟩
      | some false => (searchFrom blocks r (b :: seen) work).after b
      | none =>
        if blocks[b].successors = [] && !blocks[b].isReturn then ⟨true, [b]⟩
        else (searchFrom blocks r (b :: seen) (blocks[b].successors ++ work)).after b
    else searchFrom blocks r seen work
termination_by (unseen blocks.length seen, work.length)
decreasing_by
  all_goals first
    | exact Prod.Lex.right _ (by simp)
    | exact Prod.Lex.left _ _ (unseen_cons_lt hb hs)

/-- The search of `liveAfter`. -/
def searchAfter (p : Procedure) (block : Nat) (here : Inst) (rest : List Inst) (r : Reg) : Search :=
  match scan r rest with
  | some live => ⟨live, [block]⟩
  | none =>
    if endsInReturn (here :: rest) then ⟨false, [block]⟩
    else
      match (p.blocks[block]?.map Block.successors).getD [] with
      | [] => ⟨true, [block]⟩
      | next => (searchFrom p.blocks r [block] next).after block

section
variable {blocks : List Block} {r : Reg} {seen work : List Nat}

theorem live_searchFrom : (searchFrom blocks r seen work).live = liveFrom blocks r seen work := by
  induction seen, work using liveFrom.induct blocks r with
  | case1 seen => rw [searchFrom, liveFrom]
  | case2 seen b work hs ih => rw [searchFrom, dif_pos hs, liveFrom, dif_pos hs, ih]
  | case3 seen b work hs hb hscan =>
    rw [searchFrom, dif_neg hs, dif_pos hb, liveFrom, dif_neg hs, dif_pos hb, hscan]
  | case4 seen b work hs hb hscan ih =>
    rw [searchFrom, dif_neg hs, dif_pos hb, liveFrom, dif_neg hs, dif_pos hb, hscan]
    exact ih
  | case5 seen b work hs hb hscan hend =>
    rw [searchFrom, dif_neg hs, dif_pos hb, liveFrom, dif_neg hs, dif_pos hb, hscan]
    simp only [hend]
    rfl
  | case6 seen b work hs hb hscan hend ih =>
    rw [searchFrom, dif_neg hs, dif_pos hb, liveFrom, dif_neg hs, dif_pos hb, hscan]
    simp only [hend]
    exact ih
  | case7 seen b work hs hb ih =>
    rw [searchFrom, dif_neg hs, dif_neg hb, liveFrom, dif_neg hs, dif_neg hb, ih]

/-- Blocks that a search scans once, and that it had not seen. -/
structure ScansNew (blocks : List Block) (seen scanned : List Nat) : Prop where
  once : scanned.Nodup
  unseen : ∀ b ∈ scanned, b ∉ seen
  within : ∀ b ∈ scanned, b < blocks.length

theorem ScansNew.after {b : Nat} {s : Search} (hs : b ∉ seen) (hb : b < blocks.length)
    (h : ScansNew blocks (b :: seen) s.scanned) : ScansNew blocks seen (s.after b).scanned := by
  refine ⟨List.nodup_cons.2 ⟨fun hmem => h.unseen b hmem List.mem_cons_self, h.once⟩, ?_, ?_⟩
  · exact List.forall_mem_cons.2 ⟨hs, fun c hc hseen => h.unseen c hc (List.mem_cons_of_mem b hseen)⟩
  · exact List.forall_mem_cons.2 ⟨hb, h.within⟩

theorem scansNew_searchFrom : ScansNew blocks seen (searchFrom blocks r seen work).scanned := by
  have hnil (seen : List Nat) : ScansNew blocks seen [] :=
    ⟨List.nodup_nil, fun _ h => absurd h List.not_mem_nil, fun _ h => absurd h List.not_mem_nil⟩
  have hone {seen : List Nat} {b : Nat} (hs : b ∉ seen) (hb : b < blocks.length) :
      ScansNew blocks seen [b] := ScansNew.after (s := ⟨true, []⟩) hs hb (hnil (b :: seen))
  induction seen, work using liveFrom.induct blocks r with
  | case1 seen =>
    rw [searchFrom]
    exact hnil seen
  | case2 seen b work hs ih =>
    rw [searchFrom, dif_pos hs]
    exact ih
  | case3 seen b work hs hb hscan =>
    rw [searchFrom, dif_neg hs, dif_pos hb, hscan]
    exact hone hs hb
  | case4 seen b work hs hb hscan ih =>
    rw [searchFrom, dif_neg hs, dif_pos hb, hscan]
    exact ih.after hs hb
  | case5 seen b work hs hb hscan hend =>
    rw [searchFrom, dif_neg hs, dif_pos hb, hscan]
    simp only [hend]
    exact hone hs hb
  | case6 seen b work hs hb hscan hend ih =>
    rw [searchFrom, dif_neg hs, dif_pos hb, hscan]
    simp only [hend]
    exact ih.after hs hb
  | case7 seen b work hs hb ih =>
    rw [searchFrom, dif_neg hs, dif_neg hb]
    exact ih

end

section
variable (p : Procedure) (block : Nat) (here : Inst) (rest : List Inst) (r : Reg)

theorem live_searchAfter :
    (searchAfter p block here rest r).live = liveAfter p block here rest r := by
  rw [searchAfter, liveAfter]
  cases scan r rest with
  | some live => rfl
  | none =>
    simp only
    split
    · rfl
    · cases (p.blocks[block]?.map Block.successors).getD [] with
      | nil => rfl
      | cons b next => exact live_searchFrom

/-- A search scans its own block from the place on where it starts, and any other block once. -/
theorem scanned_searchAfter : (searchAfter p block here rest r).scanned.Nodup ∧
    ∀ b ∈ (searchAfter p block here rest r).scanned, b = block ∨ b < p.blocks.length := by
  have hown : ([block] : List Nat).Nodup ∧ ∀ b ∈ [block], b = block ∨ b < p.blocks.length :=
    ⟨List.nodup_singleton block, fun b hb => .inl (List.mem_singleton.1 hb)⟩
  rw [searchAfter]
  cases scan r rest with
  | some live => exact hown
  | none =>
    simp only
    split
    · exact hown
    · cases (p.blocks[block]?.map Block.successors).getD [] with
      | nil => exact hown
      | cons b next =>
        have hfrom : ScansNew p.blocks [block] (searchFrom p.blocks r [block] (b :: next)).scanned :=
          scansNew_searchFrom
        refine ⟨List.nodup_cons.2 ⟨fun h => hfrom.unseen block h List.mem_cons_self, hfrom.once⟩, ?_⟩
        exact List.forall_mem_cons.2 ⟨.inl rfl, fun b hb => .inr (hfrom.within b hb)⟩

end

end Liveness

namespace Target

/-! ## Nested expansions -/

/-- A register to form an address in: one that is free, or a borrowed one. -/
inductive Supply where
  | free (r : Reg)
  | lent (b : Borrow)

/-- The register for what is left of an offset. Without scavenging it is `r12`. -/
def supply (t : Target) (p : Procedure) (s : Site) (left : Int64) (scavenging : Bool) :
    Except Failure Supply :=
  if scavenging then
    match t.freeScratch? p s with
    | some r => .ok (.free r)
    | none =>
      match t.borrow p s .gpr with
      | .error f => .error f
      | .ok b => .ok (.lent b)
  else if s.inst.refers Reg.r12 then .error (s.error p .noScratch (.scratchInUse left))
  else .ok (.free Reg.r12)

/-- Expansion of an instruction with expansions of the store and the load of a borrowed register
inside it, which do not scavenge; none if they are nested `depth` deep. -/
def expandNested (t : Target) (p : Procedure) (block : Nat) (spAdj : Int64) :
    (depth : Nat) → Inst → List Inst → (scavenging : Bool) → Option Expansion
  | 0, _, _, _ => none
  | depth + 1, i, rest, scavenging =>
    match t.wide? with
    | none => some { inst := i
                     failure := some (.error (.inst p.name block i .unsupportedMode
                       .thumb1FrameIndices)) }
    | some w =>
      match t.rebase w p block i spAdj with
      | .error e => some { inst := e.inst, failure := some e.failure }
      | .ok r =>
        if r.rest = 0 then some { inst := r.inst }
        else
          match t.supply p ⟨block, r.inst, rest⟩ r.rest scavenging with
          | .error f => some { inst := r.inst, failure := some f }
          | .ok (.free scratch) => some { before := r.chain w scratch, inst := r.through scratch }
          | .ok (.lent b) =>
            let chain := r.chain w b.reg
            let inst := r.through b.reg
            match expandNested t p block spAdj depth b.spill (chain ++ inst :: b.reload :: rest)
                false with
            | none => none
            | some spill =>
              match spill.failure with
              | some f => some ⟨spill.before ++ spill.inst :: chain, inst, [b.reload], some f⟩
              | none =>
                (expandNested t p block spAdj depth b.reload rest false).map fun reload =>
                  ⟨spill.before ++ spill.inst :: chain, inst, reload.before ++ [reload.inst],
                    reload.failure⟩

section
variable {t : Target} {w : WideSet} {p : Procedure} {block : Nat} {spAdj : Int64}

/-- An expansion that does not scavenge has no other inside it. -/
theorem expandNested_direct (hw : t.wide? = some w) (depth : Nat) (i : Inst) (rest : List Inst) :
    t.expandNested p block spAdj (depth + 1) i rest false =
      some (t.expandDirect w p block i spAdj) := by
  simp only [expandNested, hw, expandDirect]
  cases t.rebase w p block i spAdj with
  | error e => rfl
  | ok r =>
    by_cases hrest : r.rest = 0
    · simp only [if_pos hrest]
    · by_cases hrefers : r.inst.refers Reg.r12
      · simp only [supply, if_neg hrest, if_pos hrefers, Bool.false_eq_true, if_false]
        rfl
      · simp only [supply, if_neg hrest, if_neg hrefers, Bool.false_eq_true, if_false]

/-- Two levels of expansions are enough. -/
theorem expandNested_eq (t : Target) (p : Procedure) (block : Nat) (spAdj : Int64) {depth : Nat}
    (hdepth : 2 ≤ depth) (i : Inst) (rest : List Inst) (scavenging : Bool) :
    t.expandNested p block spAdj depth i rest scavenging =
      some (t.expand p block i rest spAdj scavenging) := by
  obtain ⟨depth, rfl⟩ := Nat.exists_eq_add_of_le' hdepth
  cases hw : t.wide? with
  | none => simp only [expandNested, expand, hw]
  | some w =>
    cases scavenging with
    | false =>
      rw [expandNested_direct hw, expand, hw]
      rfl
    | true =>
      rw [expandNested]
      simp only [expand, hw, expandScavenging, if_true]
      cases t.rebase w p block i spAdj with
      | error e => rfl
      | ok r =>
        by_cases hrest : r.rest = 0
        · simp only [if_pos hrest]
        simp only [if_neg hrest, supply, if_true]
        cases t.freeScratch? p ⟨block, r.inst, rest⟩ with
        | some scratch => rfl
        | none =>
          cases t.borrow p ⟨block, r.inst, rest⟩ .gpr with
          | error f => rfl
          | ok b =>
            simp only [expandNested_direct hw, expandBorrowed, Option.map_some]
            cases (t.expandDirect w p block b.spill spAdj).failure <;> rfl

end

end Target

/-! ## The walk through a function -/

namespace Procedure

/-- A round for each line of a function. -/
def rounds (p : Procedure) : List Round :=
  (List.range p.blocks.length).flatMap fun k => (p.lines k).map (Line.round k)

/-- What the rounds of a loop do to a function before it ends with a result. -/
structure Handles (p : Procedure) (rounds : List Round)
    (result : EStateM.Result Failure Procedure Unit) : Prop where
  /-- The lines that are there at the start are handled in order, as they call for. -/
  inOrder : (rounds.filter fun r => r.label < p.fresh) <+: p.rounds
  once : ((rounds.filter fun r => r.label < p.fresh).map fun r => (r.block, r.label)).Nodup
  /-- All of them are, unless the result is a failure. -/
  all : ∀ q, result = .ok () q → (rounds.filter fun r => r.label < p.fresh) = p.rounds
  /-- Nothing is done at lines that came up on the way. -/
  passed : ∀ r ∈ rounds, p.fresh ≤ r.label → r.treatment = .pass

/-- There is one round only for each line. -/
theorem IsLabelled.nodup_rounds {p : Procedure} (h : p.IsLabelled) :
    (p.rounds.map fun r => (r.block, r.label)).Nodup := by
  have hrounds : p.rounds.map (fun r => (r.block, r.label)) =
      (List.range p.blocks.length).flatMap fun k => (p.lines k).map fun l => (k, l.label) := by
    rw [rounds, List.map_flatMap]
    simp only [List.map_map]
    rfl
  rw [hrounds, List.nodup_flatMap]
  constructor
  · intro k _
    have hpairs : ((p.lines k).map fun l => (k, l.label)) =
        ((p.lines k).map Line.label).map (k, ·) := by
      rw [List.map_map]
      rfl
    rw [hpairs]
    exact (h.apart k).unique.map fun _ _ heq => (Prod.ext_iff.1 heq).2
  · refine List.nodup_range.imp fun {j k} hne => ?_
    rintro ⟨n, label⟩ hj hk
    obtain ⟨_, -, hj⟩ := List.mem_map.1 hj
    obtain ⟨_, -, hk⟩ := List.mem_map.1 hk
    exact hne ((Prod.ext_iff.1 hj).1.trans (Prod.ext_iff.1 hk).1.symm)

end Procedure

namespace Target

/-- The elimination walk through a function ends. -/
structure WalkEnds (t : Target) (p : Procedure) : Prop where
  /-- The loops through the blocks do. -/
  looped : ∀ n, (∀ b ∈ p.blocks, 6 * b.lines.length < n) →
    ∃ rounds, t.loopBlocks n (List.range p.blocks.length) p =
      some ⟨rounds, t.replaceFrameIndices p⟩ ∧ p.Handles rounds (t.replaceFrameIndices p)
  /-- An expansion and those inside it are two deep at most. -/
  nested : ∀ q block i rest spAdj scavenging,
    t.expandNested q block spAdj 2 i rest scavenging =
      some (t.expand q block i rest spAdj scavenging)
  /-- A search for a live register scans a block once. -/
  searched : ∀ q block here rest r,
    (Liveness.searchAfter q block here rest r).live = Liveness.liveAfter q block here rest r ∧
      (Liveness.searchAfter q block here rest r).scanned.Nodup ∧
      ∀ b ∈ (Liveness.searchAfter q block here rest r).scanned, b = block ∨ b < q.blocks.length

/-- The walk ends for every target and every function, whatever the successors of its blocks. -/
theorem walkEnds_of_isLabelled (t : Target) {p : Procedure} (hp : p.IsLabelled) : t.WalkEnds p := by
  refine ⟨fun n hn => ?_, fun q block i rest spAdj scavenging => ?_, fun q block here rest r => ?_⟩
  · have hfew : ∀ k ∈ List.range p.blocks.length, 6 * (p.lines k).length < n := by
      intro k hk
      have hlt := List.mem_range.1 hk
      rw [Procedure.lines, List.getElem?_eq_getElem hlt]
      exact hn _ (List.getElem_mem hlt)
    obtain ⟨rounds, stopped, hrounds, hfollows, hok⟩ := loopBlocks_eq (t := t) List.nodup_range
      (fun k hk => List.mem_range.1 hk) (fun k _ => hp.apart k) (Nat.le_refl p.fresh) hfew
    refine ⟨rounds, hrounds, hfollows.old, ?_, fun q hq => hfollows.all (hok q hq), hfollows.new⟩
    exact hp.nodup_rounds.sublist (hfollows.old.sublist.map _)
  · exact t.expandNested_eq q block spAdj (Nat.le_refl 2) i rest scavenging
  · exact ⟨Liveness.live_searchAfter q block here rest r,
      Liveness.scanned_searchAfter q block here rest r⟩

/-- The load of the borrowed register, which comes up behind the one that it is borrowed for, is
passed. -/
theorem walkEnds_of_isLabelled_loadFar : ∃ rounds,
    plainDefault.loopBlocks 19 [0] (allInUse loadFar) =
      some ⟨rounds, plainDefault.replaceFrameIndices (allInUse loadFar)⟩ ∧
    (allInUse loadFar).Handles rounds (plainDefault.replaceFrameIndices (allInUse loadFar)) ∧
    rounds = [⟨0, 0, .eliminate⟩, ⟨0, 5, .pass⟩, ⟨0, 1, .pass⟩, ⟨0, 2, .pass⟩] := by
  have hlabelled : (allInUse loadFar).IsLabelled := ⟨by decide, by decide⟩
  obtain ⟨rounds, hloop, hhandles⟩ :=
    (plainDefault.walkEnds_of_isLabelled hlabelled).looped 19 (by decide)
  have hrounds : (plainDefault.loopBlocks 19 [0] (allInUse loadFar)).map Looped.rounds =
      some [⟨0, 0, .eliminate⟩, ⟨0, 5, .pass⟩, ⟨0, 1, .pass⟩, ⟨0, 2, .pass⟩] := by decide +kernel
  refine ⟨rounds, hloop, hhandles, ?_⟩
  have hloop' : plainDefault.loopBlocks 19 [0] (allInUse loadFar) = some ⟨rounds, _⟩ := hloop
  rw [hloop', Option.map_some] at hrounds
  exact Option.some.inj hrounds

end Target

end FrameLowering
