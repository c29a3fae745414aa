import FrameLowering.Proofs.ScratchLiveness

/-!
# Liveness as a property of paths

A value is needed after an instruction if some way from there on reads it, or comes to the end
of a block that control does not leave in sight: one that neither returns nor has a successor
stands for code that is not known. The search for a live register visits each block once and
stops at the first answer. Here its answer is compared with all ways through the blocks, cycles
included. What it finds is on a way (`exists_needed_of_liveFrom`), and what it does not find is
on none, since the blocks it has seen are closed under undecided successors
(`Explored.not_lost`). The one thing it leaves out is the block that it starts from, so that
it is exact wherever control does not come back to that block (`liveAfter_iff_neededAfter`).
-/

namespace FrameLowering

namespace Liveness

open Relation

/-! ## Ways that need a value -/

/-- None of some instructions is sure to replace the value of a register. -/
def Unreplaced (r : Reg) (is : List Inst) : Prop :=
  ∀ i ∈ is, ¬ (i.predicate.1 = Cond.al ∧ i.writes r)

/-- The instructions of a way that begins at the head of a block and ends where control is lost,
at the end of a block that neither returns nor has a successor. -/
inductive LostCourse (blocks : List Block) : Nat → List Inst → Prop
  | stop {b : Nat} {k : Block} (hb : blocks[b]? = some k) (hreturn : ¬ k.isReturn)
      (hnext : k.successors = []) : LostCourse blocks b k.insts
  | follow {b c : Nat} {k : Block} {is : List Inst} (hb : blocks[b]? = some k)
      (hc : c ∈ k.successors) (rest : LostCourse blocks c is) : LostCourse blocks b (k.insts ++ is)

/-- The instructions of a way that begins after a place of a block and ends where control is
lost. -/
inductive LostCourseAfter (blocks : List Block) (b place : Nat) : List Inst → Prop
  | stop {k : Block} (hb : blocks[b]? = some k) (hreturn : ¬ k.isReturn)
      (hnext : k.successors = []) : LostCourseAfter blocks b place (k.insts.drop (place + 1))
  | follow {c : Nat} {k : Block} {is : List Inst} (hb : blocks[b]? = some k)
      (hc : c ∈ k.successors) (rest : LostCourse blocks c is) :
      LostCourseAfter blocks b place (k.insts.drop (place + 1) ++ is)

/-- The value that a register has at the head of a block is needed on some way: it is read, or
it is still there where control is lost. -/
def Needed (blocks : List Block) (r : Reg) (b : Nat) : Prop :=
  (∃ is, Course blocks b is ∧ ReadFirst r is) ∨ ∃ is, LostCourse blocks b is ∧ Unreplaced r is

/-- The value that a register has after a place of a block is needed on some way. -/
def NeededAfter (blocks : List Block) (b place : Nat) (r : Reg) : Prop :=
  (∃ is, CourseAfter blocks b place is ∧ ReadFirst r is) ∨
    ∃ is, LostCourseAfter blocks b place is ∧ Unreplaced r is

section
variable {blocks : List Block} {r : Reg} {b c : Nat} {k : Block} {is js : List Inst}

theorem Untouched.unreplaced (h : Untouched r is) : Unreplaced r is :=
  fun i hi => (h i hi).2

theorem unreplaced_append : Unreplaced r (is ++ js) ↔ Unreplaced r is ∧ Unreplaced r js :=
  List.forall_mem_append

/-- A value that is neither replaced nor read is left alone. -/
theorem Unreplaced.untouched (h : Unreplaced r is) (hread : ¬ ReadFirst r is) :
    Untouched r is := by
  intro i hi
  refine ⟨fun hi' => hread ?_, h i hi⟩
  obtain ⟨before, after, rfl⟩ := List.append_of_mem hi
  exact ⟨before, i, after, rfl, hi', (unreplaced_append.1 h).1⟩

/-- A value that is needed from a block on is also needed before instructions that leave it alone
and come before the block. -/
theorem Needed.cases_of_untouched (h : Needed blocks r c) (hu : Untouched r is) :
    (∃ js, Course blocks c js ∧ ReadFirst r (is ++ js)) ∨
      ∃ js, LostCourse blocks c js ∧ Unreplaced r (is ++ js) := by
  rcases h with ⟨js, hcourse, hread⟩ | ⟨js, hlost, hkeep⟩
  · exact .inl ⟨js, hcourse, hu.readFirst_append.2 hread⟩
  · exact .inr ⟨js, hlost, unreplaced_append.2 ⟨hu.unreplaced, hkeep⟩⟩

theorem Needed.of_successor (hb : blocks[b]? = some k) (hu : Untouched r k.insts)
    (hc : c ∈ k.successors) (h : Needed blocks r c) : Needed blocks r b := by
  rcases h.cases_of_untouched hu with ⟨is, hcourse, hread⟩ | ⟨is, hlost, hkeep⟩
  · exact .inl ⟨_, .follow hb hc hcourse, hread⟩
  · exact .inr ⟨_, .follow hb hc hlost, hkeep⟩

end

/-! ## What the search finds -/

/-- Where the search finds a register live, its value is needed from one of the blocks that were
left to visit. -/
theorem exists_needed_of_liveFrom {blocks : List Block} {r : Reg} {seen work : List Nat}
    (h : liveFrom blocks r seen work = true) : ∃ c ∈ work, Needed blocks r c := by
  induction seen, work using liveFrom.induct blocks r with
  | case1 seen =>
    rw [liveFrom] at h
    cases h
  | case2 seen b work hs ih =>
    rw [liveFrom, dif_pos hs] at h
    obtain ⟨c, hc, hneed⟩ := ih h
    exact ⟨c, List.mem_cons_of_mem b hc, hneed⟩
  | case3 seen b work hs hb hscan =>
    have hk : blocks[b]? = some blocks[b] := List.getElem?_eq_getElem hb
    exact ⟨b, List.mem_cons_self, .inl ⟨_, .stop hk, scan_eq_true_iff.1 hscan⟩⟩
  | case4 seen b work hs hb hscan ih =>
    rw [liveFrom, dif_neg hs, dif_pos hb, hscan] at h
    obtain ⟨c, hc, hneed⟩ := ih h
    exact ⟨c, List.mem_cons_of_mem b hc, hneed⟩
  | case5 seen b work hs hb hscan hend =>
    have hk : blocks[b]? = some blocks[b] := List.getElem?_eq_getElem hb
    simp only [Bool.and_eq_true, decide_eq_true_eq, Bool.not_eq_true'] at hend
    refine ⟨b, List.mem_cons_self, .inr ⟨_, .stop hk (by simp [hend.2]) hend.1, ?_⟩⟩
    exact (scan_eq_none_iff.1 hscan).unreplaced
  | case6 seen b work hs hb hscan hend ih =>
    rw [liveFrom, dif_neg hs, dif_pos hb, hscan] at h
    simp only [hend] at h
    obtain ⟨c, hc, hneed⟩ := ih h
    rcases List.mem_append.1 hc with hc | hc
    · have hk : blocks[b]? = some blocks[b] := List.getElem?_eq_getElem hb
      exact ⟨b, List.mem_cons_self, hneed.of_successor hk (scan_eq_none_iff.1 hscan) hc⟩
    · exact ⟨c, List.mem_cons_of_mem b hc, hneed⟩
  | case7 seen b work hs hb ih =>
    rw [liveFrom, dif_neg hs, dif_neg hb] at h
    obtain ⟨c, hc, hneed⟩ := ih h
    exact ⟨c, List.mem_cons_of_mem b hc, hneed⟩

/-! ## What the search does not find -/

section
variable {blocks : List Block} {r : Reg} {visited : List Nat} {b c : Nat} {is : List Inst}

/-- No way from a visited block on loses a value that the search did not find, unless it comes
back to the block that the search was kept from. -/
theorem Explored.not_lost (h : Explored blocks r [b] visited)
    (hback : ¬ TransGen (Leads blocks) b b) (hbc : TransGen (Leads blocks) b c) (hc : c ∈ visited)
    (hlost : LostCourse blocks c is) : ¬ Unreplaced r is := by
  have hseen {d : Nat} (hd : TransGen (Leads blocks) b d) : d ∉ [b] := by
    rw [List.mem_singleton]
    rintro rfl
    exact hback hd
  induction hlost with
  | @stop c k hk hreturn hnext =>
    intro hkeep
    have hu := hkeep.untouched (h.unread c hc (hseen hbc) k hk)
    exact hreturn (h.leaves c hc (hseen hbc) k hk hu hnext)
  | @follow c d k is hk hd _ ih =>
    intro hkeep
    obtain ⟨hkeep, hrest⟩ := unreplaced_append.1 hkeep
    have hu := hkeep.untouched (h.unread c hc (hseen hbc) k hk)
    exact ih (hbc.tail ⟨k, hk, hd⟩) (h.closed c hc (hseen hbc) k hk hu hd) hrest

end

theorem transGen_leads_of_passes {blocks : List Block} {r : Reg} {b c : Nat} {k : Block}
    (hb : blocks[b]? = some k) (hc : c ∈ k.successors)
    (h : ReflTransGen (Passes blocks r) c b) : TransGen (Leads blocks) b b := by
  refine TransGen.head' ⟨k, hb, hc⟩ (ReflTransGen.mono (fun x y hxy => ?_) c b h)
  obtain ⟨m, hm, -, hy⟩ := hxy
  exact ⟨m, hm, hy⟩

/-- Nothing is overlooked where control does not come back and nothing follows a return. -/
theorem not_overlooked {blocks : List Block} {b place : Nat} {r : Reg}
    (hback : ¬ TransGen (Leads blocks) b b)
    (hreturns : ∀ k ∈ blocks, k.isReturn → k.successors = []) :
    ¬ Overlooked blocks b place r := by
  rintro ⟨k, hb, -, c, hc, ⟨hpath, -⟩ | ⟨hreturn, -⟩⟩
  · exact hback (transGen_leads_of_passes hb hc hpath)
  · rw [hreturns k (List.mem_of_getElem? hb) hreturn] at hc
    exact absurd hc List.not_mem_nil

/-! ## The answer after an instruction -/

section
variable {p : Procedure} {b place : Nat} {k : Block} {here : Inst} {r : Reg}

/-- What the answer consists of, for an instruction in its block. -/
theorem liveAfter_eq (hb : p.blocks[b]? = some k)
    (hend : endsInReturn (here :: k.insts.drop (place + 1)) = k.isReturn) :
    liveAfter p b here (k.insts.drop (place + 1)) r =
      match scan r (k.insts.drop (place + 1)) with
      | some live => live
      | none => !k.isReturn && (k.successors.isEmpty || liveFrom p.blocks r [b] k.successors) := by
  rw [liveAfter]
  cases hscan : scan r (k.insts.drop (place + 1)) with
  | some live => rfl
  | none =>
    simp only [hend, hb, Option.map_some, Option.getD_some]
    cases hreturn : k.isReturn with
    | true => rfl
    | false =>
      cases hnext : k.successors with
      | nil => rfl
      | cons c cs => rfl

theorem neededAfter_of_liveAfter (hb : p.blocks[b]? = some k)
    (hend : endsInReturn (here :: k.insts.drop (place + 1)) = k.isReturn)
    (h : liveAfter p b here (k.insts.drop (place + 1)) r = true) :
    NeededAfter p.blocks b place r := by
  rw [liveAfter_eq hb hend] at h
  cases hscan : scan r (k.insts.drop (place + 1)) with
  | some live =>
    simp only [hscan] at h
    subst h
    exact .inl ⟨_, .stop hb, scan_eq_true_iff.1 hscan⟩
  | none =>
    have hu := scan_eq_none_iff.1 hscan
    simp only [hscan, Bool.and_eq_true, Bool.not_eq_true', Bool.or_eq_true, List.isEmpty_iff] at h
    obtain ⟨hreturn, hnext | hlive⟩ := h
    · exact .inr ⟨_, .stop hb (by simp [hreturn]) hnext, hu.unreplaced⟩
    · obtain ⟨c, hc, hneed⟩ := exists_needed_of_liveFrom hlive
      rcases hneed.cases_of_untouched hu with ⟨is, hcourse, hread⟩ | ⟨is, hlost, hkeep⟩
      · exact .inl ⟨_, .follow hb hc hcourse, hread⟩
      · exact .inr ⟨_, .follow hb hc hlost, hkeep⟩

/-- Where the answer is that a register is dead, its value is not lost on any way that does not
come back. -/
theorem not_lost_of_dead (hb : p.blocks[b]? = some k)
    (hend : endsInReturn (here :: k.insts.drop (place + 1)) = k.isReturn)
    (hback : ¬ TransGen (Leads p.blocks) b b)
    (hreturns : ∀ m ∈ p.blocks, m.isReturn → m.successors = [])
    (hdead : liveAfter p b here (k.insts.drop (place + 1)) r = false) {is : List Inst}
    (hlost : LostCourseAfter p.blocks b place is) : ¬ Unreplaced r is := by
  intro hkeep
  rw [liveAfter_eq hb hend] at hdead
  -- the rest of the block does not decide the answer
  have hrest : Unreplaced r (k.insts.drop (place + 1)) := by
    cases hlost with
    | stop hm =>
      obtain rfl := Option.some.inj (hb.symm.trans hm)
      exact hkeep
    | follow hm =>
      obtain rfl := Option.some.inj (hb.symm.trans hm)
      exact (unreplaced_append.1 hkeep).1
  have hread : ¬ ReadFirst r (k.insts.drop (place + 1)) := by
    rw [← scan_eq_true_iff]
    intro hscan
    rw [hscan] at hdead
    cases hdead
  rw [scan_eq_none_iff.2 (hrest.untouched hread)] at hdead
  simp only [Bool.and_eq_false_iff, Bool.not_eq_false', Bool.or_eq_false_iff] at hdead
  cases hlost with
  | stop hm hreturn hnext =>
    obtain rfl := Option.some.inj (hb.symm.trans hm)
    simp [hreturn, hnext] at hdead
  | @follow c m js hm hc hjs =>
    obtain rfl := Option.some.inj (hb.symm.trans hm)
    rcases hdead with hreturn | ⟨-, hsearch⟩
    · rw [hreturns k (List.mem_of_getElem? hb) hreturn] at hc
      exact absurd hc List.not_mem_nil
    · obtain ⟨visited, hx, hwork⟩ := exists_explored hsearch
      exact hx.not_lost hback (.single ⟨k, hb, hc⟩) (hwork hc) hjs (unreplaced_append.1 hkeep).2

end

/-- The search is exact after every instruction of a block that control does not come back to,
whatever the other blocks are like, if return blocks have no successors: a register is found
live exactly if its value is read on some way, or is still there where control is lost. -/
theorem liveAfter_iff_neededAfter (p : Procedure) (b place : Nat) (s : Site) (r : Reg)
    (hs : Site.at? p b place = some s) (hback : ¬ TransGen (Leads p.blocks) b b)
    (hreturns : ∀ k ∈ p.blocks, k.isReturn → k.successors = []) :
    liveAfter p b s.inst s.rest r = true ↔ NeededAfter p.blocks b place r := by
  obtain ⟨k, hb, -, hrest, hend⟩ := Site.at?_facts hs
  rw [hrest] at hend ⊢
  refine ⟨neededAfter_of_liveAfter hb hend, fun hneed => ?_⟩
  by_contra hlive
  have hdead := Bool.eq_false_iff.2 hlive
  rcases hneed with ⟨is, hcourse, hread⟩ | ⟨is, hlost, hkeep⟩
  · exact not_overlooked hback hreturns (overlooked_of_read hb hend hdead hcourse hread)
  · exact not_lost_of_dead hb hend hback hreturns hdead hlost hkeep

/-! ## A loop before a join -/

/-- A block that leads into a loop and past it, to a block that reads `r3` and returns. -/
def loopsBeforeJoin : Procedure where
  name := "f"
  blocks := [
    { lines := [⟨0, .make .movr [.use (.core 0), .use (.core 1), .cond .al, .use .noreg]⟩]
      successors := [1, 2] },
    { lines := [⟨1, .make .movr [.use (.core 2), .use (.core 0), .cond .al, .use .noreg]⟩]
      successors := [1, 2] },
    { lines := [
        ⟨2, .make .movr [.use (.core 0), .use (.core 3), .cond .al, .use .noreg]⟩,
        ⟨3, .make .bxRet [.cond .al, .use .noreg]⟩]
      successors := [] }]
  fresh := 4

/-- Control does not come back to the first block, though the second is a loop, so that the
search after the first instruction is exact; `r3` is live there. -/
theorem liveAfter_iff_neededAfter_loopsBeforeJoin :
    ∃ s, Site.at? loopsBeforeJoin 0 0 = some s ∧
      ¬ TransGen (Leads loopsBeforeJoin.blocks) 0 0 ∧ Leads loopsBeforeJoin.blocks 1 1 ∧
      (∀ k ∈ loopsBeforeJoin.blocks, k.isReturn → k.successors = []) ∧
      liveAfter loopsBeforeJoin 0 s.inst s.rest (.core 3) = true := by
  have hback : ¬ TransGen (Leads loopsBeforeJoin.blocks) 0 0 := by
    intro h
    obtain ⟨c, -, k, hk, hmem⟩ := TransGen.tail'_iff.1 h
    have hnone : ∀ k ∈ loopsBeforeJoin.blocks, 0 ∉ k.successors := by decide
    exact hnone k (List.mem_of_getElem? hk) hmem
  have hreturns : ∀ k ∈ loopsBeforeJoin.blocks, k.isReturn → k.successors = [] := by decide
  refine ⟨_, rfl, hback, ⟨_, rfl, by decide⟩, hreturns, ?_⟩
  refine (liveAfter_iff_neededAfter loopsBeforeJoin 0 0 _ (.core 3) rfl hback hreturns).2 (.inl ?_)
  have hjoin : Course loopsBeforeJoin.blocks 2 _ := .stop rfl
  have hloop : Course loopsBeforeJoin.blocks 1 _ := .follow (c := 2) rfl (by decide) hjoin
  refine ⟨_, .follow (c := 1) rfl (by decide) hloop, ?_⟩
  rw [← scan_eq_true_iff]
  decide

end Liveness

end FrameLowering
