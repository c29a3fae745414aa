import FrameLowering.Lowering.Scavenging
import Mathlib.Logic.Relation
import Mathlib.Tactic.Common

/-!
# Scratch registers and live values

When a scratch register is found without borrowing, its value should not be needed again.
Here the search for it is measured against all ways that control can take from the
instruction on. A search that ends without a reader has explored a set of blocks closed
under undecided successors (`exists_explored`), and reads outside of that set come in two
kinds only: in the first part of the block the search started from, when control comes
back to it, and after a block that ends in a return but has successors. The main statement
is that the register is dead exactly if there is neither (`findUnusedAt_dead_iff`).
-/

namespace FrameLowering

namespace Liveness

open Relation

/-! ## Instructions in a row -/

/-- The value that a register has before some instructions is read by one of them, and none
before that one is sure to replace it. -/
def ReadFirst (r : Reg) (is : List Inst) : Prop :=
  ∃ before i after, is = before ++ i :: after ∧ i.reads r ∧
    ∀ j ∈ before, ¬ (j.predicate.1 = Cond.al ∧ j.writes r)

/-- Some instructions neither read a register nor are sure to replace its value. -/
def Untouched (r : Reg) (is : List Inst) : Prop :=
  ∀ i ∈ is, ¬ i.reads r ∧ ¬ (i.predicate.1 = Cond.al ∧ i.writes r)

theorem scan_eq_none_iff {r : Reg} {is : List Inst} : scan r is = none ↔ Untouched r is := by
  induction is with
  | nil => simp [scan, Untouched]
  | cons i is ih =>
    rw [Untouched, List.forall_mem_cons, scan]
    by_cases hread : i.reads r
    · simp [hread]
    · by_cases hwrite : i.predicate.1 = Cond.al ∧ i.writes r
      · simp [hread, hwrite]
      · rw [if_neg hread, if_neg (by simpa using hwrite), ih]
        exact ⟨fun h => ⟨⟨hread, hwrite⟩, h⟩, fun h => h.2⟩

theorem readFirst_cons {r : Reg} {i : Inst} {is : List Inst} :
    ReadFirst r (i :: is) ↔
      i.reads r ∨ ¬ (i.predicate.1 = Cond.al ∧ i.writes r) ∧ ReadFirst r is := by
  constructor
  · rintro ⟨before, j, after, heq, hread, hkeep⟩
    cases before with
    | nil =>
      obtain ⟨rfl, -⟩ := List.cons.inj heq
      exact .inl hread
    | cons k before =>
      obtain ⟨rfl, rfl⟩ := List.cons.inj heq
      obtain ⟨hk, hkeep⟩ := List.forall_mem_cons.1 hkeep
      exact .inr ⟨hk, before, j, after, rfl, hread, hkeep⟩
  · rintro (hread | ⟨hi, before, j, after, rfl, hread, hkeep⟩)
    · exact ⟨[], i, is, rfl, hread, by simp⟩
    · exact ⟨i :: before, j, after, rfl, hread, List.forall_mem_cons.2 ⟨hi, hkeep⟩⟩

theorem scan_eq_true_iff {r : Reg} {is : List Inst} :
    scan r is = some true ↔ ReadFirst r is := by
  induction is with
  | nil => simp [scan, ReadFirst]
  | cons i is ih =>
    rw [readFirst_cons, scan]
    by_cases hread : i.reads r
    · simp [hread]
    · by_cases hwrite : i.predicate.1 = Cond.al ∧ i.writes r
      · simp [hread, hwrite]
      · rw [if_neg hread, if_neg (by simpa using hwrite), ih]
        simp [hread, hwrite]

theorem scan_append (r : Reg) (is js : List Inst) :
    scan r (is ++ js) = (scan r is).or (scan r js) := by
  induction is with
  | nil => rfl
  | cons i is ih =>
    rw [List.cons_append, scan, scan]
    split
    · rfl
    · split
      · rfl
      · exact ih

/-- A value that the first instructions leave alone is read first by all if it is read first
by the others. -/
theorem Untouched.readFirst_append {r : Reg} {is js : List Inst} (h : Untouched r is) :
    ReadFirst r (is ++ js) ↔ ReadFirst r js := by
  rw [← scan_eq_true_iff, ← scan_eq_true_iff, scan_append, scan_eq_none_iff.2 h, Option.none_or]

/-- A read among all comes among the first or after all of them left the value alone. -/
theorem ReadFirst.of_append {r : Reg} {is js : List Inst} (h : ReadFirst r (is ++ js)) :
    ReadFirst r is ∨ Untouched r is ∧ ReadFirst r js := by
  cases hs : scan r is with
  | none =>
    have hu := scan_eq_none_iff.1 hs
    exact .inr ⟨hu, hu.readFirst_append.1 h⟩
  | some live =>
    rw [← scan_eq_true_iff, scan_append, hs, Option.some_or] at h
    exact .inl (scan_eq_true_iff.1 (hs.trans h))

/-! ## Ways through the blocks -/

/-- The instructions of a way that begins at the head of a block and goes from block to
successor. -/
inductive Course (blocks : List Block) : Nat → List Inst → Prop
  | stop {b : Nat} {k : Block} (hb : blocks[b]? = some k) : Course blocks b k.insts
  | follow {b c : Nat} {k : Block} {is : List Inst} (hb : blocks[b]? = some k)
      (hc : c ∈ k.successors) (rest : Course blocks c is) : Course blocks b (k.insts ++ is)

/-- The instructions of a way that begins after a place of a block. -/
inductive CourseAfter (blocks : List Block) (b place : Nat) : List Inst → Prop
  | stop {k : Block} (hb : blocks[b]? = some k) :
      CourseAfter blocks b place (k.insts.drop (place + 1))
  | follow {c : Nat} {k : Block} {is : List Inst} (hb : blocks[b]? = some k)
      (hc : c ∈ k.successors) (rest : Course blocks c is) :
      CourseAfter blocks b place (k.insts.drop (place + 1) ++ is)

/-- Control can go from one block to another. -/
def Leads (blocks : List Block) (b c : Nat) : Prop :=
  ∃ k, blocks[b]? = some k ∧ c ∈ k.successors

/-- Control can go there with a register left alone on the way. -/
def Passes (blocks : List Block) (r : Reg) (b c : Nat) : Prop :=
  ∃ k, blocks[b]? = some k ∧ Untouched r k.insts ∧ c ∈ k.successors

/-- What a search after a place of a block does not look at: the block itself, once control
comes back to it, and everything after it if it ends in a return. -/
def Overlooked (blocks : List Block) (b place : Nat) (r : Reg) : Prop :=
  ∃ k, blocks[b]? = some k ∧ Untouched r (k.insts.drop (place + 1)) ∧
    ∃ c ∈ k.successors,
      (ReflTransGen (Passes blocks r) c b ∧ ReadFirst r k.insts) ∨
        (k.isReturn ∧ ∃ is, Course blocks c is ∧ ReadFirst r is)

/-- A block that reads a register is reached on a way that reads it. -/
theorem exists_course_of_passes {blocks : List Block} {r : Reg} {c b : Nat} {k : Block}
    (hpath : ReflTransGen (Passes blocks r) c b) (hb : blocks[b]? = some k)
    (hread : ReadFirst r k.insts) : ∃ is, Course blocks c is ∧ ReadFirst r is := by
  induction hpath using ReflTransGen.head_induction_on with
  | refl => exact ⟨_, .stop hb, hread⟩
  | head hstep _ ih =>
    obtain ⟨m, hm, hu, hd⟩ := hstep
    obtain ⟨is, hcourse, his⟩ := ih
    exact ⟨_, .follow hm hd hcourse, hu.readFirst_append.2 his⟩

theorem Overlooked.exists_read {blocks : List Block} {b place : Nat} {r : Reg}
    (h : Overlooked blocks b place r) :
    ∃ is, CourseAfter blocks b place is ∧ ReadFirst r is := by
  obtain ⟨k, hb, hu, c, hc, hmissed⟩ := h
  have hcourse : ∃ is, Course blocks c is ∧ ReadFirst r is := by
    rcases hmissed with ⟨hpath, hread⟩ | ⟨-, hcourse⟩
    · exact exists_course_of_passes hpath hb hread
    · exact hcourse
  obtain ⟨is, his, hread⟩ := hcourse
  exact ⟨_, .follow hb hc his, hu.readFirst_append.2 hread⟩

/-! ## The search -/

/-- Blocks that a search has visited, apart from those it was told not to: none of them reads
the register first, the successors of those that leave it alone are visited too, and those of
them without successors return. -/
structure Explored (blocks : List Block) (r : Reg) (seen visited : List Nat) : Prop where
  seen_subset : seen ⊆ visited
  unread : ∀ b ∈ visited, b ∉ seen → ∀ k, blocks[b]? = some k → ¬ ReadFirst r k.insts
  closed : ∀ b ∈ visited, b ∉ seen → ∀ k, blocks[b]? = some k → Untouched r k.insts →
    k.successors ⊆ visited
  leaves : ∀ b ∈ visited, b ∉ seen → ∀ k, blocks[b]? = some k → Untouched r k.insts →
    k.successors = [] → k.isReturn

/-- A block that was visited counts as one, whatever the search found in it, as long as that
was no read, and where it leaves the register alone its successors follow, or it returns. -/
theorem Explored.of_cons {blocks : List Block} {r : Reg} {seen visited : List Nat} {b : Nat}
    {k : Block} (h : Explored blocks r (b :: seen) visited) (hb : blocks[b]? = some k)
    (hread : ¬ ReadFirst r k.insts) (hnext : Untouched r k.insts → k.successors ⊆ visited)
    (hleave : Untouched r k.insts → k.successors = [] → k.isReturn) :
    Explored blocks r seen visited where
  seen_subset := List.Subset.trans (List.subset_cons_self b seen) h.seen_subset
  unread c hc hs m hm := by
    by_cases hcb : c = b
    · subst hcb
      exact Option.some.inj (hb.symm.trans hm) ▸ hread
    · exact h.unread c hc (by simp [hcb, hs]) m hm
  closed c hc hs m hm := by
    by_cases hcb : c = b
    · subst hcb
      exact Option.some.inj (hb.symm.trans hm) ▸ hnext
    · exact h.closed c hc (by simp [hcb, hs]) m hm
  leaves c hc hs m hm := by
    by_cases hcb : c = b
    · subst hcb
      exact Option.some.inj (hb.symm.trans hm) ▸ hleave
    · exact h.leaves c hc (by simp [hcb, hs]) m hm

/-- A position without a block changes nothing. -/
theorem Explored.cons_missing {blocks : List Block} {r : Reg} {seen visited : List Nat} {b : Nat}
    (h : Explored blocks r seen visited) (hb : blocks[b]? = none) :
    Explored blocks r seen (b :: visited) where
  seen_subset := List.Subset.trans h.seen_subset (List.subset_cons_self b visited)
  unread c hc hs k hk := by
    rcases List.mem_cons.1 hc with rfl | hc
    · rw [hb] at hk
      cases hk
    · exact h.unread c hc hs k hk
  closed c hc hs k hk hu := by
    rcases List.mem_cons.1 hc with rfl | hc
    · rw [hb] at hk
      cases hk
    · exact List.Subset.trans (h.closed c hc hs k hk hu) (List.subset_cons_self b visited)
  leaves c hc hs k hk hu := by
    rcases List.mem_cons.1 hc with rfl | hc
    · rw [hb] at hk
      cases hk
    · exact h.leaves c hc hs k hk hu

/-- A search that finds no reader ends with a closed set of visited blocks. -/
theorem exists_explored {blocks : List Block} {r : Reg} {seen work : List Nat}
    (h : liveFrom blocks r seen work = false) :
    ∃ visited, Explored blocks r seen visited ∧ work ⊆ visited := by
  induction seen, work using liveFrom.induct blocks r with
  | case1 seen => exact ⟨seen, ⟨List.Subset.refl _, by simp_all, by simp_all, by simp_all⟩, by simp⟩
  | case2 seen b work hs ih =>
    rw [liveFrom, dif_pos hs] at h
    obtain ⟨visited, hx, hw⟩ := ih h
    exact ⟨visited, hx, List.cons_subset.2 ⟨hx.seen_subset hs, hw⟩⟩
  | case3 seen b work hs hb hscan =>
    rw [liveFrom, dif_neg hs, dif_pos hb, hscan] at h
    cases h
  | case4 seen b work hs hb hscan ih =>
    rw [liveFrom, dif_neg hs, dif_pos hb, hscan] at h
    obtain ⟨visited, hx, hw⟩ := ih h
    -- the block overwrites the register, so that its successors do not matter
    have htouched : ¬ Untouched r blocks[b].insts := by
      rw [← scan_eq_none_iff, hscan]
      simp
    have hread : ¬ ReadFirst r blocks[b].insts := by
      rw [← scan_eq_true_iff, hscan]
      simp
    exact ⟨visited, hx.of_cons (List.getElem?_eq_getElem hb) hread
      (fun hu => absurd hu htouched) (fun hu => absurd hu htouched),
      List.cons_subset.2 ⟨hx.seen_subset (by simp), hw⟩⟩
  | case5 seen b work hs hb hscan hend =>
    rw [liveFrom, dif_neg hs, dif_pos hb, hscan] at h
    simp only [hend, if_true] at h
    cases h
  | case6 seen b work hs hb hscan hend ih =>
    rw [liveFrom, dif_neg hs, dif_pos hb, hscan] at h
    simp only [hend] at h
    obtain ⟨visited, hx, hw⟩ := ih h
    obtain ⟨hnext, hwork⟩ := List.append_subset.1 hw
    have hread : ¬ ReadFirst r blocks[b].insts := by
      rw [← scan_eq_true_iff, hscan]
      simp
    exact ⟨visited, hx.of_cons (List.getElem?_eq_getElem hb) hread (fun _ => hnext)
      (fun _ hnone => by simpa [hnone] using hend),
      List.cons_subset.2 ⟨hx.seen_subset (by simp), hwork⟩⟩
  | case7 seen b work hs hb ih =>
    rw [liveFrom, dif_neg hs, dif_neg hb] at h
    obtain ⟨visited, hx, hw⟩ := ih h
    have hnone : blocks[b]? = none := List.getElem?_eq_none (Nat.not_lt.1 hb)
    exact ⟨b :: visited, hx.cons_missing hnone, List.cons_subset_cons b hw⟩

/-- From a visited block on, the register is read only on ways that come back to the block
the search was kept from, and there only in that block. -/
theorem Explored.returns_of_read {blocks : List Block} {r : Reg} {visited : List Nat} {b c : Nat}
    {k : Block} {is : List Inst} (h : Explored blocks r [b] visited) (hb : blocks[b]? = some k)
    (hnext : k.successors ⊆ visited) (hc : c ∈ visited) (hcourse : Course blocks c is)
    (hread : ReadFirst r is) : ReflTransGen (Passes blocks r) c b ∧ ReadFirst r k.insts := by
  induction hcourse with
  | @stop c m hm =>
    by_cases hcb : c = b
    · subst hcb
      obtain rfl := Option.some.inj (hb.symm.trans hm)
      exact ⟨.refl, hread⟩
    · exact absurd hread (h.unread c hc (by simpa using hcb) m hm)
  | @follow c d m is hm hd _ ih =>
    rcases hread.of_append with hread | ⟨hu, hread⟩
    · by_cases hcb : c = b
      · subst hcb
        obtain rfl := Option.some.inj (hb.symm.trans hm)
        exact ⟨.refl, hread⟩
      · exact absurd hread (h.unread c hc (by simpa using hcb) m hm)
    · have hd' : d ∈ visited := by
        by_cases hcb : c = b
        · subst hcb
          obtain rfl := Option.some.inj (hb.symm.trans hm)
          exact hnext hd
        · exact h.closed c hc (by simpa using hcb) m hm hu hd
      obtain ⟨hpath, hblock⟩ := ih hd' hread
      exact ⟨.head ⟨m, hm, hu, hd⟩ hpath, hblock⟩

/-- The answer after an instruction of a block, where it says that the register is dead. -/
theorem overlooked_of_read {p : Procedure} {b place : Nat} {k : Block} {here : Inst} {r : Reg}
    {is : List Inst} (hb : p.blocks[b]? = some k)
    (hend : endsInReturn (here :: k.insts.drop (place + 1)) = k.isReturn)
    (hdead : liveAfter p b here (k.insts.drop (place + 1)) r = false)
    (hcourse : CourseAfter p.blocks b place is) (hread : ReadFirst r is) :
    Overlooked p.blocks b place r := by
  -- The rest of the block reads nothing, so the read comes after a successor is entered.
  have hrest : ¬ ReadFirst r (k.insts.drop (place + 1)) := by
    rw [← scan_eq_true_iff]
    intro hscan
    rw [liveAfter, hscan] at hdead
    cases hdead
  cases hcourse with
  | stop hk =>
    obtain rfl := Option.some.inj (hb.symm.trans hk)
    exact absurd hread hrest
  | @follow c m js hm hc hjs =>
    obtain rfl := Option.some.inj (hb.symm.trans hm)
    rcases hread.of_append with hread | ⟨hu, hread⟩
    · exact absurd hread hrest
    · refine ⟨k, hb, hu, c, hc, ?_⟩
      by_cases hret : k.isReturn
      · exact .inr ⟨hret, js, hjs, hread⟩
      · have hsearch : liveFrom p.blocks r [b] k.successors = false := by
          rw [liveAfter, scan_eq_none_iff.2 hu] at hdead
          simp only [hend, hb, Option.map_some, Option.getD_some] at hdead
          rw [if_neg hret] at hdead
          cases hnext : k.successors with
          | nil => simp [hnext] at hc
          | cons d ds => simpa only [hnext] using hdead
        obtain ⟨visited, hx, hnext⟩ := exists_explored hsearch
        exact .inl (hx.returns_of_read hb hnext (hnext hc) hjs hread)

end Liveness

namespace Site

/-- An instruction at a place is followed by the rest of its block. -/
theorem at?_facts {p : Procedure} {b place : Nat} {s : Site} (h : at? p b place = some s) :
    ∃ k, p.blocks[b]? = some k ∧ s.block = b ∧ s.rest = k.insts.drop (place + 1) ∧
      Liveness.endsInReturn (s.inst :: s.rest) = k.isReturn := by
  cases hk : p.blocks[b]? with
  | none => simp [at?, Procedure.lines, hk] at h
  | some k =>
    simp only [at?, Procedure.lines, hk] at h
    cases hdrop : k.lines.drop place with
    | nil => simp [hdrop] at h
    | cons l rest =>
      simp only [hdrop, Option.some.injEq] at h
      subst h
      have hlast : k.lines.getLast? = (l :: rest).getLast? := by
        rw [← hdrop, List.getLast?_drop, if_neg]
        intro hle
        rw [List.drop_eq_nil_of_le hle] at hdrop
        cases hdrop
      have hrest : rest.map Line.inst = k.insts.drop (place + 1) := by
        rw [Block.insts, ← List.map_drop, ← List.drop_drop, hdrop]
        rfl
      refine ⟨k, rfl, rfl, hrest, ?_⟩
      show Liveness.endsInReturn ((l :: rest).map Line.inst) = k.isReturn
      rw [Liveness.endsInReturn, List.getLast?_map, Block.isReturn, hlast]
      cases (l :: rest).getLast? with
      | none => rfl
      | some m => rfl

end Site

namespace Target

open Liveness

/-- A register that is handed out passed the test for being dead. -/
theorem findUnusedAt_facts {t : Target} {p : Procedure} {b place : Nat} {c : RegClass}
    {allowSaved : Bool} {r : Reg} (h : t.findUnusedAt p b place c allowSaved = .ok (some r)) :
    ∃ s, Site.at? p b place = some s ∧ liveAfter p s.block s.inst s.rest r = false := by
  cases hs : Site.at? p b place with
  | none => simp [findUnusedAt, hs] at h
  | some s =>
    cases hc : c.info with
    | error f => simp [findUnusedAt, hs, hc] at h
    | ok info =>
      simp only [findUnusedAt, hs, hc, Except.ok.injEq] at h
      have hfound := List.find?_some h
      simp only [Bool.and_eq_true, Bool.not_eq_true'] at hfound
      exact ⟨s, rfl, hfound.2⟩

/-- A register that the search hands out is dead on every way from the instruction on,
exactly if neither of the two kinds of reads that the search overlooks is there. -/
theorem findUnusedAt_dead_iff (t : Target) (p : Procedure) (b place : Nat) (c : RegClass)
    (allowSaved : Bool) (r : Reg) (h : t.findUnusedAt p b place c allowSaved = .ok (some r)) :
    (∀ is, CourseAfter p.blocks b place is → ¬ ReadFirst r is) ↔
      ¬ Overlooked p.blocks b place r := by
  constructor
  · intro hall hmissed
    obtain ⟨is, hcourse, hread⟩ := hmissed.exists_read
    exact hall is hcourse hread
  · intro hnone is hcourse hread
    obtain ⟨s, hs, hdead⟩ := findUnusedAt_facts h
    obtain ⟨k, hb, hblock, hrest, hend⟩ := Site.at?_facts hs
    rw [hblock, hrest] at hdead
    rw [hrest] at hend
    exact hnone (overlooked_of_read hb hend hdead hcourse hread)

/-! ## A loop that reads a register again -/

/-- A block that loops to itself, and reads `r12` in its first instruction only. -/
def readingLoop : Procedure where
  name := "f"
  blocks := [{
    lines := [
      ⟨0, .make .movr [.use (.core 3), .use .r12, .cond .al, .use .noreg]⟩,
      ⟨1, .make .str [.use (.core 0), .frameIndex 0, .use .noreg, .imm 0, .cond .al, .use .noreg]⟩]
    successors := [0] }]
  frame := { objects := [{ size := 4, align := 4 }] }
  fresh := 2

/-- The default convention, without options. -/
def plainDefault : Target :=
  ⟨defaultAbi, {}, rfl⟩

theorem liveAfter_readingLoop {i : Inst} (hi : i.isReturn = false) :
    liveAfter readingLoop 0 i [] .r12 = false := by
  simp only [liveAfter, scan, endsInReturn, List.getLast?_singleton, hi]
  show liveFrom readingLoop.blocks .r12 [0] [0] = false
  rw [liveFrom, dif_pos (by decide), liveFrom]

theorem findUnusedAt_readingLoop :
    plainDefault.findUnusedAt readingLoop 0 1 .gpr false = .ok (some .r12) := by
  show Except.ok (List.find? _ (Reg.r12 :: _)) = _
  rw [List.find?_cons_of_pos]
  exact Bool.and_eq_true_iff.2 ⟨by decide, by simpa using liveAfter_readingLoop rfl⟩

/-- The register handed out in a loop can be live: the next turn reads it. -/
theorem findUnusedAt_live_in_loop :
    plainDefault.findUnusedAt readingLoop 0 1 .gpr false = .ok (some .r12) ∧
      ∃ is, CourseAfter readingLoop.blocks 0 1 is ∧ ReadFirst .r12 is := by
  refine ⟨findUnusedAt_readingLoop, _, .follow rfl (List.mem_singleton.2 rfl) (.stop rfl), ?_⟩
  rw [← scan_eq_true_iff]
  decide

/-- In that loop the read is one that the search overlooks. -/
theorem findUnusedAt_dead_iff_readingLoop :
    plainDefault.findUnusedAt readingLoop 0 1 .gpr false = .ok (some .r12) ∧
      ((∀ is, CourseAfter readingLoop.blocks 0 1 is → ¬ ReadFirst .r12 is) ↔
        ¬ Overlooked readingLoop.blocks 0 1 .r12) :=
  ⟨findUnusedAt_readingLoop,
    findUnusedAt_dead_iff plainDefault readingLoop 0 1 .gpr false .r12 findUnusedAt_readingLoop⟩

end Target

end FrameLowering
