import FrameLowering.Lowering.Pairs
import Mathlib.Logic.Function.Basic

/-!
# Hints of pairs under renaming

The halves of a pair have hints that name each other. When one half is renamed, the hint of the
other half follows it, unless the pair has been split before or the new register is the other half
itself.

A table is looked at through `hint` and `hinted`. Recording a hint changes both at one register
(`RegTable.hint_setHint`, `RegTable.mem_hinted_setHint`), the empty hint included, which removes
what was recorded. A renaming records one hint or does nothing (`RegTable.renameHint_cases`), and
from these two cases comes what one renaming changes (`RegTable.renamesPartner_renameHint`) and that
it lets no register name itself (`RegTable.noSelfHints_renameHint`).
`RegTable.renamesPartner_of_noSelfHints` is the statement about every renaming of every sequence.
-/

namespace FrameLowering

/-- A register that is renamed, and what it is renamed to. -/
structure Renaming where
  old : Reg
  new : Reg
deriving DecidableEq, Repr

namespace RegTable

section
variable {t : RegTable} {m : Renaming} {r q : Reg} {h : Hint}

/-! ## Recorded hints -/

theorem mem_hinted : r ∈ t.hinted ↔ r ∈ t.hints.map Prod.fst :=
  List.mem_mergeSort

theorem lookup_filter_ne (l : List (Reg × Hint)) (r q : Reg) :
    (l.filter fun e => e.1 ≠ r).lookup q = if q = r then none else l.lookup q := by
  induction l with
  | nil => simp
  | cons e l ih =>
    by_cases her : e.1 = r
    · -- the entry is dropped, and a look for another register passes it
      rw [List.filter_cons_of_neg (by simpa using her), ih, List.lookup_cons]
      split
      · rfl
      · next hq => rw [beq_false_of_ne fun heq => hq (heq.trans her)]
    · rw [List.filter_cons_of_pos (by simpa using her), List.lookup_cons, List.lookup_cons]
      by_cases hqe : q = e.1
      · rw [hqe, beq_self_eq_true, if_neg her]
      · rw [beq_false_of_ne hqe, ih]

/-- The empty hint is removed from the table, and read back all the same: it is the hint of a
register without one. -/
theorem hint_setHint (t : RegTable) (r : Reg) (h : Hint) :
    (t.setHint r h).hint = Function.update t.hint r h := by
  funext q
  have hothers := lookup_filter_ne t.hints r q
  by_cases hempty : h = {}
  · rw [hint, setHint, if_pos hempty, hothers]
    by_cases hq : q = r
    · rw [if_pos hq, hq, Function.update_self, hempty, Option.getD_none]
    · rw [if_neg hq, Function.update_of_ne hq, hint]
  · rw [hint, setHint, if_neg hempty, List.lookup_cons]
    by_cases hq : q = r
    · rw [hq, beq_self_eq_true, Function.update_self, Option.getD_some]
    · rw [beq_false_of_ne hq, hothers, if_neg hq, Function.update_of_ne hq, hint]

theorem mem_hinted_setHint :
    q ∈ (t.setHint r h).hinted ↔ (q = r ∧ h ≠ {}) ∨ (q ≠ r ∧ q ∈ t.hinted) := by
  have hothers : q ∈ (t.hints.filter fun e => e.1 ≠ r).map Prod.fst ↔ q ≠ r ∧ q ∈ t.hinted := by
    simp only [mem_hinted, List.mem_map, List.mem_filter, decide_eq_true_eq]
    constructor
    · rintro ⟨e, ⟨hmem, hne⟩, rfl⟩
      exact ⟨hne, e, hmem, rfl⟩
    · rintro ⟨hne, e, hmem, rfl⟩
      exact ⟨e, ⟨hmem, hne⟩, rfl⟩
  rw [mem_hinted, setHint]
  split
  · next hempty =>
    rw [hothers]
    simp [hempty]
  · next hempty =>
    rw [List.map_cons, List.mem_cons, hothers]
    simp [hempty]

/-! ## One renaming -/

/-- A register is half of a pair, and its hint names the other half. -/
def IsPartner (t : RegTable) (r q : Reg) : Prop :=
  (t.hint r).kind.isPair ∧ (t.hint r).reg = q

/-- The hint of a register follows a renaming. -/
structure Follows (t : RegTable) (m : Renaming) (q : Reg) : Prop where
  isPartner : t.IsPartner m.old q
  isVirtual : q.isVirtual
  ne_new : q ≠ m.new
  names_old : (t.hint q).reg = m.old

theorem renameHint_cases (t : RegTable) (m : Renaming) :
    (∃ q, t.Follows m q ∧ t.renameHint m.old m.new = t.setHint q ⟨(t.hint q).kind, m.new⟩) ∨
      (∀ q, ¬ t.Follows m q) ∧ t.renameHint m.old m.new = t := by
  simp only [renameHint]
  split
  · next hfollows =>
    simp only [Bool.and_eq_true, decide_eq_true_eq] at hfollows
    obtain ⟨⟨⟨hpair, hvirtual⟩, hne⟩, hnames⟩ := hfollows
    exact .inl ⟨(t.hint m.old).reg, ⟨⟨hpair, rfl⟩, hvirtual, hne, hnames⟩, rfl⟩
  · next hstays =>
    refine .inr ⟨?_, rfl⟩
    rintro q ⟨⟨hpair, rfl⟩, hvirtual, hne, hnames⟩
    exact hstays (by simp [hpair, hvirtual, hne, hnames])

/-- Only one register follows a renaming. -/
theorem Follows.eq (hr : t.Follows m r) (hq : t.Follows m q) : r = q :=
  hr.isPartner.2.symm.trans hq.isPartner.2

theorem renameHint_of_follows (hq : t.Follows m q) :
    (t.renameHint m.old m.new).hint q = ⟨(t.hint q).kind, m.new⟩ ∧
      (q ∈ (t.renameHint m.old m.new).hinted ↔ (t.renameHint m.old m.new).hint q ≠ {}) := by
  rcases t.renameHint_cases m with ⟨r, hr, heq⟩ | ⟨hnone, -⟩
  · obtain rfl := hr.eq hq
    rw [heq, hint_setHint, Function.update_self, mem_hinted_setHint]
    simp
  · exact absurd hq (hnone q)

theorem renameHint_of_not_follows (hq : ¬ t.Follows m q) :
    (t.renameHint m.old m.new).hint q = t.hint q ∧
      (q ∈ (t.renameHint m.old m.new).hinted ↔ q ∈ t.hinted) := by
  rcases t.renameHint_cases m with ⟨r, hr, heq⟩ | ⟨-, heq⟩
  · have hne : q ≠ r := by
      rintro rfl
      exact hq hr
    rw [heq, hint_setHint, Function.update_of_ne hne, mem_hinted_setHint]
    simp [hne]
  · rw [heq]
    exact ⟨rfl, Iff.rfl⟩

/-- What a renaming may change in a table. Every register has a hint here: one for which nothing is
recorded has the empty one. -/
structure RenamesPartner (t : RegTable) (m : Renaming) (t' : RegTable) : Prop where
  /-- The hint of a register stays, unless the renamed register is in a pair with it. -/
  others : ∀ q, ¬ t.IsPartner m.old q →
    t'.hint q = t.hint q ∧ (q ∈ t'.hinted ↔ q ∈ t.hinted)
  /-- The hint of the other half changes only if that is a virtual register, is not the new one
  and still named the old one. -/
  changed : ∀ q, t.IsPartner m.old q → t'.hint q ≠ t.hint q →
    q.isVirtual ∧ q ≠ m.new ∧ (t.hint q).reg = m.old
  /-- In that case it keeps its kind and names the new register. It is recorded unless it is
  empty. -/
  renamed : ∀ q, t.IsPartner m.old q → q.isVirtual → q ≠ m.new → (t.hint q).reg = m.old →
    t'.hint q = ⟨(t.hint q).kind, m.new⟩ ∧ (q ∈ t'.hinted ↔ t'.hint q ≠ {})
  used : t'.used = t.used
  virtuals : t'.virtuals = t.virtuals

theorem setHint_keeps (t : RegTable) (r : Reg) (h : Hint) :
    (t.setHint r h).used = t.used ∧ (t.setHint r h).virtuals = t.virtuals := by
  rw [setHint]
  split <;> exact ⟨rfl, rfl⟩

theorem renamesPartner_renameHint (t : RegTable) (m : Renaming) :
    t.RenamesPartner m (t.renameHint m.old m.new) := by
  have hkeeps : (t.renameHint m.old m.new).used = t.used ∧
      (t.renameHint m.old m.new).virtuals = t.virtuals := by
    rcases t.renameHint_cases m with ⟨r, -, heq⟩ | ⟨-, heq⟩
    · rw [heq]
      exact t.setHint_keeps r _
    · rw [heq]
      exact ⟨rfl, rfl⟩
  refine ⟨?_, ?_, ?_, hkeeps.1, hkeeps.2⟩
  · intro q hq
    exact renameHint_of_not_follows fun hfollows => hq hfollows.isPartner
  · intro q _ hchanged
    by_contra hstays
    have hnot : ¬ t.Follows m q := fun h => hstays ⟨h.isVirtual, h.ne_new, h.names_old⟩
    exact hchanged (renameHint_of_not_follows hnot).1
  · intro q hpartner hvirtual hne hnames
    exact renameHint_of_follows ⟨hpartner, hvirtual, hne, hnames⟩

/-! ## Hints that name their own register -/

/-- No hint that is recorded names the register that it is recorded for. -/
def NoSelfHints (t : RegTable) : Prop :=
  ∀ r ∈ t.hinted, (t.hint r).reg ≠ r

theorem noSelfHints_iff (t : RegTable) :
    t.NoSelfHints ↔ ∀ r ∈ t.hints.map Prod.fst, (t.hint r).reg ≠ r :=
  forall_congr' fun _ => imp_congr_left mem_hinted

instance (t : RegTable) : Decidable t.NoSelfHints :=
  decidable_of_iff _ t.noSelfHints_iff.symm

/-- The register that follows is not the new one, so that its hint does not come to name it. -/
theorem noSelfHints_renameHint (ht : t.NoSelfHints) (m : Renaming) :
    (t.renameHint m.old m.new).NoSelfHints := by
  intro q hq
  by_cases hfollows : t.Follows m q
  · rw [(renameHint_of_follows hfollows).1]
    exact hfollows.ne_new.symm
  · obtain ⟨hhint, hmem⟩ := renameHint_of_not_follows hfollows
    rw [hhint]
    exact ht q (hmem.1 hq)

/-! ## Sequences of renamings -/

/-- The table after registers are renamed, one after another. -/
def renameAll (t : RegTable) (ms : List Renaming) : RegTable :=
  ms.foldl (fun t m => t.renameHint m.old m.new) t

theorem renameAll_append_singleton (t : RegTable) (ms : List Renaming) (m : Renaming) :
    t.renameAll (ms ++ [m]) = (t.renameAll ms).renameHint m.old m.new := by
  rw [renameAll, List.foldl_append, List.foldl_cons, List.foldl_nil, renameAll]

theorem noSelfHints_renameAll (ht : t.NoSelfHints) (ms : List Renaming) :
    (t.renameAll ms).NoSelfHints := by
  induction ms generalizing t with
  | nil => exact ht
  | cons m ms ih => exact ih (noSelfHints_renameHint ht m)

/-- Whichever registers are renamed, and in whichever order: after each renaming still no hint
names its own register, and the renaming has changed no hint but that of the other half of a
pair. -/
theorem renamesPartner_of_noSelfHints (ht : t.NoSelfHints) {ms : List Renaming} (n : Nat)
    (hm : ms[n]? = some m) :
    (t.renameAll (ms.take (n + 1))).NoSelfHints ∧
      (t.renameAll (ms.take n)).RenamesPartner m (t.renameAll (ms.take (n + 1))) := by
  have hlast : ms.take (n + 1) = ms.take n ++ [m] := by
    rw [List.take_add_one, hm, Option.toList_some]
  refine ⟨noSelfHints_renameAll ht _, ?_⟩
  rw [hlast, renameAll_append_singleton]
  exact renamesPartner_renameHint _ m

end

/-- Two pairs of virtual registers. Half of the second one asks for the other half itself. -/
def twoPairs : RegTable where
  hints := [(.ofNumber 32768, ⟨.even, .ofNumber 32769⟩), (.ofNumber 32769, ⟨.odd, .ofNumber 32768⟩),
    (.ofNumber 32770, ⟨.even, .ofNumber 32771⟩), (.ofNumber 32771, ⟨.same, .ofNumber 32770⟩)]

/-- The first register is renamed to its partner, and twice to others; the third one loses its
name. -/
def twoPairs.renamings : List Renaming :=
  [⟨.ofNumber 32768, .ofNumber 32769⟩, ⟨.ofNumber 32768, .ofNumber 32772⟩,
    ⟨.ofNumber 32768, .ofNumber 32773⟩, ⟨.ofNumber 32770, .noreg⟩]

/-- The partner stays where it would come to name itself, then follows once. In the other pair
nothing is left to record for the partner. -/
theorem renamesPartner_of_noSelfHints_twoPairs :
    twoPairs.NoSelfHints ∧
    (twoPairs.renameAll (twoPairs.renamings.take 1)).hint (.ofNumber 32769) =
      ⟨.odd, .ofNumber 32768⟩ ∧
    (twoPairs.renameAll (twoPairs.renamings.take 2)).hint (.ofNumber 32769) =
      ⟨.odd, .ofNumber 32772⟩ ∧
    (twoPairs.renameAll (twoPairs.renamings.take 3)).hint (.ofNumber 32769) =
      ⟨.odd, .ofNumber 32772⟩ ∧
    .ofNumber 32771 ∉ (twoPairs.renameAll (twoPairs.renamings.take 4)).hinted ∧
    (twoPairs.renameAll (twoPairs.renamings.take 4)).NoSelfHints := by
  have ht : twoPairs.NoSelfHints := by decide
  have hrun (n : Nat) (m : Renaming) (hm : twoPairs.renamings[n]? = some m) :=
    renamesPartner_of_noSelfHints ht n hm
  refine ⟨ht, ?_, ?_, ?_, ?_, (hrun 3 _ rfl).1⟩
  · by_contra hne
    exact absurd ((hrun 0 _ rfl).2.changed _ ⟨by decide, rfl⟩ hne).2.1 (by decide)
  · exact ((hrun 1 _ rfl).2.renamed _ ⟨by decide, by decide⟩ rfl (by decide) (by decide)).1
  · by_contra hne
    exact absurd ((hrun 2 _ rfl).2.changed _ ⟨by decide, rfl⟩ hne).2.2 (by decide)
  · obtain ⟨hempty, hrecorded⟩ := (hrun 3 _ rfl).2.renamed (.ofNumber 32771)
      ⟨by decide, by decide⟩ rfl (by decide) (by decide)
    exact fun hmem => hrecorded.1 hmem hempty

end RegTable

end FrameLowering
