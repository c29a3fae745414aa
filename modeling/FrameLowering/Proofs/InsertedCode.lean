import FrameLowering.Proofs.FrameCode

/-!
# Inserted code

A triple for code that frame lowering inserts: wherever the code stands and whatever labels
it got, after the walk through it and from a state in `pre` it ends in `post`
(`Target.Meets`). Code without frame indices is executed as it is. An access to a slot in a
callee-saved area is executed in one go, because the areas are small and the stack pointer is
at the bottom of the area.
-/

namespace FrameLowering

open ImmediateField (word)

namespace Target

/-- Inserted code leads from `pre` to `post`, and nothing is expected of its lines. -/
structure Meets (t : Target) (w : WideSet) (p : Procedure) (k : Watch) (first : Nat)
    (is : List Inst) (pre post : State → Prop) : Prop where
  unmarked : ∀ i ∈ is, i.op.isMarker = false
  pieces : ∀ block ls spAdj ps s, Line.IsNew first is ls → Walks t w p block 0 ls spAdj ps →
    pre s → k.Pieces post ps s

section
variable {t : Target} {w : WideSet} {p : Procedure} {k : Watch} {first : Nat}
  {is js : List Inst} {pre mid post : State → Prop}

/-- Only markers count as moves of the stack pointer. -/
theorem Walks.spAdj_of_unmarked {block : Nat} {spAdj spAdj' : Int64} {ls : List Line}
    {ps : List Piece} (h : Walks t w p block spAdj ls spAdj' ps)
    (hls : ∀ l ∈ ls, l.inst.op.isMarker = false) : spAdj' = spAdj := by
  induction h with
  | nil => rfl
  | marker hop =>
    rw [hls _ List.mem_cons_self] at hop
    cases hop
  | plain _ _ _ ih => exact ih fun l hl => hls l (List.mem_cons_of_mem _ hl)
  | expand _ _ _ ih => exact ih fun l hl => hls l (List.mem_cons_of_mem _ hl)

/-- No scratch register is taken if nothing is left of the offset. -/
theorem Expands.eq_alone {block : Nat} {i : Inst} {spAdj : Int64} {e : Expansion} {r : Rebased}
    (h : Expands t w p block i spAdj e) (hr : t.rebase w p block i spAdj = .ok r)
    (hrest : r.rest = 0) : e = { inst := r.inst } := by
  have hother {r' : Rebased} (hr' : t.rebase w p block i spAdj = .ok r') : r' = r :=
    Except.ok.inj (hr'.symm.trans hr)
  cases h with
  | direct h =>
    cases h with
    | alone hr' => rw [hother hr']
    | through hr' hne => exact absurd (hother hr' ▸ hrest) hne
  | borrowed hr' hne => exact absurd (hother hr' ▸ hrest) hne

theorem Meets.spAdj_eq (h : Meets t w p k first is pre post) {block : Nat} {spAdj : Int64}
    {ls : List Line} {ps : List Piece} (hls : Line.IsNew first is ls)
    (hwalk : Walks t w p block 0 ls spAdj ps) : spAdj = 0 :=
  hwalk.spAdj_of_unmarked fun _ hl => h.unmarked _ (hls.mem hl)

theorem Meets.mono {pre' post' : State → Prop} (h : Meets t w p k first is pre post)
    (hpre : ∀ s, pre' s → pre s) (hpost : ∀ s, post s → post' s) :
    Meets t w p k first is pre' post' := by
  refine ⟨h.unmarked, ?_⟩
  intro block ls spAdj ps s hls hwalk hs
  exact (h.pieces block ls spAdj ps s hls hwalk (hpre s hs)).mono hpost

theorem meets_nil (h : ∀ s, pre s → post s) : Meets t w p k first [] pre post := by
  refine ⟨fun i hi => absurd hi List.not_mem_nil, ?_⟩
  intro block ls spAdj ps s hls hwalk hs
  obtain rfl := List.map_eq_nil_iff.1 hls.1
  cases hwalk
  exact h s hs

theorem Meets.append (h : Meets t w p k first is pre mid) (h' : Meets t w p k first js mid post) :
    Meets t w p k first (is ++ js) pre post := by
  refine ⟨fun i hi => ?_, ?_⟩
  · rcases List.mem_append.1 hi with hi | hi
    · exact h.unmarked i hi
    · exact h'.unmarked i hi
  · intro block ls spAdj ps s hls hwalk hs
    obtain ⟨ms, ns, rfl, hms, hns⟩ := hls.append_inv
    obtain ⟨between, qs, rs, hqs, hrs, rfl⟩ := hwalk.append_inv
    -- the second part is walked from where the first ended, which is where it began
    obtain rfl := h.spAdj_eq hms hqs
    refine Watch.Pieces.append ?_
    refine (h.pieces block ms 0 qs s hms hqs hs).mono fun s' hs' => ?_
    exact h'.pieces block ns spAdj rs s' hns hrs hs'

/-- Code without frame indices is executed as it is. -/
theorem meets_plain (hnew : k.PassesNew first)
    (hplain : ∀ i ∈ is, i.isReturn = false ∧ i.op.isMarker = false ∧ i.frameIndexAt = none)
    (h : ∀ s s', pre s → ExecAll is s s' → post s') : Meets t w p k first is pre post := by
  refine ⟨fun i hi => (hplain i hi).2.1, ?_⟩
  intro block ls spAdj ps s hls hwalk hs
  have hend : ∀ s', ExecAll is s s' → post s' := fun s' => h s s' hs
  clear h hs
  induction is generalizing ls ps s with
  | nil =>
    obtain rfl := List.map_eq_nil_iff.1 hls.1
    cases hwalk
    exact hend s rfl
  | cons i is ih =>
    obtain ⟨l, ms, rfl, rfl, hl, hms⟩ := hls.cons_inv
    have hi := hplain l.inst List.mem_cons_self
    -- of the ways to walk on, only the plain one is left
    cases hwalk with
    | marker hop => simp [hi.2.1] at hop
    | expand hop he =>
      obtain ⟨r, hr⟩ := he.rebase
      obtain ⟨_, _, _, hplace, -⟩ := rebase_cases hr
      rw [hi.2.2] at hplace
      cases hplace
    | plain _ _ hrest =>
      refine ⟨hnew l s hl hi.1, fun s' heff _ => ?_⟩
      refine ih (fun j hj => hplain j (List.mem_cons_of_mem _ hj)) _ _ s' hms hrest ?_
      intro s'' hs''
      exact hend s'' ⟨s', heff, hs''⟩

/-- An access to a frame object whose offset can be folded in. -/
theorem meets_access {i : Inst} {index : Int64} (entry : State)
    (hnew : k.PassesNew first)
    (hmarker : i.op.isMarker = false) (hplace : i.frameIndexAt = some 1)
    (hindex : i.operands[1]? = some (.frameIndex index))
    (hrest : ∀ block r, t.rebase w p block i 0 = .ok r → r.rest = 0)
    (hfinds : ∀ s, pre s → t.Finds p entry 0 index s)
    (h : ∀ s s' o i', pre s → p.frame.object? index = some o → i.Forms i' (p.home entry o) s →
      i'.Effect s s' → post s') : Meets t w p k first [i] pre post := by
  refine ⟨fun j hj => List.mem_singleton.1 hj ▸ hmarker, ?_⟩
  intro block ls spAdj ps s hls hwalk hs
  obtain ⟨l, ms, rfl, rfl, hl, hms⟩ := hls.cons_inv
  obtain rfl := List.map_eq_nil_iff.1 hms.1
  cases hwalk with
  | marker hop => simp [hmarker] at hop
  | plain _ hnone =>
    rw [hplace] at hnone
    cases hnone
  | expand _ he hnil =>
    cases hnil
    obtain ⟨r, hr⟩ := he.rebase
    obtain ⟨o, ho⟩ := object_of_rebase hr hplace hindex
    have hzero := hrest block r hr
    obtain rfl := he.eq_alone hr hzero
    refine ⟨hnew _ s hl (rebase_flags hr), fun s' heff _ => ?_⟩
    exact h s s' o r.inst hs ho (forms_of_rebase hr hplace hindex ho (hfinds s hs) hzero) heff

end

end Target

end FrameLowering
