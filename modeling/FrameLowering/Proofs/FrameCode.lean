import FrameLowering.Lowering.Pipeline
import FrameLowering.Proofs.BodyExecution
import FrameLowering.Proofs.FramePlacement

/-!
# The code of a frame

Frame lowering puts code in front of the entry block and before every return, and leaves the
lines in between as they are (`Procedure.Framed`). What it puts there is first the stores and
loads of the saved registers, and in the end the whole prologue (`Target.prologueCode`) and
epilogue (`Target.epilogueCode`).
-/

namespace FrameLowering

/-- Lines with some instructions, and labels from `first` on. -/
def Line.IsNew (first : Nat) (is : List Inst) (ls : List Line) : Prop :=
  ls.map Line.inst = is ∧ ∀ l ∈ ls, first ≤ l.label

namespace Line

theorem isNew_nil (first : Nat) : IsNew first [] [] :=
  ⟨rfl, fun _ h => absurd h List.not_mem_nil⟩

theorem isNew_number {first n : Nat} (h : first ≤ n) (is : List Inst) :
    IsNew first is (number n is) := by
  induction is generalizing n with
  | nil => exact isNew_nil first
  | cons i is ih =>
    obtain ⟨hinsts, hlabels⟩ := ih (Nat.le_succ_of_le h)
    refine ⟨congrArg (i :: ·) hinsts, fun l hl => ?_⟩
    rcases List.mem_cons.1 hl with rfl | hl
    · exact h
    · exact hlabels l hl

theorem IsNew.append {first : Nat} {is js : List Inst} {ls ms : List Line} (h : IsNew first is ls)
    (h' : IsNew first js ms) : IsNew first (is ++ js) (ls ++ ms) := by
  refine ⟨by rw [List.map_append, h.1, h'.1], fun l hl => ?_⟩
  rcases List.mem_append.1 hl with hl | hl
  · exact h.2 l hl
  · exact h'.2 l hl

theorem IsNew.append_inv {first : Nat} {is js : List Inst} {ls : List Line}
    (h : IsNew first (is ++ js) ls) :
    ∃ ms ns, ls = ms ++ ns ∧ IsNew first is ms ∧ IsNew first js ns := by
  obtain ⟨ms, ns, rfl, his, hjs⟩ := List.map_eq_append_iff.1 h.1
  exact ⟨ms, ns, rfl, ⟨his, fun l hl => h.2 l (List.mem_append_left _ hl)⟩,
    ⟨hjs, fun l hl => h.2 l (List.mem_append_right _ hl)⟩⟩

theorem IsNew.cons_inv {first : Nat} {i : Inst} {is : List Inst} {ls : List Line}
    (h : IsNew first (i :: is) ls) :
    ∃ l ms, ls = l :: ms ∧ l.inst = i ∧ first ≤ l.label ∧ IsNew first is ms := by
  obtain ⟨l, ms, rfl, hi, his⟩ := List.map_eq_cons_iff.1 h.1
  exact ⟨l, ms, rfl, hi, h.2 l List.mem_cons_self,
    his, fun m hm => h.2 m (List.mem_cons_of_mem _ hm)⟩

theorem IsNew.mem {first : Nat} {is : List Inst} {ls : List Line} {l : Line}
    (h : IsNew first is ls) (hl : l ∈ ls) : l.inst ∈ is :=
  h.1 ▸ List.mem_map_of_mem hl

/-- Lines that are there under a condition. -/
theorem IsNew.mem_of_ite {first : Nat} {c : Prop} [Decidable c] {is : List Inst} {ls : List Line}
    {l : Line} (h : IsNew first (if c then is else []) ls) (hl : l ∈ ls) : l.inst ∈ is := by
  have hin := h.mem hl
  split at hin
  · exact hin
  · exact absurd hin List.not_mem_nil

end Line

namespace Block

/-- The lines of a block, without a return at its end. -/
def body (b : Block) : List Line :=
  if b.isReturn then b.lines.dropLast else b.lines

/-- The return at the end of a block, if there is one. -/
def exit (b : Block) : List Line :=
  if b.isReturn then b.lines.drop (b.lines.length - 1) else []

theorem exit_of_isReturn {b : Block} (h : b.isReturn) :
    ∃ l, b.exit = [l] ∧ l.inst.isReturn ∧ b.lines = b.body ++ [l] := by
  have hlast := h
  rw [isReturn] at hlast
  cases hl : b.lines.getLast? with
  | none => simp [hl] at hlast
  | some l =>
    rw [hl] at hlast
    have hlines : b.lines = b.lines.dropLast ++ [l] := by
      obtain ⟨xs, hxs⟩ := List.getLast?_eq_some_iff.1 hl
      rw [hxs, List.dropLast_concat]
    refine ⟨l, ?_, hlast, ?_⟩
    · rw [exit, if_pos h]
      conv => lhs; rw [hlines]
      rw [List.drop_append]
      simp
    · rw [body, if_pos h]
      exact hlines

theorem isReturn_of_mem_exit {b : Block} {l : Line} (h : l ∈ b.exit) : l.inst.isReturn := by
  by_cases hreturn : b.isReturn
  · obtain ⟨m, hexit, hm, -⟩ := exit_of_isReturn hreturn
    rw [hexit] at h
    obtain rfl := List.mem_singleton.1 h
    exact hm
  · rw [exit, if_neg hreturn] at h
    exact absurd h List.not_mem_nil

theorem body_append_exit (b : Block) : b.body ++ b.exit = b.lines := by
  by_cases h : b.isReturn
  · obtain ⟨l, hexit, -, hlines⟩ := exit_of_isReturn h
    rw [hexit, ← hlines]
  · rw [body, exit, if_neg h, if_neg h, List.append_nil]

/-- Code around a body does not make a block return. -/
theorem isReturn_framed {b : Block} {as es : List Line}
    (has : ∀ l ∈ as, l.inst.isReturn = false) (hes : ¬ b.isReturn → es = []) :
    ({ b with lines := as ++ b.body ++ es ++ b.exit } : Block).isReturn = b.isReturn := by
  by_cases h : b.isReturn
  · obtain ⟨l, hexit, hl, -⟩ := exit_of_isReturn h
    rw [hexit, h, isReturn]
    simp [hl]
  · have hexit : b.exit = [] := if_neg h
    have hbody : b.body = b.lines := if_neg h
    rw [hexit, hes h, hbody, List.append_nil, List.append_nil]
    cases hl : b.lines.getLast? with
    | some l =>
      rw [isReturn, isReturn, List.getLast?_append, hl]
      rfl
    | none =>
      have hnil : b.lines = [] := List.getLast?_eq_none_iff.1 hl
      rw [isReturn, isReturn, hnil, List.append_nil]
      cases hlast : as.getLast? with
      | none => rfl
      | some l =>
        exact has l (List.mem_of_getLast? hlast)

end Block

namespace Procedure

theorem getElem?_setLines (p : Procedure) (k j : Nat) (ls : List Line) :
    (p.setLines k ls).blocks[j]? =
      if k = j then p.blocks[j]?.map fun b => { b with lines := ls } else p.blocks[j]? := by
  show (p.blocks.modify k _)[j]? = _
  split
  · next h =>
    subst h
    rw [List.getElem?_modify_eq]
    rfl
  · next h => rw [List.getElem?_modify_ne _ _ h]

/-- A function like another, with `head` in front of the entry block and with `tail` before
the return of each block that has one. -/
structure Framed (first : Nat) (head : List Inst) (tail : Nat → List Inst) (p q : Procedure) :
    Prop where
  fresh : first ≤ q.fresh
  length : q.blocks.length = p.blocks.length
  block : ∀ k b, p.blocks[k]? = some b → ∃ as es,
    Line.IsNew first (if k = 0 then head else []) as ∧
      Line.IsNew first (if b.isReturn then tail k else []) es ∧
      q.blocks[k]? = some { b with lines := as ++ b.body ++ es ++ b.exit }

section
variable {p q : Procedure} {first n k : Nat} {head : List Inst} {tail : Nat → List Inst} {b : Block}
  {ls : List Line}

theorem framed_refl (p : Procedure) : Framed p.fresh [] (fun _ => []) p p := by
  refine ⟨Nat.le_refl _, rfl, fun k b hb => ⟨[], [], ?_, ?_, ?_⟩⟩
  · rw [ite_self]
    exact Line.isNew_nil _
  · rw [ite_self]
    exact Line.isNew_nil _
  · rw [hb, List.nil_append, List.append_nil, b.body_append_exit]

theorem Framed.congr {tail' : Nat → List Inst} (h : Framed first head tail p q)
    (htail : ∀ k b, p.blocks[k]? = some b → b.isReturn → tail' k = tail k) :
    Framed first head tail' p q := by
  refine ⟨h.fresh, h.length, fun k b hb => ?_⟩
  obtain ⟨as, es, has, hes, hblock⟩ := h.block k b hb
  refine ⟨as, es, has, ?_, hblock⟩
  split
  · next hret =>
    rw [htail k b hb hret]
    rwa [if_pos hret] at hes
  · next hret => rwa [if_neg hret] at hes

/-- New code before the return of one block. -/
theorem Framed.setTail {new : List Inst} (h : Framed first head tail p q)
    (hb : p.blocks[k]? = some b) (hn : first ≤ n)
    (hls : ∀ as es, Line.IsNew first (if k = 0 then head else []) as →
      Line.IsNew first (tail k) es → q.lines k = as ++ b.body ++ es ++ b.exit →
      ∃ es', Line.IsNew first new es' ∧ ls = as ++ b.body ++ es' ++ b.exit)
    (hreturn : b.isReturn) :
    Framed first head (fun j => if j = k then new else tail j) p
      { q.setLines k ls with fresh := n } := by
  refine ⟨hn, ?_, fun j c hc => ?_⟩
  · show (q.blocks.modify k _).length = _
    rw [List.length_modify, h.length]
  · obtain ⟨as, es, has, hes, hblock⟩ := h.block j c hc
    by_cases hjk : k = j
    · subst hjk
      obtain rfl := Option.some.inj (hb.symm.trans hc)
      rw [if_pos hreturn] at hes
      obtain ⟨es', hes', rfl⟩ := hls as es has hes (by rw [lines, hblock])
      refine ⟨as, es', has, ?_, ?_⟩
      · rw [if_pos hreturn, if_pos rfl]
        exact hes'
      · show (q.setLines k _).blocks[k]? = _
        rw [getElem?_setLines, if_pos rfl, hblock]
        rfl
    · refine ⟨as, es, has, ?_, ?_⟩
      · rw [if_neg (Ne.symm hjk)]
        exact hes
      · show (q.setLines k _).blocks[j]? = _
        rw [getElem?_setLines, if_neg hjk, hblock]

/-- New code in front of the entry block. -/
theorem Framed.setHead {new : List Inst} (h : Framed first head tail p q) (hn : first ≤ n)
    (hls : ∀ b as es, p.blocks[0]? = some b → Line.IsNew first head as →
      Line.IsNew first (if b.isReturn then tail 0 else []) es →
      q.lines 0 = as ++ (b.body ++ es ++ b.exit) →
      ∃ as', Line.IsNew first new as' ∧ ls = as' ++ (b.body ++ es ++ b.exit)) :
    Framed first new tail p { q.setLines 0 ls with fresh := n } := by
  refine ⟨hn, ?_, fun j c hc => ?_⟩
  · show (q.blocks.modify 0 _).length = _
    rw [List.length_modify, h.length]
  · obtain ⟨as, es, has, hes, hblock⟩ := h.block j c hc
    by_cases hj : j = 0
    · subst hj
      rw [if_pos rfl] at has
      obtain ⟨as', has', rfl⟩ := hls c as es hc has hes (by simp [lines, hblock])
      refine ⟨as', es, by rwa [if_pos rfl], hes, ?_⟩
      show (q.setLines 0 _).blocks[0]? = _
      rw [getElem?_setLines, if_pos rfl, hblock]
      simp
    · rw [if_neg hj] at has
      refine ⟨as, es, by rwa [if_neg hj], hes, ?_⟩
      show (q.setLines 0 _).blocks[j]? = _
      rw [getElem?_setLines, if_neg (Ne.symm hj), hblock]

/-- Blocks return if they returned before. -/
theorem Framed.isReturn (h : Framed first head tail p q) (hhead : ∀ i ∈ head, i.isReturn = false)
    {c : Block} (hb : p.blocks[k]? = some b) (hc : q.blocks[k]? = some c) :
    c.isReturn = b.isReturn := by
  obtain ⟨as, es, has, hes, hblock⟩ := h.block k b hb
  obtain rfl := Option.some.inj (hc.symm.trans hblock)
  refine Block.isReturn_framed (fun l hl => ?_) fun hret => ?_
  · have hmem := has.mem hl
    split at hmem
    · exact hhead _ hmem
    · exact absurd hmem List.not_mem_nil
  · rw [if_neg hret] at hes
    exact List.map_eq_nil_iff.1 hes.1

end

end Procedure

namespace Target

/-! ## Stores and loads of saved registers -/

section
variable {t : Target} {p q : Procedure} {first : Nat} {head : List Inst} {tail : Nat → List Inst}

theorem framed_beforeReturn (insts : List Inst) {k : Nat} (h : Procedure.Framed first head tail p q)
    (hhead : ∀ i ∈ head, i.isReturn = false) (htail : tail k = []) :
    Procedure.Framed first head (fun j => if j = k then insts else tail j) p
        (beforeReturn insts q k) ∧
      ∃ blocks fresh, beforeReturn insts q k = { q with blocks, fresh } := by
  rw [beforeReturn]
  cases hc : q.blocks[k]? with
  | none =>
    -- a block that is not there gets nothing
    refine ⟨h.congr fun j b hb _ => if_neg ?_, _, _, rfl⟩
    rintro rfl
    have hlt := (List.getElem?_eq_some_iff.1 hb).1
    have hge := List.getElem?_eq_none_iff.1 hc
    have := h.length
    omega
  | some c =>
    obtain ⟨b, hb⟩ : ∃ b, p.blocks[k]? = some b := by
      have hlt := (List.getElem?_eq_some_iff.1 hc).1
      rw [h.length] at hlt
      exact ⟨_, List.getElem?_eq_getElem hlt⟩
    have hret := h.isReturn hhead hb hc
    simp only
    split
    · next hreturn =>
      refine ⟨?_, _, _, rfl⟩
      refine h.setTail hb (Nat.le_add_right_of_le h.fresh) ?_ (hret.symm.trans hreturn)
      intro as es has hes hlines
      obtain ⟨l, hexit, -, -⟩ := Block.exit_of_isReturn (hret.symm.trans hreturn)
      rw [htail] at hes
      obtain rfl := List.map_eq_nil_iff.1 hes.1
      have hclines : c.lines = as ++ b.body ++ [l] := by
        have hq : q.lines k = c.lines := by rw [Procedure.lines, hc]
        rw [← hq, hlines, hexit, List.append_nil]
      have hlen : c.lines.length - 1 = (as ++ b.body).length := by
        rw [hclines, List.length_append, List.length_singleton, Nat.add_sub_cancel]
      refine ⟨Line.number q.fresh insts, Line.isNew_number h.fresh _, ?_⟩
      rw [hlines, hexit, List.append_nil, hlen, List.take_left, List.drop_left]
    · next hreturn =>
      refine ⟨h.congr fun j d hd hdret => if_neg ?_, _, _, rfl⟩
      rintro rfl
      obtain rfl := Option.some.inj (hb.symm.trans hd)
      exact hreturn (hret.trans hdret)

theorem framed_foldl_beforeReturn (insts : List Inst) {ks : List Nat}
    (h : Procedure.Framed first head tail p q) (hhead : ∀ i ∈ head, i.isReturn = false)
    (hks : ks.Nodup) (htail : ∀ k ∈ ks, tail k = []) :
    Procedure.Framed first head (fun j => if j ∈ ks then insts else tail j) p
        (ks.foldl (beforeReturn insts) q) ∧
      ∃ blocks fresh, ks.foldl (beforeReturn insts) q = { q with blocks, fresh } := by
  induction ks generalizing q tail with
  | nil =>
    refine ⟨h.congr fun k b _ _ => if_neg List.not_mem_nil, _, _, rfl⟩
  | cons k ks ih =>
    obtain ⟨hk, hks⟩ := List.nodup_cons.1 hks
    obtain ⟨hstep, blocks, fresh, heq⟩ :=
      framed_beforeReturn insts h hhead (htail k List.mem_cons_self)
    have htail' : ∀ j ∈ ks, (if j = k then insts else tail j) = [] := by
      intro j hj
      have hne : j ≠ k := by
        rintro rfl
        exact hk hj
      rw [if_neg hne]
      exact htail j (List.mem_cons_of_mem _ hj)
    obtain ⟨hall, blocks', fresh', heq'⟩ := ih hstep hks htail'
    refine ⟨hall.congr fun j b _ _ => ?_, blocks', fresh', ?_⟩
    · by_cases hj : j ∈ ks
      · simp [hj]
      · by_cases hjk : j = k
        · simp [hjk]
        · simp [hj, hjk]
    · rw [List.foldl_cons, heq', heq]

/-- The stores of the saved registers come first, and their loads before every return. -/
theorem framed_insertSpillCode (hblocks : q.blocks = p.blocks) (hfresh : q.fresh = p.fresh)
    (hsaves : ∀ i ∈ t.saves q, i.isReturn = false) :
    Procedure.Framed p.fresh (t.saves q) (fun _ => t.restores q) p (t.insertSpillCode q) ∧
      ∃ blocks fresh, t.insertSpillCode q = { q with blocks, fresh } := by
  have hstart : Procedure.Framed p.fresh [] (fun _ => []) p q := by
    obtain ⟨hf, hl, hb⟩ := p.framed_refl
    exact ⟨hfresh.ge, by rw [hblocks], fun k b h => by rw [hblocks]; exact hb k b h⟩
  rw [insertSpillCode]
  split
  · next hnone =>
    have hs : t.saves q = [] := by rw [saves, hnone]; rfl
    have hr : t.restores q = [] := by rw [restores, hnone]; rfl
    rw [hs, hr]
    exact ⟨hstart, _, _, rfl⟩
  · have hfirst : Procedure.Framed p.fresh (t.saves q) (fun _ => []) p (q.insert 0 0 (t.saves q)) := by
      refine hstart.setHead (Nat.le_add_right_of_le hfresh.ge) fun b as es _ has _ hlines => ?_
      obtain rfl := List.map_eq_nil_iff.1 has.1
      refine ⟨Line.number q.fresh (t.saves q), Line.isNew_number hfresh.ge _, ?_⟩
      rw [hlines, List.nil_append, List.take_zero, List.drop_zero, List.nil_append]
    obtain ⟨hall, blocks, fresh, heq⟩ := framed_foldl_beforeReturn (t.restores q) hfirst
      hsaves (List.nodup_range (n := q.blocks.length)) fun _ _ => rfl
    refine ⟨hall.congr fun k b hb _ => ?_, blocks, fresh, heq⟩
    have hlt := (List.getElem?_eq_some_iff.1 hb).1
    rw [if_pos (List.mem_range.2 (hblocks ▸ hlt))]

end

end Target

end FrameLowering
