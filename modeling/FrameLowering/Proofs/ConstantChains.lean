import FrameLowering.Lowering.Arithmetic
import FrameLowering.Proofs.Execution
import FrameLowering.Proofs.WordParts

/-!
# Constants added in parts

A constant that is added to a register is split into rotated immediates, which add up to it.
The instructions for them leave the sum in the destination, whatever the sign of the constant
and wherever its arithmetic wraps (`execAll_addConstant`).
-/

namespace FrameLowering

/-! ## Low words of integers -/

namespace ImmediateField

@[simp] theorem word_zero : word 0 = 0 := rfl

theorem word_add (a b : Int64) : word (a + b) = word a + word b := by
  simp only [word, Int64.toBitVec_add]
  exact BitVec.setWidth_add _ _ (by decide)

theorem word_neg (a : Int64) : word (-a) = -word a := by
  simp only [word, Int64.toBitVec_neg]
  exact BitVec.setWidth_neg_of_le (by decide)

theorem word_sub (a b : Int64) : word (a - b) = word a - word b := by
  rw [Int64.sub_eq_add_neg, word_add, word_neg, BitVec.sub_eq_add_neg]

theorem word_ofNat_toNat (w : Word) : word (Int64.ofNat w.toNat) = w := by
  apply BitVec.eq_of_toNat_eq
  have := w.isLt
  simp [word, Int64.toBitVec_ofNat']

/-- The magnitude of an integer has its low word, up to the sign. -/
theorem word_magnitude (n : Int64) :
    word n = if n < 0 then -word (magnitude n) else word (magnitude n) := by
  by_cases h : n < 0
  · rw [if_pos h, magnitude, if_pos h, word_neg, BitVec.neg_neg]
  · rw [if_neg h, magnitude, if_neg h]

end ImmediateField

/-! ## Instructions in a row -/

/-- Some instructions executed one after another. -/
def ExecAll : List Inst → State → State → Prop
  | [], s, s' => s' = s
  | i :: is, s, s' => ∃ m, i.Effect s m ∧ ExecAll is m s'

theorem execAll_append {is js : List Inst} {s s' : State} :
    ExecAll (is ++ js) s s' ↔ ∃ m, ExecAll is s m ∧ ExecAll js m s' := by
  induction is generalizing s with
  | nil => simp [ExecAll]
  | cons i is ih =>
    simp only [List.cons_append, ExecAll, ih]
    constructor
    · rintro ⟨m, hi, n, his, hjs⟩
      exact ⟨n, ⟨m, hi, his⟩, hjs⟩
    · rintro ⟨n, ⟨m, hi, his⟩, hjs⟩
      exact ⟨m, hi, n, his, hjs⟩

theorem execAll_append_cons {is js : List Inst} {i : Inst} {s s' : State} :
    ExecAll (is ++ i :: js) s s' ↔ ∃ m, ExecAll (is ++ [i]) s m ∧ ExecAll js m s' := by
  rw [List.append_cons, execAll_append]

namespace State

@[simp] theorem write_write (s : State) (r : Reg) (v w : Word) :
    (s.write r v).write r w = s.write r w := by
  have h (c : Cell) (x y : Word) :
      ((r.cells.zip [y]).lookup c).getD (((r.cells.zip [x]).lookup c).getD (s.cells c)) =
        ((r.cells.zip [y]).lookup c).getD (s.cells c) := by
    cases hr : r.cells with
    | nil => simp
    | cons d ds => by_cases hcd : c == d <;> simp [List.lookup_cons, hcd]
  simp only [write, assign]
  congr 1
  funext c
  exact h c v w

@[simp] theorem write_read_core (s : State) (n : Fin 16) :
    s.write (.core n) (s.read (.core n)) = s := by
  have h (c : Cell) : (([Cell.core n].zip [s.cells (.core n)]).lookup c).getD (s.cells c) =
      s.cells c := by
    by_cases hc : c = .core n
    · simp [hc]
    · have : (c == Cell.core n) = false := by simpa using hc
      simp [List.lookup_cons, this]
  show { s with cells := _ } = s
  congr 1
  funext c
  exact h c

theorem read_write {s : State} {r : Reg} (h : r.cells ≠ []) (w : Word) :
    (s.write r w).read r = w := by
  obtain ⟨c, cs, hr⟩ := List.exists_cons_of_ne_nil h
  simp [read, value, write, assign, hr]

/-- A sum that is written over the first summand. -/
theorem write_read_add (s : State) (r : Reg) (v w : Word) :
    (s.write r v).write r ((s.write r v).read r + w) = s.write r (v + w) := by
  by_cases h : r.cells = []
  · simp [write, assign, h]
  · rw [read_write h, write_write]

end State

@[simp] theorem Operand.condition_cond (c : Cond) : (Operand.cond c).condition = c := by
  obtain ⟨⟨b⟩⟩ := c
  have h : (Int64.ofNat b.toNat).toBitVec.setWidth 8 = b := by
    apply BitVec.eq_of_toNat_eq
    have := b.isLt
    simp [Int64.toBitVec_ofNat']
  simp only [condition, value]
  exact congrArg _ (congrArg _ h)

namespace WideSet

/-- An addition or subtraction of an immediate. -/
def arith (s : WideSet) (negative : Bool) : Opcode :=
  if negative then s.sub else s.add

/-- What an addition or subtraction adds. -/
def signed (negative : Bool) (w : Word) : Word :=
  if negative then -w else w

/-- An addition or subtraction in its usual form. -/
theorem effect_arith {s : WideSet} {negative : Bool} {dst base pred : Reg} {v : Int64} {c : Cond}
    {m m' : State}
    (h : (Inst.make (s.arith negative) ([.use dst, .use base, .imm v] ++
      Operand.predicate c pred)).Effect m m') :
    m' = if c = Cond.al ∨ m.flags c then
        m.write dst (m.read base + signed negative (ImmediateField.word v))
      else m := by
  generalize hi : Inst.make (s.arith negative) ([.use dst, .use base, .imm v] ++
      Operand.predicate c pred) = i at h
  have hcond : i.predicate.1 = c := by
    subst hi
    cases s <;> cases negative <;> exact Operand.condition_cond c
  have hacts (x : State) (hx : i.Acts m x) :
      x = m.write dst (m.read base + signed negative (ImmediateField.word v)) := by
    subst hi
    cases negative with
    | false => cases s <;> exact hx
    | true =>
      have hsub (a : Word) : a + signed true (ImmediateField.word v) =
          a - ImmediateField.word v := (BitVec.sub_eq_add_neg _ _).symm
      rw [hsub]
      cases s <;> exact hx
  rcases h with ⟨hen, hact⟩ | ⟨hdis, rfl⟩
  · rw [Inst.Enabled, hcond] at hen
    rw [if_pos hen]
    exact hacts m' hact
  · rw [Inst.Enabled, hcond] at hdis
    rw [if_neg hdis]

/-- A chain accumulates the sum of its parts, if its condition holds. -/
theorem execAll_chain {s : WideSet} {negative : Bool} {dst base pred : Reg} {c : Cond}
    {ws : List Word} {m m' : State}
    (h : ExecAll (chain (s.arith negative) dst c pred base ws) m m') :
    m' = if (c = Cond.al ∨ m.flags c) ∧ ws ≠ [] then
        m.write dst (m.read base + signed negative ws.sum)
      else m := by
  induction ws generalizing base m with
  | nil => simpa [chain, ExecAll] using h
  | cons w ws ih =>
    obtain ⟨k, hk, hrest⟩ := h
    have hk := effect_arith hk
    have hm' := ih hrest
    rw [ImmediateField.word_ofNat_toNat] at hk
    by_cases hc : c = Cond.al ∨ m.flags c
    · rw [if_pos hc] at hk
      subst hk
      have hsum : signed negative w + signed negative ws.sum = signed negative (w + ws.sum) := by
        cases negative with
        | false => rfl
        | true => simp [signed, add_comm]
      rw [if_pos ⟨hc, by simp⟩, hm', List.sum_cons, ← hsum]
      by_cases hws : ws = []
      · subst hws
        simp [signed]
      · rw [if_pos ⟨by simpa using hc, hws⟩, State.write_read_add, BitVec.add_assoc]
    · rw [if_neg hc] at hk
      subst hk
      rw [if_neg (fun h => hc h.1)] at hm' ⊢
      exact hm'

/-- The instructions for an addition are plain: they neither return nor mark a call
sequence, and have no frame index. -/
theorem plain_of_mem_addConstant {s : WideSet} {dst base pred : Reg} {v : Int64} {c : Cond}
    {i : Inst} (h : i ∈ s.addConstant dst base v c pred) :
    i.isReturn = false ∧ i.op.isMarker = false ∧ i.frameIndexAt = none := by
  rw [addConstant] at h
  generalize RotatedImmediate.chunks _ = ws at h
  induction ws generalizing base with
  | nil => exact absurd h List.not_mem_nil
  | cons w ws ih =>
    rcases List.mem_cons.1 h with rfl | h
    · by_cases hv : v < 0
      · rw [if_pos hv]
        cases s <;> exact ⟨rfl, rfl, rfl⟩
      · rw [if_neg hv]
        cases s <;> exact ⟨rfl, rfl, rfl⟩
    · exact ih h

/-- What the instructions for an addition do. Adding zero takes no instruction. -/
theorem execAll_addConstant {s : WideSet} {dst base pred : Reg} {v : Int64} {c : Cond}
    {m m' : State} (h : ExecAll (s.addConstant dst base v c pred) m m') :
    m' = if (c = Cond.al ∨ m.flags c) ∧ ImmediateField.word v ≠ 0 then
        m.write dst (m.read base + ImmediateField.word v)
      else m := by
  have hchain : ExecAll (chain (s.arith (decide (v < 0))) dst c pred base
      (RotatedImmediate.chunks (ImmediateField.word (ImmediateField.magnitude v)))) m m' := by
    have hop : s.arith (decide (v < 0)) = if v < 0 then s.sub else s.add := by
      by_cases hv : v < 0 <;> simp [arith, hv]
    rw [hop]
    exact h
  have hword : signed (decide (v < 0)) (ImmediateField.word (ImmediateField.magnitude v)) =
      ImmediateField.word v := by
    rw [ImmediateField.word_magnitude v]
    by_cases hv : v < 0 <;> simp [signed, hv]
  have hzero : ImmediateField.word (ImmediateField.magnitude v) = 0 ↔ ImmediateField.word v = 0 := by
    rw [← hword]
    by_cases hv : v < 0 <;> simp [signed, hv]
  have hresult := execAll_chain hchain
  rw [RotatedImmediate.sum_chunks, hword] at hresult
  simpa only [ne_eq, RotatedImmediate.chunks_eq_nil_iff, hzero] using hresult

theorem addConstant_ne_nil {s : WideSet} {dst base pred : Reg} {v : Int64} {c : Cond}
    (h : ImmediateField.word v ≠ 0) : s.addConstant dst base v c pred ≠ [] := by
  have hmag : ImmediateField.word (ImmediateField.magnitude v) ≠ 0 := by
    intro hzero
    refine h ?_
    rw [ImmediateField.word_magnitude v, hzero]
    split <;> rfl
  rw [addConstant]
  cases hc : RotatedImmediate.chunks (ImmediateField.word (ImmediateField.magnitude v)) with
  | nil => exact absurd (RotatedImmediate.chunks_eq_nil_iff.1 hc) hmag
  | cons w ws => exact List.cons_ne_nil _ _

theorem execAll_moveStack {s : WideSet} {v : Int64} {pred : Reg} {m m' : State}
    (h : ExecAll (s.moveStack v Cond.al pred) m m') :
    m' = m.write Reg.sp (m.sp + ImmediateField.word v) := by
  have hresult := execAll_addConstant h
  by_cases hv : ImmediateField.word v = 0
  · rw [if_neg (fun hc => hc.2 hv)] at hresult
    rw [hresult, hv, add_zero]
    exact (State.write_read_core m 13).symm
  · rw [if_pos ⟨.inl rfl, hv⟩] at hresult
    exact hresult

theorem execAll_moveStackAlways {s : WideSet} {v : Int64} {m m' : State}
    (h : ExecAll (s.moveStackAlways v) m m') :
    m' = m.write Reg.sp (m.sp + ImmediateField.word v) :=
  execAll_moveStack h

end WideSet

end FrameLowering
