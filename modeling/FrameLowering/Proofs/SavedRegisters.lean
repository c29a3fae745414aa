import FrameLowering.Lowering.Target
import Mathlib.Data.List.Perm.Subperm
import Mathlib.Data.List.Pairwise

/-!
# Saved registers of a convention

What the checks on a calling convention say about its callee-saved registers: each of them
is in the area that it was given, no register comes twice, and the areas come in order.
There are therefore few enough of them for their slots to be in reach of every load.
-/

namespace FrameLowering

namespace Abi

/-- A callee-saved register of a well-formed list. -/
structure IsSavedIn (abi : Abi) (cs : CalleeSaved) : Prop where
  saved : abi.area cs.reg ≠ .outside
  area : cs.area = abi.area cs.reg

theorem validateSaved_facts {abi : Abi} {seen : List Reg} {last : Area} {list : List CalleeSaved}
    (h : abi.validateSaved seen last list = .ok ()) :
    (∀ cs ∈ list, abi.IsSavedIn cs ∧ cs.reg ∉ seen ∧ last.code ≤ cs.area.code) ∧
      (list.map CalleeSaved.reg).Nodup ∧
      list.Pairwise fun a b => a.area.code ≤ b.area.code := by
  induction list generalizing seen last with
  | nil => simp
  | cons cs list ih =>
    rw [validateSaved] at h
    split at h
    · cases h
    split at h
    · cases h
    next hseen =>
    split at h
    · cases h
    next hsaved =>
    split at h
    · cases h
    next harea =>
    split at h
    · cases h
    next horder =>
    obtain ⟨hall, hnodup, hsorted⟩ := ih h
    have hle : last.code ≤ cs.area.code := UInt8.not_lt.1 horder
    refine ⟨?_, ?_, ?_⟩
    · intro x hx
      rcases List.mem_cons.1 hx with rfl | hx
      · exact ⟨⟨hsaved, not_not.1 harea⟩, hseen, hle⟩
      · obtain ⟨hin, hnew, hlast⟩ := hall x hx
        exact ⟨hin, fun hmem => hnew (List.mem_cons_of_mem _ hmem), UInt8.le_trans hle hlast⟩
    · rw [List.map_cons, List.nodup_cons]
      refine ⟨fun hmem => ?_, hnodup⟩
      obtain ⟨x, hx, heq⟩ := List.mem_map.1 hmem
      exact (hall x hx).2.1 (heq ▸ List.mem_cons_self)
    · exact List.pairwise_cons.2 ⟨fun x hx => (hall x hx).2.2, hsorted⟩

theorem validate_facts {abi : Abi} (h : abi.validate = .ok ()) :
    4 ≤ abi.stackAlignment ∧ isPowerOfTwo abi.stackAlignment ∧
      abi.validateSaved [] .outside abi.calleeSaved = .ok () := by
  rw [validate] at h
  split at h
  · cases h
  next halign =>
  split at h
  · cases h
  split at h
  · cases h
  split at h
  · cases h
  simp only [Bool.or_eq_true, Bool.not_eq_true', not_or, Bool.not_eq_false,
    decide_eq_true_eq] at halign
  refine ⟨Int64.not_lt.1 halign.1, halign.2, ?_⟩
  split at h
  · cases h
  · next hsaved => exact hsaved

/-- The core registers that a convention can preserve. -/
def savableCores : List Reg :=
  [.core 4, .core 5, .core 6, .core 7, .core 8, .core 9, .core 10, .core 11, .core 14]

/-- The double-precision registers that a convention can preserve. -/
def savableDoubles : List Reg :=
  [.double 8, .double 9, .double 10, .double 11, .double 12, .double 13, .double 14, .double 15]

/-- The area of a register decides which kind of register it is. -/
theorem area_cases (abi : Abi) {r : Reg} (h : abi.area r ≠ .outside) :
    (r ∈ savableCores ∧ (abi.area r = .gpr1 ∨ abi.area r = .gpr2)) ∨
      (r ∈ savableDoubles ∧ abi.area r = .dpr) := by
  cases r with
  | core n =>
    left
    revert h
    simp only [area]
    generalize abi.darwin = darwin
    revert darwin n
    decide
  | double n =>
    right
    revert h
    simp only [area]
    revert n
    decide
  | _ => exact absurd rfl h

/-- The link register is preserved in the first area. -/
theorem area_lr (abi : Abi) : abi.area Reg.lr = .gpr1 := by
  rw [Reg.lr, area, if_pos (by decide)]

/-- So is the frame pointer. -/
theorem area_framePointer (abi : Abi) : abi.area abi.framePointer = .gpr1 := by
  rw [framePointer]
  split
  · rw [area, if_pos (by decide)]
  · next h =>
    simp only [Bool.or_eq_true, not_or] at h
    rw [area, if_neg (by decide), if_pos (by decide), if_neg h.1]

end Abi

namespace Target

theorem mem_calleeSaved_facts {t : Target} {cs : CalleeSaved} (h : cs ∈ t.calleeSaved) :
    t.abi.IsSavedIn cs :=
  ((Abi.validateSaved_facts (Abi.validate_facts t.valid).2.2).1 cs h).1

theorem nodup_calleeSaved (t : Target) : (t.calleeSaved.map CalleeSaved.reg).Nodup :=
  (Abi.validateSaved_facts (Abi.validate_facts t.valid).2.2).2.1

/-- The areas of the callee-saved registers come in order. -/
theorem pairwise_calleeSaved (t : Target) :
    t.calleeSaved.Pairwise fun a b => a.area.code ≤ b.area.code :=
  (Abi.validateSaved_facts (Abi.validate_facts t.valid).2.2).2.2

/-- A convention has to preserve the link register. -/
theorem isCalleeSaved_lr (t : Target) : t.isCalleeSaved Reg.lr := by
  have h := t.valid
  rw [Abi.validate] at h
  split at h
  · cases h
  split at h
  · cases h
  split at h
  · cases h
  split at h
  · cases h
  split at h
  · cases h
  split at h
  · next hlink => exact hlink
  · cases h

theorem not_isCalleeSaved_r12 (t : Target) : ¬ t.isCalleeSaved Reg.r12 := by
  intro h
  obtain ⟨cs, hcs, heq⟩ := List.any_eq_true.1 h
  have hsaved := (mem_calleeSaved_facts hcs).saved
  rw [of_decide_eq_true heq] at hsaved
  refine hsaved ?_
  rw [Reg.r12, Abi.area, if_neg (by decide), if_neg (by decide)]

theorem isCalleeSaved_of_mem {t : Target} {cs : CalleeSaved} (h : cs ∈ t.calleeSaved) :
    t.isCalleeSaved cs.reg :=
  List.any_eq_true.2 ⟨cs, h, decide_eq_true rfl⟩

end Target

end FrameLowering
