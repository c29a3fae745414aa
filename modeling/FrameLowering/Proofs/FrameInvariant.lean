import FrameLowering.Lowering.Prologue
import FrameLowering.Proofs.ObjectAccess
import FrameLowering.Proofs.Watching

/-!
# What holds while a body runs

Between prologue and epilogue the pointers are where the layout says (`Located`), the slots
of saved registers hold the caller's values, and so do the callee-saved registers that have
no slot (`Preserves`). Instructions that keep their hands off reserved registers and off the
slots that lowering keeps for itself leave it that way.
-/

namespace FrameLowering

open ImmediateField (word)

namespace Reg

/-- Registers that cannot share storage with a register that has a slot. -/
theorem not_overlaps_noreg {r : Reg} (h : r.HasSlot) : ¬ Reg.noreg.overlaps r := by
  rcases h with ⟨n, rfl⟩ | ⟨n, rfl⟩ <;> simp [overlaps, aliases]

theorem eq_of_core_overlaps {n : Fin 16} {r : Reg} (h : (Reg.core n).overlaps r) : r = .core n := by
  simpa [overlaps, aliases, eq_comm] using h

end Reg

namespace Target

theorem framePointer_core (t : Target) : ∃ n, t.framePointer = .core n := by
  rw [framePointer, Abi.framePointer]
  split
  · exact ⟨7, rfl⟩
  · exact ⟨11, rfl⟩

theorem framePointer_ne_sp (t : Target) : t.framePointer ≠ Reg.sp := by
  rw [framePointer, Abi.framePointer]
  split <;> decide

theorem hasSlot_of_mem_calleeSaved {t : Target} {cs : CalleeSaved} (h : cs ∈ t.calleeSaved) :
    cs.reg.HasSlot := by
  rcases t.abi.area_cases (mem_calleeSaved_facts h).saved with ⟨hmem, -⟩ | ⟨hmem, -⟩
  · left
    simp only [Abi.savableCores, List.mem_cons, List.not_mem_nil, or_false] at hmem
    rcases hmem with h | h | h | h | h | h | h | h | h <;> exact ⟨_, h⟩
  · right
    simp only [Abi.savableDoubles, List.mem_cons, List.not_mem_nil, or_false] at hmem
    rcases hmem with h | h | h | h | h | h | h | h <;> exact ⟨_, h⟩

theorem ne_sp_of_mem_calleeSaved {t : Target} {cs : CalleeSaved} (h : cs ∈ t.calleeSaved) :
    cs.reg ≠ Reg.sp := by
  intro hsp
  have hsaved := (mem_calleeSaved_facts h).saved
  rw [hsp] at hsaved
  refine hsaved ?_
  rw [Reg.sp, Abi.area, if_neg (by decide), if_neg (by decide)]

/-! ## The layout of a frame -/

/-- The decisions about a frame fit together. -/
structure IsLaidOut (t : Target) (p : Procedure) : Prop where
  framed : t.hasPointer p → p.layout.hasStackFrame
  spilled : p.layout.hasStackFrame → t.setsPointer p → p.layout.isSpilled t.framePointer
  pointer : p.layout.hasStackFrame → t.setsPointer p →
    ∃ o, p.frame.object? p.layout.fpSpillIndex = some o ∧
      p.layout.fpSpillOffset = o.offset + p.frame.stackSize
  scavenging : p.layout.area p.frame.scavengingIndex = .outside

/-- The stack pointer and the frame pointer are where they belong, when the stack pointer
was moved down by `spAdj` more bytes. A function with a frame pointer may move the stack
pointer. -/
structure Located (t : Target) (p : Procedure) (entry : State) (spAdj : Int64) (s : State) :
    Prop where
  stack : ¬ t.hasPointer p →
    s.sp = entry.sp - word p.frame.varArgsSaveSize - word p.frame.stackSize - word spAdj
  pointer : p.layout.hasStackFrame → t.setsPointer p →
    ∀ o, p.frame.object? p.layout.fpSpillIndex = some o → s.read t.framePointer = p.home entry o

/-- A step leaves reserved registers alone, the stack pointer apart if there is a frame
pointer. -/
def KeepsReserved (t : Target) (p : Procedure) (s s' : State) : Prop :=
  ∀ r, t.isReserved p r → (r = Reg.sp → ¬ t.hasPointer p) → s'.value r = s.value r

section
variable {t : Target} {p : Procedure} {entry s s' : State} {spAdj index : Int64}

theorem setsPointer_of_hasPointer (h : t.hasPointer p) : t.setsPointer p := by
  rw [setsPointer, h, Bool.or_true]

/-- Objects outside of the callee-saved areas are found from either pointer. -/
theorem Located.finds (h : t.Located p entry spAdj s) (hlaid : t.IsLaidOut p)
    (hindex : p.layout.area index = .outside) : t.Finds p entry spAdj index s := by
  intro o a ho ha
  rw [address, hindex] at ha
  simp only [ne_eq, not_true_eq_false, if_false] at ha
  split at ha
  · next hp =>
    obtain rfl := Except.ok.inj ha
    have hframe := hlaid.framed hp
    have hsets := setsPointer_of_hasPointer hp
    obtain ⟨q, hq, hoffset⟩ := hlaid.pointer hframe hsets
    rw [h.pointer hframe hsets q hq, hoffset, ImmediateField.word_sub, ImmediateField.word_add,
      ImmediateField.word_add, Procedure.home, Procedure.home]
    bv_omega
  · next hp =>
    obtain rfl := Except.ok.inj ha
    show s.sp + _ = _
    rw [h.stack hp, ImmediateField.word_add, ImmediateField.word_add, Procedure.home]
    bv_omega

theorem Located.congr (h : t.Located p entry spAdj s) (hsp : s'.read Reg.sp = s.read Reg.sp)
    (hfp : s'.read t.framePointer = s.read t.framePointer) : t.Located p entry spAdj s' := by
  refine ⟨fun hp => ?_, fun hframe hsets o ho => ?_⟩
  · exact hsp.trans (h.stack hp)
  · exact hfp.trans (h.pointer hframe hsets o ho)

theorem Located.of_free {rs : List Reg} (h : t.Located p entry spAdj s)
    (hrs : ∀ x ∈ rs, x ≠ Reg.sp ∧ x ≠ t.framePointer) (hagrees : s.AgreesOff rs s') :
    t.Located p entry spAdj s' := by
  refine h.congr ?_ ?_
  · refine hagrees.read_eq fun x hx hover => (hrs x hx).1 ?_
    exact Reg.overlaps_core_iff.1 hover
  · obtain ⟨n, hn⟩ := t.framePointer_core
    refine hagrees.read_eq fun x hx hover => (hrs x hx).2 ?_
    rw [hn] at hover ⊢
    exact Reg.overlaps_core_iff.1 hover

theorem Located.step (h : t.Located p entry spAdj s) (hkeeps : t.KeepsReserved p s s') :
    t.Located p entry spAdj s' := by
  refine ⟨fun hp => ?_, fun hframe hsets o ho => ?_⟩
  · have hsp : t.isReserved p Reg.sp := by simp [isReserved, Reg.isSpecial]
    rw [State.sp, State.read, hkeeps _ hsp fun _ => hp]
    exact h.stack hp
  · have hfp : t.isReserved p t.framePointer := by
      rw [setsPointer] at hsets
      simp [isReserved, hsets]
    rw [State.read, hkeeps _ hfp fun heq => absurd heq t.framePointer_ne_sp]
    exact h.pointer hframe hsets o ho

end

end Target

/-! ## The caller's values -/

/-- Slots that lowering keeps for itself. -/
def Procedure.OwnsSlot (p : Procedure) (index : Int64) : Prop :=
  index = p.frame.scavengingIndex ∨ ∃ σ ∈ p.frame.saved, σ.index = index

/-- A step leaves the bytes of the slots alone that lowering keeps for itself. -/
def Procedure.KeepsSlots (p : Procedure) (entry s s' : State) : Prop :=
  ∀ index o b, p.OwnsSlot index → p.frame.object? index = some o →
    Memory.Within (p.home entry o) o.size.toInt.toNat b → s'.mem b = s.mem b

namespace Target

/-- The slots that lowering keeps for itself have the right sizes, and the scavenging slot
is apart from the others. -/
structure HasSlots (t : Target) (p : Procedure) (entry : State) : Prop where
  saved : ∀ σ ∈ p.frame.saved, ∀ o, p.frame.object? σ.index = some o →
    o.size.toInt = 4 * σ.reg.cells.length
  scavenging : ∀ o, p.frame.object? p.frame.scavengingIndex = some o → o.size.toInt = 4
  apart : ∀ σ ∈ p.frame.saved, ∀ o q, p.frame.object? σ.index = some o →
    p.frame.object? p.frame.scavengingIndex = some q →
    ∀ b, Memory.Within (p.home entry o) (4 * σ.reg.cells.length) b →
      ¬ Memory.Within (p.home entry q) 4 b

/-- The caller's values are in the slots, or else in the callee-saved registers, some
registers apart. -/
structure Preserves (t : Target) (p : Procedure) (entry : State) (apart : List Reg) (s : State) :
    Prop where
  slots : ∀ σ ∈ p.frame.saved, ∀ o, p.frame.object? σ.index = some o →
    s.mem.loadWords (p.home entry o) σ.reg.cells.length = entry.value σ.reg
  regs : ∀ cs ∈ t.calleeSaved, ¬ p.layout.isSpilled cs.reg → cs.reg ∉ apart →
    s.value cs.reg = entry.value cs.reg

/-- Some registers share no storage with a callee-saved register that has no slot, some
registers apart. -/
def Spares (t : Target) (p : Procedure) (apart : List Reg) (rs : List Reg) : Prop :=
  ∀ cs ∈ t.calleeSaved, ¬ p.layout.isSpilled cs.reg → cs.reg ∉ apart →
    ∀ r ∈ rs, ¬ r.overlaps cs.reg

section
variable {t : Target} {p : Procedure} {entry s s' : State} {apart apart' rs : List Reg}

theorem spares_of_free (h : ∀ x ∈ rs, t.IsFree p x) : t.Spares p apart rs := by
  intro cs hcs hspilled _ x hx hover
  obtain ⟨n, rfl⟩ := (h x hx).core
  have heq := Reg.eq_of_core_overlaps hover
  refine hspilled ?_
  rw [heq]
  exact (h _ hx).saved (heq ▸ isCalleeSaved_of_mem hcs)

theorem length_cells_le (r : Reg) : r.cells.length ≤ 2 := by
  cases r <;> simp [Reg.cells]

/-- Changes of other registers and other bytes leave the caller's values alone. -/
theorem Preserves.congr (h : t.Preserves p entry apart s) (hagrees : s.AgreesOff rs s')
    (hspares : t.Spares p apart' rs) (happart : apart ⊆ apart')
    (hmem : ∀ σ ∈ p.frame.saved, ∀ o, p.frame.object? σ.index = some o → ∀ b,
      Memory.Within (p.home entry o) (4 * σ.reg.cells.length) b → s'.mem b = s.mem b) :
    t.Preserves p entry apart' s' := by
  refine ⟨fun σ hσ o ho => ?_, fun cs hcs hspilled hout => ?_⟩
  · have hlen := length_cells_le σ.reg
    rw [Memory.loadWords_congr (by omega) (hmem σ hσ o ho)]
    exact h.slots σ hσ o ho
  · rw [hagrees.value_eq (hspares cs hcs hspilled hout)]
    exact h.regs cs hcs hspilled fun hin => hout (happart hin)

theorem mem_of_keepsSlots (hslots : t.HasSlots p entry) (hkeeps : p.KeepsSlots entry s s') :
    ∀ σ ∈ p.frame.saved, ∀ o, p.frame.object? σ.index = some o → ∀ b,
      Memory.Within (p.home entry o) (4 * σ.reg.cells.length) b → s'.mem b = s.mem b := by
  intro σ hσ o ho b hb
  refine hkeeps σ.index o b (.inr ⟨σ, hσ, rfl⟩) ho ?_
  have hsize := hslots.saved σ hσ o ho
  rw [hsize]
  exact hb

/-- Stores to the scavenging slot leave the other slots alone. -/
theorem mem_of_storeWords {o : FrameObject} {v : Word} (hslots : t.HasSlots p entry)
    (ho : p.frame.object? p.frame.scavengingIndex = some o)
    (hmem : s'.mem = s.mem.storeWords (p.home entry o) [v]) :
    ∀ σ ∈ p.frame.saved, ∀ o, p.frame.object? σ.index = some o → ∀ b,
      Memory.Within (p.home entry o) (4 * σ.reg.cells.length) b → s'.mem b = s.mem b := by
  intro σ hσ q hq b hb
  rw [hmem]
  exact Memory.storeWords_of_not_within (hslots.apart σ hσ q o hq ho b hb) (by simp)

end

end Target

end FrameLowering
