import FrameLowering.Proofs.BodyPoints

/-!
# The chain of frame pointers

A debugger finds the frames of all callers from the frame pointer alone: it points at the word in
which its old value was stored. In every run of a lowered function that is so from the end of the
prologue to the start of an epilogue (`Target.pointer_of_reaches`). A convention can ask for this
chain where objects are still addressed from the stack pointer. A frame can then be so large that
addresses wrap around, and the slot of a borrowed register is found where the old frame pointer was
stored (`Target.pointer_lost_vast`).
-/

namespace FrameLowering

open ImmediateField (word)

namespace Target

section
variable {t : Target} {p q : Procedure} {entry s : State}

/-- The slot of the frame pointer holds its value on entry. -/
theorem Chained.load_pointer (h : t.Chained q entry s) (hframe : t.HasFrame q)
    (hstack : q.layout.hasStackFrame) (hsets : t.setsPointer q) :
    ∃ o, q.frame.object? q.layout.fpSpillIndex = some o ∧
      s.read t.framePointer = q.home entry o ∧
      s.mem.load (q.home entry o) 4 = entry.read t.framePointer := by
  obtain ⟨σ, hσ, hreg, hindex, o, ho, -⟩ := (hframe.areas hstack).grouped.pointer hsets
  have hwords := h.saved σ hσ o ho
  rw [hindex] at ho
  refine ⟨o, ho, h.pointer hstack hsets o ho, ?_⟩
  obtain ⟨n, hn⟩ := t.framePointer_core
  rw [hreg, hn] at hwords
  rw [hn]
  exact (List.cons.inj hwords).1

end

/-- From the end of the prologue to the start of an epilogue, the frame pointer holds the address
of its slot and the slot holds the value on entry, if there is a frame and a frame pointer is set
up in it. Where objects are addressed from the stack pointer all the same, the frame must not reach
further down than addresses do. -/
theorem pointer_of_reaches {t : Target} {p : Procedure} {entry : State} {c : Point}
    (hp : p.IsFresh)
    (hsizes : ∀ o ∈ p.frame.objects, Frame.isShape o.size o.align ∧ o.size.toInt < 2 ^ 31)
    (hok : (t.lower p).failure = none)
    (hrange : ¬ t.hasPointer p →
      ∀ j o, (t.lower p).proc.frame.object? j = some o → -2 ^ 32 ≤ o.offset.toInt)
    (hstack : (t.lower p).proc.layout.hasStackFrame)
    (hsets : t.abi.darwin ∨ (t.lower p).proc.layout.hasFramePointer)
    (hreach : Reaches (t.lower p).proc (t.LeavesSaved p (t.lower p).proc entry) entry c)
    (hbody : t.IsBodyPoint p (t.lower p).proc c.block c.rest) :
    ∃ o, (t.lower p).proc.frame.object? (t.lower p).proc.layout.fpSpillIndex = some o ∧
      c.state.read t.framePointer =
        entry.sp - word (t.lower p).proc.frame.varArgsSaveSize + word o.offset ∧
      c.state.mem.load (c.state.read t.framePointer) 4 = entry.read t.framePointer := by
  obtain ⟨-, hblocks, -, -⟩ := lower_cases hok
  obtain ⟨w, hw, hlowers⟩ := lowers_of_isFresh hp hok
  have hslots : t.HasSlots (t.lower p).proc entry := by
    refine hlowers.apart ?_ hrange entry
    intro o ho
    obtain ⟨hshape, hsize⟩ := hsizes o ho
    exact FrameObject.isModerate_of_isShape hshape hsize
  have hchained := hlowers.chained_of_reaches hw hp hblocks hslots hreach hbody
  have hpointer : t.setsPointer (t.lower p).proc := by
    rw [setsPointer, hlowers.hasPointer_eq, Bool.or_eq_true]
    exact hsets
  obtain ⟨o, ho, hread, hload⟩ := hchained.load_pointer hlowers.frame hstack hpointer
  refine ⟨o, ho, hread, ?_⟩
  rw [hread]
  exact hload

/-- Darwin's convention, with the default configuration. -/
def darwinDefault : Target :=
  ⟨.darwinArm, {}, rfl⟩

/-- A function that needs all registers when it takes the address of an object. -/
def needsAll (first second : Int64) : Procedure where
  name := "f"
  blocks := [{
    lines := Line.number 0 (
      ([4, 5, 6, 8, 10, 11, 14] : List (Fin 16)).map
        (fun n => .make .movr [.use (.core n), .use (.core 0), .cond .al, .use .noreg]) ++
      [.make .addri [.use (.core 0), .frameIndex 0, .imm 0, .cond .al, .use .noreg]] ++
      ([1, 2, 3, 12, 14, 4, 5, 6, 8, 10, 11] : List (Fin 16)).map
        (fun n => .make .addrr
          [.use (.core 0), .use (.core 0), .use (.core n), .cond .al, .use .noreg]) ++
      [.make .bxRet [.cond .al, .use .noreg]]) }]
  frame := { objects := [{ size := first, align := 4 }, { size := second, align := 4 }] }
  fresh := 20

/-- What there is to know of a lowered function, up to the store of the register that is
borrowed. -/
def StoresBorrowed (p : Procedure) : Prop :=
  p.IsFresh ∧ (∀ o ∈ p.frame.objects, Frame.isShape o.size o.align ∧ o.size.toInt < 2 ^ 31) ∧
    (darwinDefault.lower p).failure = none ∧ (darwinDefault.lower p).proc.layout.hasStackFrame ∧
    (∀ l ∈ ((darwinDefault.lower p).proc.lines 0).take 23, darwinDefault.Passes p l) ∧
    (((darwinDefault.lower p).proc.lines 0).drop 23).length +
      darwinDefault.prologueLength (darwinDefault.lower p).proc ≤
        ((darwinDefault.lower p).proc.lines 0).length ∧
    darwinDefault.epilogueLength (darwinDefault.lower p).proc <
      (((darwinDefault.lower p).proc.lines 0).drop 23).length

instance : DecidablePred StoresBorrowed :=
  fun _ => inferInstanceAs (Decidable (_ ∧ _ ∧ _ ∧ _ ∧ _ ∧ _ ∧ _))

theorem StoresBorrowed.reaches {p : Procedure} (h : StoresBorrowed p) :
    ∃ rest, Reaches (darwinDefault.lower p).proc
        (darwinDefault.LeavesSaved p (darwinDefault.lower p).proc counted) counted
        ⟨0, rest, runLines (((darwinDefault.lower p).proc.lines 0).take 23) counted⟩ ∧
      darwinDefault.IsBodyPoint p (darwinDefault.lower p).proc 0 rest := by
  obtain ⟨-, -, -, -, hpasses, hbehind, hahead⟩ := h
  exact ⟨_, leavesSaved_of_take counted 23 hpasses rfl, fun _ => hbehind, fun _ _ _ => hahead⟩

/-- A frame in which the register that is borrowed has a slot of its own. -/
theorem pointer_of_reaches_needsAll :
    ∃ rest s o, Reaches (darwinDefault.lower (needsAll 8 5000)).proc
        (darwinDefault.LeavesSaved (needsAll 8 5000) (darwinDefault.lower (needsAll 8 5000)).proc
          counted) counted ⟨0, rest, s⟩ ∧
      darwinDefault.IsBodyPoint (needsAll 8 5000) (darwinDefault.lower (needsAll 8 5000)).proc 0 rest ∧
      (darwinDefault.lower (needsAll 8 5000)).proc.frame.object?
        (darwinDefault.lower (needsAll 8 5000)).proc.layout.fpSpillIndex = some o ∧
      s.read darwinDefault.framePointer = counted.sp -
        word (darwinDefault.lower (needsAll 8 5000)).proc.frame.varArgsSaveSize + word o.offset ∧
      s.mem.load (s.read darwinDefault.framePointer) 4 = counted.read darwinDefault.framePointer := by
  have hstores : StoresBorrowed (needsAll 8 5000) := by decide +kernel
  have hrange : ∀ o ∈ (darwinDefault.lower (needsAll 8 5000)).proc.frame.objects ++
      (darwinDefault.lower (needsAll 8 5000)).proc.frame.fixed, -2 ^ 32 ≤ o.offset.toInt := by
    decide +kernel
  obtain ⟨rest, hreach, hbody⟩ := hstores.reaches
  generalize runLines _ _ = s at hreach
  obtain ⟨hp, hsizes, hok, hstack, -⟩ := hstores
  obtain ⟨o, ho, hread, hload⟩ := pointer_of_reaches hp hsizes hok
    (fun _ j o ho => hrange o (List.mem_append.2 (Frame.mem_of_object? ho))) hstack (.inl rfl)
    hreach hbody
  exact ⟨rest, s, o, hreach, hbody, ho, hread, hload⟩

/-- In a frame of more than `2 ^ 32` bytes the register that is borrowed is stored over the old
frame pointer. -/
theorem pointer_lost_vast :
    ∃ p rest s, p.IsFresh ∧
      (∀ o ∈ p.frame.objects, Frame.isShape o.size o.align ∧ o.size.toInt < 2 ^ 31) ∧
      (darwinDefault.lower p).failure = none ∧ (darwinDefault.lower p).proc.layout.hasStackFrame ∧
      darwinDefault.abi.darwin ∧
      Reaches (darwinDefault.lower p).proc
        (darwinDefault.LeavesSaved p (darwinDefault.lower p).proc counted) counted ⟨0, rest, s⟩ ∧
      darwinDefault.IsBodyPoint p (darwinDefault.lower p).proc 0 rest ∧
      s.mem.load (s.read darwinDefault.framePointer) 4 ≠
        counted.read darwinDefault.framePointer := by
  have hstores : StoresBorrowed (needsAll 2147483644 2147483624) := by decide +kernel
  obtain ⟨rest, hreach, hbody⟩ := hstores.reaches
  obtain ⟨hp, hsizes, hok, hstack, -⟩ := hstores
  refine ⟨_, rest, _, hp, hsizes, hok, hstack, rfl, hreach, hbody, ?_⟩
  decide +kernel

end Target

end FrameLowering
