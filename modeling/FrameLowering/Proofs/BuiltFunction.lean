import FrameLowering.Description.Basic
import Mathlib.Tactic.Common

/-!
# Functions of descriptions

What a function has if it was made from a description: its lines have labels that no inserted line
will get, its objects have alignments that are powers of two, and the space that it saves for
variadic arguments is some number of words.
-/

namespace FrameLowering

/-- Objects of a size that is not negative, at an alignment that is a power of two. -/
structure Frame.IsShaped (f : Frame) : Prop where
  objects : ∀ o ∈ f.objects, isShape o.size o.align
  fixed : ∀ o ∈ f.fixed, isShape o.size o.align

namespace FunctionDesc

/-- A description that makes a function passes all checks, and the function is put together from
what its parts make. -/
theorem build_cases {d : FunctionDesc} {u : Described} (h : d.build = .ok u) :
    d.hasFrameSizes ∧ ∃ abi regs frame blocks fresh,
      buildObjects d.name 0 d.startFrame d.objects = .ok frame ∧
      buildBlocks d.name d.blocks.length 0 0 d.blocks = .ok (blocks, fresh) ∧
      u = ⟨abi, { name := d.name, blocks, frame, regs, fresh }⟩ := by
  have hthrow {ε α : Type} (e : ε) : (throw e : Except ε α) = .error e := rfl
  rw [build] at h
  simp only [bind, Except.bind, pure, Except.pure, hthrow] at h
  split at h
  · cases h
  split at h
  · cases h
  next abi _ =>
  split at h
  · cases h
  next hsizes =>
  split at h
  · cases h
  next regs _ =>
  split at h
  · cases h
  next frame hframe =>
  split at h
  · cases h
  split at h
  · cases h
  split at h
  · cases h
  next made hmade =>
  obtain ⟨blocks, fresh⟩ := made
  obtain rfl := Except.ok.inj h
  refine ⟨?_, abi, regs, frame, blocks, fresh, hframe, hmade, rfl⟩
  simpa using hsizes

/-- With a size that is not negative, an alignment that passes is one that objects can have: zero
stands for a word. -/
theorem isShape_iff_isAlignment {o : ObjectDesc} (hsize : ¬ o.size < 0) :
    Frame.isShape o.size (alignOf o) ↔ isAlignment (alignOf o) := by
  have hne : alignOf o ≠ 0 := by
    rw [alignOf]
    split
    · decide
    · assumption
  have hpos : 0 < alignOf o ↔ 0 ≤ alignOf o := by
    rw [Int64.le_iff_lt_or_eq, or_iff_left hne.symm]
  simp [Frame.isShape, isAlignment, Int64.not_lt.1 hsize, hpos]

/-- Every object that passes the checks of a description can be made. -/
theorem buildObjects_cons {name : String} {n : Nat} {f : Frame} {o : ObjectDesc}
    {os : List ObjectDesc} :
    buildObjects name n f (o :: os) =
      if o.size < 0 then .error (.objectSize name n o.size)
      else if o.fixed then buildObjects name (n + 1) (f.createFixed o.size o.offset).2 os
      else if Frame.isShape o.size (alignOf o) then
        buildObjects name (n + 1) (f.push { size := o.size, align := alignOf o }).2 os
      else .error (.objectAlign name n o.align) := by
  rw [buildObjects]
  by_cases hsize : o.size < 0
  · rw [if_pos hsize, if_pos hsize]
  · simp only [if_neg hsize, ← isShape_iff_isAlignment hsize, Frame.createObject]
    by_cases hshape : Frame.isShape o.size (alignOf o)
    · simp only [hshape, if_true]
    · simp only [hshape]
      rfl

/-- Objects are added to a frame, and nothing else changes in it. What holds of every object that
can be made, and of every fixed one, holds of all objects then. -/
theorem forall_of_buildObjects {P Q : FrameObject → Prop}
    (hP : ∀ size align, Frame.isShape size align → P { size, align })
    (hQ : ∀ size offset, 0 ≤ size → Q { size, align := 4, fixed := true, offset })
    {name : String} {n : Nat} {f g : Frame} {os : List ObjectDesc}
    (h : buildObjects name n f os = .ok g) (hobjects : ∀ o ∈ f.objects, P o)
    (hfixed : ∀ o ∈ f.fixed, Q o) :
    (∀ o ∈ g.objects, P o) ∧ (∀ o ∈ g.fixed, Q o) ∧
      ∃ objects fixed, g = { f with objects, fixed } := by
  induction os generalizing n f with
  | nil =>
    obtain rfl := Except.ok.inj h
    exact ⟨hobjects, hfixed, _, _, rfl⟩
  | cons o os ih =>
    rw [buildObjects_cons] at h
    split at h
    · cases h
    next hsize =>
    split at h
    · -- a fixed object is aligned to words
      have hnext : ∀ q ∈ (f.createFixed o.size o.offset).2.fixed, Q q := by
        intro q hq
        rcases List.mem_append.1 hq with hq | hq
        · exact hfixed q hq
        · obtain rfl := List.mem_singleton.1 hq
          exact hQ _ _ (Int64.not_lt.1 hsize)
      obtain ⟨hg, hg', objects, fixed, rfl⟩ := ih h hobjects hnext
      exact ⟨hg, hg', objects, fixed, rfl⟩
    split at h
    · next hshape =>
      have hnext : ∀ q ∈ (f.push { size := o.size, align := alignOf o }).2.objects, P q := by
        intro q hq
        rcases List.mem_append.1 hq with hq | hq
        · exact hobjects q hq
        · obtain rfl := List.mem_singleton.1 hq
          exact hP _ _ hshape
      obtain ⟨hg, hg', objects, fixed, rfl⟩ := ih h hnext hfixed
      exact ⟨hg, hg', objects, fixed, rfl⟩
    · cases h

theorem frame_of_buildObjects {name : String} {n : Nat} {f g : Frame} {os : List ObjectDesc}
    (h : buildObjects name n f os = .ok g) (hf : f.IsShaped) :
    g.IsShaped ∧ ∃ objects fixed, g = { f with objects, fixed } := by
  have hwords (size offset : Int64) (hsize : 0 ≤ size) : Frame.isShape size 4 := by
    simp only [Frame.isShape, hsize, decide_true, Bool.true_and]
    decide
  obtain ⟨hobjects, hfixed, hsame⟩ := forall_of_buildObjects (fun _ _ hshape => hshape) hwords h
    hf.objects hf.fixed
  exact ⟨⟨hobjects, hfixed⟩, hsame⟩

end FunctionDesc

/-- Lines are numbered from `n` on. -/
theorem Line.label_lt_of_mem_number {n : Nat} {is : List Inst} {l : Line} (h : l ∈ number n is) :
    l.label < n + is.length := by
  induction is generalizing n with
  | nil => exact absurd h List.not_mem_nil
  | cons i is ih =>
    rw [List.length_cons]
    rcases List.mem_cons.1 h with rfl | h
    · exact Nat.lt_add_of_pos_right (Nat.succ_pos _)
    · have hlt := ih h
      omega

namespace FunctionDesc

/-- The lines of the blocks are numbered through. -/
theorem lines_of_buildBlocks {name : String} {count k fresh next : Nat} {ds : List BlockDesc}
    {bs : List Block} (h : buildBlocks name count k fresh ds = .ok (bs, next)) :
    fresh ≤ next ∧ ∀ b ∈ bs, ∃ n is, b.lines = Line.number n is ∧ n + is.length ≤ next := by
  induction ds generalizing k fresh bs with
  | nil =>
    obtain ⟨rfl, rfl⟩ := Prod.mk.inj (Except.ok.inj h)
    exact ⟨Nat.le_refl _, fun b hb => absurd hb List.not_mem_nil⟩
  | cons d ds ih =>
    rw [buildBlocks] at h
    split at h
    · cases h
    next is _ =>
    split at h
    · cases h
    split at h
    · cases h
    next cs last hrest =>
    obtain ⟨rfl, rfl⟩ := Prod.mk.inj (Except.ok.inj h)
    obtain ⟨hle, hlines⟩ := ih hrest
    refine ⟨by omega, ?_⟩
    intro b hb
    rcases List.mem_cons.1 hb with rfl | hb
    · exact ⟨fresh, is, rfl, hle⟩
    · exact hlines b hb

/-- The function of a description. -/
theorem facts_of_build {d : FunctionDesc} {u : Described} (h : d.build = .ok u) :
    u.proc.frame.IsShaped ∧ 4 ∣ u.proc.frame.varArgsSaveSize.toInt ∧
      ∀ b ∈ u.proc.blocks, ∀ l ∈ b.lines, l.label < u.proc.fresh := by
  obtain ⟨hsizes, abi, regs, frame, blocks, fresh, hframe, hblocks, rfl⟩ := build_cases h
  have hstart : d.startFrame.IsShaped :=
    ⟨fun o ho => absurd ho List.not_mem_nil, fun o ho => absurd ho List.not_mem_nil⟩
  obtain ⟨hshaped, objects, fixed, rfl⟩ := frame_of_buildObjects hframe hstart
  refine ⟨hshaped, ?_, fun b hb l hl => ?_⟩
  · simp only [hasFrameSizes, Bool.and_eq_true, decide_eq_true_eq] at hsizes
    have hwords := congrArg Int64.toInt hsizes.2
    rw [Int64.toInt_mod] at hwords
    exact Int.dvd_of_tmod_eq_zero hwords
  · obtain ⟨n, is, hlines, hle⟩ := (lines_of_buildBlocks hblocks).2 b hb
    rw [hlines] at hl
    exact Nat.lt_of_lt_of_le (Line.label_lt_of_mem_number hl) hle

end FunctionDesc

end FrameLowering
