import FrameLowering.Proofs.ObjectLayout

/-!
# Depths of objects

Placing an object below some bytes takes these up to a multiple of its alignment. Without the bounds
of 64 bits this is a function of integers, `FrameObject.depthBelow`, and placing objects one after
the other is a fold of it as long as the sums are in range (`Placement.toInt_depth_foldl_place`).
What depends on alignments only is said of the fold: it never goes back up, and a start that is lower
by a multiple of all alignments lowers the end by as much.
-/

namespace FrameLowering

/-- The depth of an object that is placed below `n` bytes. -/
def FrameObject.depthBelow (n : Int) (o : FrameObject) : Int :=
  (n + o.size.toInt + o.align.toInt - 1) / o.align.toInt * o.align.toInt

section
variable {o : FrameObject} {os : List FrameObject} {m n k : Int}

/-- A depth that is lower by a multiple of the alignment is lower by as much after the object. -/
theorem FrameObject.depthBelow_le (hpos : 0 < o.align.toInt) (hk : o.align.toInt ∣ k)
    (h : m ≤ n + k) : o.depthBelow m ≤ o.depthBelow n + k := by
  obtain ⟨c, rfl⟩ := hk
  have hshift : o.depthBelow n + o.align.toInt * c = o.depthBelow (n + o.align.toInt * c) := by
    rw [depthBelow, depthBelow, Int.mul_comm o.align.toInt c, ← Int.add_mul,
      ← Int.add_mul_ediv_right _ c (Int.ne_of_gt hpos)]
    congr 2
    omega
  rw [hshift, depthBelow, depthBelow]
  apply Int.mul_le_mul_of_nonneg_right _ (Int.le_of_lt hpos)
  apply Int.ediv_le_ediv hpos
  omega

/-- The same for objects one below the other. -/
theorem foldl_depthBelow_le (hos : ∀ o ∈ os, 0 < o.align.toInt ∧ o.align.toInt ∣ k)
    (h : m ≤ n + k) :
    os.foldl FrameObject.depthBelow m ≤ os.foldl FrameObject.depthBelow n + k := by
  induction os generalizing m n with
  | nil => exact h
  | cons o os ih =>
    obtain ⟨⟨hpos, hk⟩, hos⟩ := List.forall_mem_cons.1 hos
    exact ih hos (FrameObject.depthBelow_le hpos hk h)

theorem FrameObject.depthBelow_bounds (hpos : 0 < o.align.toInt) :
    n + o.size.toInt ≤ o.depthBelow n ∧ o.depthBelow n < n + o.size.toInt + o.align.toInt := by
  have hmod := Int.emod_add_mul_ediv (n + o.size.toInt + o.align.toInt - 1) o.align.toInt
  have hlo := Int.emod_nonneg (n + o.size.toInt + o.align.toInt - 1) (Int.ne_of_gt hpos)
  have hhi := Int.emod_lt_of_pos (n + o.size.toInt + o.align.toInt - 1) hpos
  rw [depthBelow, Int.mul_comm]
  omega

theorem le_foldl_depthBelow (hos : ∀ o ∈ os, Frame.isShape o.size o.align) :
    n ≤ os.foldl FrameObject.depthBelow n := by
  induction os generalizing n with
  | nil => exact Int.le_refl _
  | cons o os ih =>
    obtain ⟨ho, hos⟩ := List.forall_mem_cons.1 hos
    obtain ⟨hsize, hpos⟩ := positive_of_isShape ho
    have hstep := (FrameObject.depthBelow_bounds (n := n) hpos).1
    have hrest := ih (n := o.depthBelow n) hos
    rw [List.foldl_cons]
    omega

/-- Placing an object in the range of offsets. -/
theorem FrameObject.toInt_alignTo {depth : Int64} (hdepth : 0 ≤ depth.toInt)
    (hshape : Frame.isShape o.size o.align)
    (hrange : depth.toInt + o.size.toInt + o.align.toInt ≤ 2 ^ 63) :
    (alignTo (depth + o.size) o.align).toInt = o.depthBelow depth.toInt := by
  obtain ⟨hsize, hpos⟩ := positive_of_isShape hshape
  have hsum : (depth + o.size).toInt = depth.toInt + o.size.toInt :=
    toInt_add_of_range (by omega) (by omega)
  obtain ⟨hge, hlt, hdvd⟩ := FrameLowering.toInt_alignTo (n := depth + o.size) (by omega) hpos
    (by omega)
  obtain ⟨hge', hlt'⟩ := depthBelow_bounds (n := depth.toInt) hpos
  -- both are the multiple of the alignment within one alignment of the same depth
  have hdvd' : o.align.toInt ∣ o.depthBelow depth.toInt := Int.dvd_mul_left _ _
  apply Int.eq_of_sub_eq_zero
  apply Int.eq_zero_of_abs_lt_dvd (Int.dvd_sub hdvd hdvd')
  rw [abs_lt]
  omega

end

namespace Placement

/-- The placement is the depth of the last object below what was taken before. -/
theorem toInt_depth_foldl_place {s : Placement} {f : Frame} {js : List Int64}
    (hmoves : f.Moves s.frame)
    (hshaped : ∀ j o, f.object? j = some o → Frame.isShape o.size o.align)
    (halong : Along place PlaceInRange s js) (hdepth : 0 ≤ s.depth.toInt) :
    (js.foldl place s).depth.toInt =
      (js.filterMap f.object?).foldl FrameObject.depthBelow s.depth.toInt := by
  induction js generalizing s with
  | nil => rfl
  | cons j js ih =>
    obtain ⟨hroom, halong⟩ := halong
    rw [List.foldl_cons]
    cases ho : s.frame.object? j with
    | none =>
      have hnone : f.object? j = none := by
        have hobjects := hmoves.objects j
        rw [ho] at hobjects
        exact Option.map_eq_none_iff.1 hobjects.symm
      have hsame : s.place j = s := by rw [place, ho]
      rw [hsame] at halong ⊢
      rw [List.filterMap_cons_none hnone]
      exact ih hmoves halong hdepth
    | some o =>
      obtain ⟨q, hq, hsize, halign⟩ := hmoves.object ho
      have hshape := hshaped j q hq
      have hroom := hroom o ho
      rw [← hsize, ← halign] at hroom
      have hplace : (s.place j).depth = alignTo (s.depth + q.size) q.align := by
        rw [place, ho, hsize, halign]
      have hint := FrameObject.toInt_alignTo hdepth hshape hroom
      have hbounds := FrameObject.depthBelow_bounds (n := s.depth.toInt) (positive_of_isShape hshape).2
      have hpos := (positive_of_isShape hshape).1
      rw [List.filterMap_cons_some hq, List.foldl_cons, ← hint, ← hplace]
      exact ih (hmoves.trans (foldl_place_facts s [j]).1) halong (by rw [hplace]; omega)

theorem depth_le_foldl_place {s : Placement} {f : Frame} {js : List Int64}
    (hmoves : f.Moves s.frame)
    (hshaped : ∀ j o, f.object? j = some o → Frame.isShape o.size o.align)
    (halong : Along place PlaceInRange s js) (hdepth : 0 ≤ s.depth.toInt) :
    s.depth.toInt ≤ (js.foldl place s).depth.toInt := by
  rw [toInt_depth_foldl_place hmoves hshaped halong hdepth]
  apply le_foldl_depthBelow
  intro o ho
  obtain ⟨j, -, ho⟩ := List.mem_filterMap.1 ho
  exact hshaped j o ho

end Placement

end FrameLowering
