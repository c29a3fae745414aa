import FrameLowering.Lowering.Slots
import FrameLowering.Proofs.Execution
import FrameLowering.Proofs.Int64Range
import FrameLowering.Proofs.SavedRegisters

/-!
# Where slots are placed

The slots of saved registers are packed one right below the other. Offsets are sums of 64 bits,
which may wrap around (`Frame.Stacks`); where no sum leaves the range of offsets, the slots are in a
row below the stack pointer on entry (`Frame.Tiles`). Objects that are placed later only move the
depth down, so that they are all apart from the saved registers.
-/

namespace FrameLowering

/-! ## Objects by index -/

namespace Frame

theorem position_ofNat {n : Nat} (h : n < 2 ^ 63) :
    0 ≤ Int64.ofNat n ∧ position (Int64.ofNat n) = n := by
  have hint := Int64.toInt_ofNat_of_lt h
  have hnonneg : 0 ≤ Int64.ofNat n := by
    rw [Int64.le_iff_toInt_le, hint]
    exact Int.natCast_nonneg n
  refine ⟨hnonneg, ?_⟩
  rw [position, if_pos hnonneg, hint, Int.toNat_natCast]

theorem object?_ofNat (f : Frame) {n : Nat} (h : n < 2 ^ 63) :
    f.object? (Int64.ofNat n) = f.objects[n]? := by
  obtain ⟨hnonneg, hpos⟩ := position_ofNat h
  rw [object?, if_pos hnonneg, hpos]

theorem object?_noIndex {f : Frame} (h : f.fixed.length < 2 ^ 31) :
    f.object? noIndex = none := by
  have hpos : position noIndex = 2 ^ 31 - 1 := by decide
  have hneg : ¬ 0 ≤ noIndex := by decide
  rw [object?, if_neg hneg, hpos, List.getElem?_eq_none]
  omega

theorem eq_of_position {i j : Int64} (hsign : 0 ≤ i ↔ 0 ≤ j) (h : position i = position j) :
    i = j := by
  apply Int64.toInt_inj.1
  rw [Int64.le_iff_toInt_le, Int64.le_iff_toInt_le, Int64.toInt_zero] at hsign
  simp only [position, Int64.le_iff_toInt_le, Int64.toInt_zero] at h
  split at h <;> split at h <;> omega

/-- An object after a change to one object. -/
theorem object?_modify (f : Frame) (i j : Int64) (g : FrameObject → FrameObject) :
    (f.modify i g).object? j = if i = j then (f.object? j).map g else f.object? j := by
  by_cases hij : i = j
  · subst hij
    rw [if_pos rfl, modify, object?, object?]
    by_cases hi : 0 ≤ i
    · simp only [hi, if_true, List.getElem?_modify_eq, Option.map_eq_map]
    · simp only [hi, if_false, List.getElem?_modify_eq, Option.map_eq_map]
  · rw [if_neg hij, modify, object?, object?]
    by_cases hi : 0 ≤ i <;> by_cases hj : 0 ≤ j
    · have hne : position i ≠ position j := fun h => hij (eq_of_position (by simp [hi, hj]) h)
      simp only [hi, hj, if_true, List.getElem?_modify_ne _ _ hne]
    · simp only [hi, hj, if_true, if_false]
    · simp only [hi, hj, if_true, if_false]
    · have hne : position i ≠ position j := fun h => hij (eq_of_position (by simp [hi, hj]) h)
      simp only [hi, hj, if_false, List.getElem?_modify_ne _ _ hne]

/-- A frame with its objects elsewhere. -/
structure Moves (f f' : Frame) : Prop where
  same : ∃ objects fixed, f' = { f with objects, fixed }
  objects : ∀ j, (f'.object? j).map (fun o => { o with offset := 0 }) =
    (f.object? j).map fun o => { o with offset := 0 }

theorem Moves.refl (f : Frame) : f.Moves f :=
  ⟨⟨_, _, rfl⟩, fun _ => rfl⟩

theorem Moves.trans {f g h : Frame} (hfg : f.Moves g) (hgh : g.Moves h) : f.Moves h := by
  obtain ⟨⟨_, _, rfl⟩, hobjects⟩ := hfg
  obtain ⟨⟨objects, fixed, rfl⟩, hobjects'⟩ := hgh
  exact ⟨⟨objects, fixed, rfl⟩, fun j => (hobjects' j).trans (hobjects j)⟩

theorem moves_modify (f : Frame) (i : Int64) (offset : Int64) :
    f.Moves (f.modify i fun o => { o with offset }) := by
  refine ⟨?_, fun j => ?_⟩
  · rw [modify]
    split
    · exact ⟨_, _, rfl⟩
    · exact ⟨_, _, rfl⟩
  · rw [object?_modify]
    split
    · rw [Option.map_map]
      rfl
    · rfl

/-- An object has kept its size and its other properties. -/
theorem Moves.object {f f' : Frame} {j : Int64} {o : FrameObject} (h : f.Moves f')
    (ho : f'.object? j = some o) :
    ∃ q, f.object? j = some q ∧ q.size = o.size ∧ q.align = o.align := by
  have hj := h.objects j
  rw [ho, Option.map_some, eq_comm, Option.map_eq_some_iff] at hj
  obtain ⟨q, hq, heq⟩ := hj
  obtain ⟨hsize, halign, -⟩ := FrameObject.mk.inj heq
  exact ⟨q, hq, hsize, halign⟩

end Frame

/-! ## Slots in a row -/

/-- Bytes of the slot of a saved register. -/
def SavedSlot.bytes (σ : SavedSlot) : Nat :=
  4 * σ.reg.cells.length

/-- Bytes of some slots together. -/
def savedBytes (σs : List SavedSlot) : Nat :=
  (σs.map SavedSlot.bytes).sum

@[simp] theorem savedBytes_nil : savedBytes [] = 0 := rfl

@[simp] theorem savedBytes_cons (σ : SavedSlot) (σs : List SavedSlot) :
    savedBytes (σ :: σs) = σ.bytes + savedBytes σs := rfl

@[simp] theorem savedBytes_append (σs τs : List SavedSlot) :
    savedBytes (σs ++ τs) = savedBytes σs + savedBytes τs := by
  simp [savedBytes]

namespace Frame

/-- Some slots are one right below the other, `depth` bytes down, and of the right sizes. -/
def Tiles (f : Frame) : (depth : Nat) → List SavedSlot → Prop
  | _, [] => True
  | depth, σ :: σs =>
    (∃ o, f.object? σ.index = some o ∧ o.size.toInt = σ.bytes ∧
      o.offset.toInt = -(depth + σ.bytes : Int)) ∧ Tiles f (depth + σ.bytes) σs

theorem Tiles.congr {f f' : Frame} {depth : Nat} {σs : List SavedSlot} (h : f.Tiles depth σs)
    (hsame : ∀ σ ∈ σs, f'.object? σ.index = f.object? σ.index) : f'.Tiles depth σs := by
  induction σs generalizing depth with
  | nil => trivial
  | cons σ σs ih =>
    obtain ⟨⟨o, ho, hsize, hoffset⟩, hrest⟩ := h
    refine ⟨⟨o, (hsame σ List.mem_cons_self).trans ho, hsize, hoffset⟩, ih hrest ?_⟩
    exact fun τ hτ => hsame τ (List.mem_cons_of_mem _ hτ)

theorem tiles_append {f : Frame} {depth : Nat} {σs τs : List SavedSlot} :
    f.Tiles depth (σs ++ τs) ↔ f.Tiles depth σs ∧ f.Tiles (depth + savedBytes σs) τs := by
  induction σs generalizing depth with
  | nil => simp [Tiles]
  | cons σ σs ih => simp only [List.cons_append, Tiles, ih, savedBytes_cons, and_assoc,
      Nat.add_assoc]

/-- A slot lies in the range of its row. -/
theorem Tiles.mem {f : Frame} {depth : Nat} {σs : List SavedSlot} {σ : SavedSlot}
    (h : f.Tiles depth σs) (hσ : σ ∈ σs) :
    ∃ o, f.object? σ.index = some o ∧ o.size.toInt = σ.bytes ∧
      -(depth + savedBytes σs : Int) ≤ o.offset.toInt ∧ o.offset.toInt ≤ -(depth + σ.bytes : Int) := by
  induction σs generalizing depth with
  | nil => exact absurd hσ List.not_mem_nil
  | cons τ σs ih =>
    obtain ⟨⟨o, ho, hsize, hoffset⟩, hrest⟩ := h
    simp only [savedBytes_cons, Nat.cast_add]
    rcases List.mem_cons.1 hσ with rfl | hσ
    · exact ⟨o, ho, hsize, by omega, by omega⟩
    · obtain ⟨q, hq, hqsize, hlo, hhi⟩ := ih hrest hσ
      exact ⟨q, hq, hqsize, by omega, by omega⟩

/-- Some slots are one right below the other, the first of them `depth` bytes down. -/
def Stacks (f : Frame) : (depth : Int64) → List SavedSlot → Prop
  | _, [] => True
  | depth, σ :: σs =>
    (∃ o, f.object? σ.index = some o ∧ o.size = Int64.ofNat σ.bytes ∧
      o.offset = -(depth + Int64.ofNat σ.bytes)) ∧ Stacks f (depth + Int64.ofNat σ.bytes) σs

section
variable {f f' : Frame} {depth : Int64} {σs : List SavedSlot}

theorem Stacks.congr (h : f.Stacks depth σs)
    (hsame : ∀ σ ∈ σs, f'.object? σ.index = f.object? σ.index) : f'.Stacks depth σs := by
  induction σs generalizing depth with
  | nil => trivial
  | cons σ σs ih =>
    obtain ⟨⟨o, ho, hplace⟩, hrest⟩ := h
    refine ⟨⟨o, (hsame σ List.mem_cons_self).trans ho, hplace⟩, ih hrest ?_⟩
    intro τ hτ
    exact hsame τ (List.mem_cons_of_mem _ hτ)

/-- The place of a slot after those before it. -/
theorem Stacks.split {pre post : List SavedSlot} {σ : SavedSlot}
    (h : f.Stacks depth (pre ++ σ :: post)) :
    ∃ o, f.object? σ.index = some o ∧ o.size = Int64.ofNat σ.bytes ∧
      o.offset = -(depth + Int64.ofNat (savedBytes pre + σ.bytes)) := by
  induction pre generalizing depth with
  | nil =>
    obtain ⟨hhead, -⟩ := h
    rw [savedBytes_nil, Nat.zero_add]
    exact hhead
  | cons τ pre ih =>
    obtain ⟨-, hrest⟩ := h
    obtain ⟨o, ho, hsize, hoffset⟩ := ih hrest
    refine ⟨o, ho, hsize, ?_⟩
    rw [hoffset, savedBytes_cons, Nat.add_assoc, Int64.add_assoc, ← Int64.ofNat_add]

/-- Slots in a row, where no sum leaves the range of offsets. -/
theorem Stacks.tiles {n : Nat} (h : f.Stacks depth σs) (hdepth : depth.toInt = n)
    (hbound : n + savedBytes σs < 2 ^ 63) : f.Tiles n σs := by
  induction σs generalizing depth n with
  | nil => trivial
  | cons σ σs ih =>
    obtain ⟨⟨o, ho, hsize, hoffset⟩, hrest⟩ := h
    rw [savedBytes_cons] at hbound
    have hbytes : (Int64.ofNat σ.bytes).toInt = σ.bytes := Int64.toInt_ofNat_of_lt (by omega)
    have hsum : (depth + Int64.ofNat σ.bytes).toInt = ↑(n + σ.bytes) := by
      rw [toInt_add_of_range (by omega) (by omega), hdepth, hbytes]
      omega
    refine ⟨⟨o, ho, ?_, ?_⟩, ih hrest hsum (by omega)⟩
    · rw [hsize, hbytes]
    · rw [hoffset, toInt_neg_of_range (by omega), hsum]
      omega

end

end Frame

/-! ## Placement -/

namespace Placement

/-- Packing slots changes nothing but where they are. -/
theorem moves_foldl_pack (s : Placement) (σs : List SavedSlot) :
    s.frame.Moves (σs.foldl pack s).frame := by
  induction σs generalizing s with
  | nil => exact .refl _
  | cons σ σs ih =>
    refine Frame.Moves.trans ?_ (ih (s.pack σ))
    rw [pack]
    cases s.frame.object? σ.index with
    | none => exact .refl _
    | some o => exact s.frame.moves_modify _ _

/-- Slots that are packed come to lie one right below the other. -/
theorem stacks_foldl_pack {s : Placement} {σs : List SavedSlot}
    (hobjects : ∀ σ ∈ σs, ∃ o, s.frame.object? σ.index = some o ∧ o.size = Int64.ofNat σ.bytes)
    (hnodup : (σs.map SavedSlot.index).Nodup) :
    (σs.foldl pack s).frame.Stacks s.depth σs ∧
      (σs.foldl pack s).depth = s.depth + Int64.ofNat (savedBytes σs) ∧
      ∀ j, j ∉ σs.map SavedSlot.index → (σs.foldl pack s).frame.object? j = s.frame.object? j := by
  induction σs generalizing s with
  | nil => exact ⟨trivial, (Int64.add_zero _).symm, fun _ _ => rfl⟩
  | cons σ σs ih =>
    obtain ⟨o, ho, hsize⟩ := hobjects σ List.mem_cons_self
    obtain ⟨hother, hnodup⟩ := List.nodup_cons.1 hnodup
    have hpack : s.pack σ = { s with
        frame := s.frame.modify σ.index fun q => { q with offset := -(s.depth + o.size) }
        depth := s.depth + o.size } := by
      rw [pack, ho]
    have hkeeps : ∀ j, j ≠ σ.index → (s.pack σ).frame.object? j = s.frame.object? j := by
      intro j hj
      rw [hpack, Frame.object?_modify, if_neg (Ne.symm hj)]
    obtain ⟨hstacks, hlast, hsame⟩ := ih (s := s.pack σ) (fun τ hτ => by
      rw [hkeeps _ fun h => hother (h ▸ List.mem_map_of_mem hτ)]
      exact hobjects τ (List.mem_cons_of_mem _ hτ)) hnodup
    have hdepth : (s.pack σ).depth = s.depth + Int64.ofNat σ.bytes := by
      rw [hpack, ← hsize]
    rw [List.foldl_cons]
    refine ⟨⟨⟨{ o with offset := -(s.depth + o.size) }, ?_, hsize, ?_⟩, ?_⟩, ?_, ?_⟩
    · rw [hsame _ hother, hpack, Frame.object?_modify, if_pos rfl, ho]
      rfl
    · rw [hsize]
    · rw [← hdepth]
      exact hstacks
    · rw [hlast, hdepth, Int64.add_assoc, ← Int64.ofNat_add, savedBytes_cons]
    · intro j hj
      rw [List.map_cons, List.mem_cons, not_or] at hj
      rw [hsame j hj.2, hkeeps j hj.1]

/-- Placing objects leaves the others alone. -/
theorem foldl_place_facts (s : Placement) (js : List Int64) :
    s.frame.Moves (js.foldl place s).frame ∧
      ∀ j, j ∉ js → (js.foldl place s).frame.object? j = s.frame.object? j := by
  induction js generalizing s with
  | nil => exact ⟨.refl _, fun _ _ => rfl⟩
  | cons i js ih =>
    have hplace : s.frame.Moves (s.place i).frame ∧
        ∀ j, j ≠ i → (s.place i).frame.object? j = s.frame.object? j := by
      rw [place]
      cases s.frame.object? i with
      | none => exact ⟨.refl _, fun _ _ => rfl⟩
      | some o =>
        refine ⟨s.frame.moves_modify _ _, fun j hj => ?_⟩
        rw [Frame.object?_modify, if_neg (Ne.symm hj)]
    obtain ⟨hmoves, hsame⟩ := ih (s.place i)
    refine ⟨hplace.1.trans hmoves, fun j hj => ?_⟩
    rw [List.mem_cons, not_or] at hj
    rw [List.foldl_cons, hsame j hj.2, hplace.2 j hj.1]

/-- The object that is placed first lies right below what was taken before, wherever the
others come to lie. -/
theorem foldl_place_first {s : Placement} {i : Int64} {js : List Int64} {o q : FrameObject}
    (hi : i ∉ js) (hlo : 0 ≤ s.depth.toInt) (hhi : s.depth.toInt ≤ 2 ^ 32)
    (hsize : 0 ≤ o.size.toInt ∧ o.size.toInt < 2 ^ 31)
    (halign : 0 < o.align.toInt ∧ o.align.toInt ≤ 2 ^ 62) (ho : s.frame.object? i = some o)
    (hq : ((i :: js).foldl place s).frame.object? i = some q) :
    q.offset.toInt ≤ -(s.depth.toInt + o.size.toInt) ∧
      -(s.depth.toInt + o.size.toInt + o.align.toInt) < q.offset.toInt := by
  obtain ⟨-, hsame⟩ := foldl_place_facts (s.place i) js
  have hsum : (s.depth + o.size).toInt = s.depth.toInt + o.size.toInt :=
    toInt_add_of_range (by omega) (by omega)
  obtain ⟨hge, hlt, -⟩ := toInt_alignTo (n := s.depth + o.size) (by omega) halign.1 (by omega)
  rw [List.foldl_cons, hsame i hi, place, ho, Frame.object?_modify, if_pos rfl, ho] at hq
  obtain rfl := Option.some.inj hq
  show (-alignTo (s.depth + o.size) o.align).toInt ≤ _ ∧
    _ < (-alignTo (s.depth + o.size) o.align).toInt
  rw [toInt_neg_of_range (by omega)]
  omega

/-- Objects that are placed lie below what was taken before, unless the depth gets out of
hand. -/
theorem foldl_place_below {s : Placement} {js : List Int64} (hnodup : js.Nodup)
    (hlo : 0 ≤ s.depth.toInt) (hhi : s.depth.toInt ≤ 2 ^ 32)
    (hshape : ∀ j o, s.frame.object? j = some o → j ∈ js →
      0 ≤ o.size.toInt ∧ o.size.toInt < 2 ^ 31 ∧ 0 < o.align.toInt ∧ o.align.toInt ≤ 2 ^ 62)
    (hfinal : ∀ j o, (js.foldl place s).frame.object? j = some o → -2 ^ 32 ≤ o.offset.toInt) :
    ∀ j ∈ js, ∀ o, (js.foldl place s).frame.object? j = some o →
      o.offset.toInt ≤ -(s.depth.toInt + o.size.toInt) := by
  induction js generalizing s with
  | nil => exact fun j hj => absurd hj List.not_mem_nil
  | cons i js ih =>
    obtain ⟨hi, hnodup⟩ := List.nodup_cons.1 hnodup
    rw [List.foldl_cons] at hfinal ⊢
    obtain ⟨-, hsame⟩ := foldl_place_facts (s.place i) js
    cases hobject : s.frame.object? i with
    -- an index without an object places nothing
    | none =>
      have hplace : s.place i = s := by rw [place, hobject]
      rw [hplace] at hfinal hsame ⊢
      intro j hj o ho
      rcases List.mem_cons.1 hj with rfl | hj
      · rw [hsame j hi, hobject] at ho
        cases ho
      · exact ih hnodup hlo hhi (fun k q hq hk => hshape k q hq (List.mem_cons_of_mem _ hk))
          hfinal j hj o ho
    | some q =>
      obtain ⟨hsize, hsize', halign, halign'⟩ := hshape i q hobject List.mem_cons_self
      have hplace : s.place i = ⟨s.frame.modify i fun o => { o with
          offset := -alignTo (s.depth + q.size) q.align }, alignTo (s.depth + q.size) q.align,
          max s.maxAlign q.align⟩ := by
        rw [place, hobject]
      have hsum : (s.depth + q.size).toInt = s.depth.toInt + q.size.toInt :=
        toInt_add_of_range (by omega) (by omega)
      obtain ⟨hge, -, -⟩ := toInt_alignTo (n := s.depth + q.size) (by omega) halign (by omega)
      have hself : (js.foldl place (s.place i)).frame.object? i =
          some { q with offset := -alignTo (s.depth + q.size) q.align } := by
        rw [hsame i hi, hplace, Frame.object?_modify, if_pos rfl, hobject]
        rfl
      have hneg : (-alignTo (s.depth + q.size) q.align).toInt =
          -(alignTo (s.depth + q.size) q.align).toInt :=
        toInt_neg_of_range (by omega)
      -- the final offset bounds the new depth, so that the rest starts in range again
      have hlow := hfinal i _ hself
      simp only [hneg] at hlow
      have hdepth : (s.place i).depth.toInt = (alignTo (s.depth + q.size) q.align).toInt := by
        rw [hplace]
      intro j hj o ho
      rcases List.mem_cons.1 hj with rfl | hj
      · rw [hself] at ho
        obtain rfl := Option.some.inj ho
        simp only [hneg]
        omega
      · have hshape' : ∀ k r, (s.place i).frame.object? k = some r → k ∈ js →
            0 ≤ r.size.toInt ∧ r.size.toInt < 2 ^ 31 ∧ 0 < r.align.toInt ∧
              r.align.toInt ≤ 2 ^ 62 := by
          intro k r hr hk
          have hne : i ≠ k := fun h => hi (h ▸ hk)
          rw [hplace, Frame.object?_modify, if_neg hne] at hr
          exact hshape k r hr (List.mem_cons_of_mem _ hk)
        have := ih hnodup (by omega) (by omega) hshape' hfinal j hj o ho
        omega

end Placement

end FrameLowering
