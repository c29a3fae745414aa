import FrameLowering.Proofs.StackAlignment

/-!
# Frame objects do not overlap

Objects are placed one after the other, each at the bottom of what is taken so far. Whether it is
packed or aligned, a step puts one object between the old depth and the new one
(`Placement.IsLaid.settle`), so that along a whole placement the objects stay apart and below the
fixed ones. `Target.laysOut_of_isBare` is the main statement. It asks that the sums that are formed
stay in range (`Target.SumsInRange`), and nothing about how large objects are otherwise. Fixed
objects are left where they are, aligned or not (`Target.misaligned_fixed`).
-/

namespace FrameLowering

/-! ## Placing one object after the other -/

/-- Two objects share no byte. -/
def FrameObject.Apart (o r : FrameObject) : Prop :=
  o.offset.toInt + o.size.toInt ≤ r.offset.toInt ∨ r.offset.toInt + r.size.toInt ≤ o.offset.toInt

theorem FrameObject.Apart.symm {o r : FrameObject} (h : o.Apart r) : r.Apart o :=
  Or.symm h

namespace Placement

/-- A condition on each step of a placement. -/
def Along {α : Type} (step : Placement → α → Placement) (ok : Placement → α → Prop) :
    Placement → List α → Prop
  | _, [] => True
  | s, a :: as => ok s a ∧ Along step ok (step s a) as

instance decidableAlong {α : Type} (step : Placement → α → Placement) (ok : Placement → α → Prop)
    [∀ s a, Decidable (ok s a)] : ∀ s as, Decidable (Along step ok s as)
  | _, [] => isTrue trivial
  | s, a :: as =>
    have := decidableAlong step ok (step s a) as
    inferInstanceAs (Decidable (ok s a ∧ Along step ok (step s a) as))

/-- The sum that packing a slot forms is in range. -/
def PackInRange (s : Placement) (σ : SavedSlot) : Prop :=
  ∀ o ∈ s.frame.object? σ.index, s.depth.toInt + o.size.toInt < 2 ^ 63

/-- The sums that placing an object forms are in range, up to the last number before a multiple of
its alignment. -/
def PlaceInRange (s : Placement) (index : Int64) : Prop :=
  ∀ o ∈ s.frame.object? index, s.depth.toInt + o.size.toInt + o.align.toInt ≤ 2 ^ 63

instance (s : Placement) (σ : SavedSlot) : Decidable (PackInRange s σ) :=
  inferInstanceAs (Decidable (∀ o ∈ _, _))

instance (s : Placement) (index : Int64) : Decidable (PlaceInRange s index) :=
  inferInstanceAs (Decidable (∀ o ∈ _, _))

/-- What holds of the indices that have been placed holds of all of them in the end, if each step
adds its own index. -/
theorem foldl_along {α : Type} {step : Placement → α → Placement} {ok : Placement → α → Prop}
    (index : α → Int64) {I : Placement → List Int64 → Prop}
    (hstep : ∀ s placed a, I s placed → index a ∉ placed → ok s a → I (step s a) (index a :: placed))
    {s : Placement} {placed : List Int64} {as : List α} (h : I s placed) (halong : Along step ok s as)
    (hnodup : (as.map index).Nodup) (hnew : ∀ a ∈ as, index a ∉ placed) :
    I (as.foldl step s) ((as.map index).reverse ++ placed) := by
  induction as generalizing s placed with
  | nil => exact h
  | cons a as ih =>
    obtain ⟨hother, hnodup⟩ := List.nodup_cons.1 hnodup
    rw [List.foldl_cons, List.map_cons, List.reverse_cons, List.append_assoc]
    apply ih (hstep s placed a h (hnew a List.mem_cons_self) halong.1) halong.2 hnodup
    intro b hb
    rw [List.mem_cons, not_or]
    exact ⟨fun heq => hother (heq ▸ List.mem_map_of_mem hb), hnew b (List.mem_cons_of_mem _ hb)⟩

/-- The objects with some indices are apart from each other, between `top` bytes down and the
depth. -/
structure IsLaid (top : Int) (s : Placement) (placed : List Int64) : Prop where
  depth : top ≤ s.depth.toInt
  sizes : ∀ j o, s.frame.object? j = some o → 0 ≤ o.size.toInt ∧ 0 < o.align.toInt
  bounds : ∀ j ∈ placed, ∀ o, s.frame.object? j = some o →
    -s.depth.toInt ≤ o.offset.toInt ∧ o.offset.toInt + o.size.toInt ≤ -top
  apart : ∀ i ∈ placed, ∀ j ∈ placed, i ≠ j → ∀ o r, s.frame.object? i = some o →
    s.frame.object? j = some r → o.Apart r

section
variable {top : Int} {s : Placement} {placed : List Int64} {j : Int64} {o : FrameObject}

/-- One more index, with an object that was not there. -/
theorem IsLaid.skip (h : s.IsLaid top placed) (hj : s.frame.object? j = none) :
    s.IsLaid top (j :: placed) := by
  have hcases {i : Int64} {r : FrameObject} (hi : i ∈ j :: placed)
      (hr : s.frame.object? i = some r) : i ∈ placed := by
    rcases List.mem_cons.1 hi with rfl | hi
    · rw [hj] at hr
      cases hr
    · exact hi
  refine ⟨h.depth, h.sizes, fun i hi r hr => h.bounds i (hcases hi hr) r hr, ?_⟩
  intro i hi k hk hne r r' hr hr'
  exact h.apart i (hcases hi hr) k (hcases hk hr') hne r r' hr hr'

/-- The object that is placed comes to lie between the old depth and the new one, so it is apart
from all those above. -/
theorem IsLaid.settle (h : s.IsLaid top placed) (htop : 0 ≤ top) (hj : j ∉ placed)
    (ho : s.frame.object? j = some o) {depth maxAlign : Int64}
    (hdepth : s.depth.toInt + o.size.toInt ≤ depth.toInt) :
    IsLaid top ⟨s.frame.modify j fun r => { r with offset := -depth }, depth, maxAlign⟩
      (j :: placed) := by
  have hold := h.depth
  have hsize := (h.sizes j o ho).1
  have hneg : (-depth).toInt = -depth.toInt := toInt_neg_of_range (by omega)
  have hself {r : FrameObject} (hr : (s.frame.modify j fun r =>
      { r with offset := -depth }).object? j = some r) : r = { o with offset := -depth } := by
    rw [Frame.object?_modify, if_pos rfl, ho] at hr
    exact (Option.some.inj hr).symm
  have hother {i : Int64} (hi : i ∈ placed) {r : FrameObject} (hr : (s.frame.modify j fun r =>
      { r with offset := -depth }).object? i = some r) : s.frame.object? i = some r := by
    have hne : j ≠ i := fun heq => hj (heq ▸ hi)
    rwa [Frame.object?_modify, if_neg hne] at hr
  -- what was placed before starts at the old depth or above
  have hbelow {i : Int64} (hi : i ∈ placed) {r : FrameObject} (hr : s.frame.object? i = some r) :
      FrameObject.Apart { o with offset := -depth } r := by
    have := (h.bounds i hi r hr).1
    left
    show (-depth).toInt + o.size.toInt ≤ r.offset.toInt
    omega
  refine ⟨by show top ≤ depth.toInt; omega, ?_, ?_, ?_⟩
  · intro i r hr
    obtain ⟨r', hr', hsize', halign'⟩ := (s.frame.moves_modify j (-depth)).object hr
    rw [← hsize', ← halign']
    exact h.sizes i r' hr'
  · intro i hi r hr
    rcases List.mem_cons.1 hi with rfl | hi
    · obtain rfl := hself hr
      show -depth.toInt ≤ (-depth).toInt ∧ (-depth).toInt + o.size.toInt ≤ -top
      omega
    · have hbounds := h.bounds i hi r (hother hi hr)
      show -depth.toInt ≤ _ ∧ _
      omega
  · intro i hi k hk hne r r' hr hr'
    rcases List.mem_cons.1 hi with rfl | hi'
    · obtain rfl := hself hr
      rcases List.mem_cons.1 hk with rfl | hk'
      · exact absurd rfl hne
      · exact hbelow hk' (hother hk' hr')
    · rcases List.mem_cons.1 hk with rfl | hk'
      · obtain rfl := hself hr'
        exact (hbelow hi' (hother hi' hr)).symm
      · exact h.apart i hi' k hk' hne r r' (hother hi' hr) (hother hk' hr')

theorem IsLaid.pack (h : s.IsLaid top placed) (htop : 0 ≤ top) {σ : SavedSlot}
    (hσ : σ.index ∉ placed) (hrange : s.PackInRange σ) :
    (s.pack σ).IsLaid top (σ.index :: placed) := by
  rw [Placement.pack]
  cases ho : s.frame.object? σ.index with
  | none => exact h.skip ho
  | some o =>
    have hold := h.depth
    have hsize := (h.sizes _ o ho).1
    have hsum : (s.depth + o.size).toInt = s.depth.toInt + o.size.toInt :=
      toInt_add_of_range (by omega) (hrange o ho)
    exact h.settle htop hσ ho hsum.ge

theorem IsLaid.place (h : s.IsLaid top placed) (htop : 0 ≤ top) (hj : j ∉ placed)
    (hrange : s.PlaceInRange j) : (s.place j).IsLaid top (j :: placed) := by
  rw [Placement.place]
  cases ho : s.frame.object? j with
  | none => exact h.skip ho
  | some o =>
    have hold := h.depth
    obtain ⟨hsize, halign⟩ := h.sizes _ o ho
    have hbound : s.depth.toInt + o.size.toInt + o.align.toInt ≤ 2 ^ 63 := hrange o ho
    have hsum : (s.depth + o.size).toInt = s.depth.toInt + o.size.toInt :=
      toInt_add_of_range (by omega) (by omega)
    obtain ⟨hge, -, -⟩ := toInt_alignTo (n := s.depth + o.size) (by omega) halign (by omega)
    exact h.settle htop hj ho (by omega)

/-- The objects with some indices are at multiples of their alignments, of which none is above the
largest that was seen. -/
structure IsSeated (s : Placement) (placed : List Int64) : Prop where
  aligned : s.AllAlign IsPower
  seats : ∀ j ∈ placed, ∀ o, s.frame.object? j = some o →
    o.align.toInt ∣ o.offset.toInt ∧ o.align ≤ s.maxAlign

theorem IsSeated.place (h : s.IsSeated placed) (hj : j ∉ placed) :
    (s.place j).IsSeated (j :: placed) := by
  refine ⟨h.aligned.place j, ?_⟩
  intro i hi r hr
  rw [Placement.place] at hr ⊢
  cases ho : s.frame.object? j with
  | none =>
    rw [ho] at hr
    rcases List.mem_cons.1 hi with rfl | hi
    · cases ho.symm.trans hr
    · exact h.seats i hi r hr
  | some o =>
    rw [ho] at hr
    have hmax (a : Int64) (hle : a ≤ s.maxAlign ∨ a ≤ o.align) : a ≤ max s.maxAlign o.align := by
      show a ≤ if s.maxAlign ≤ o.align then o.align else s.maxAlign
      simp only [Int64.le_iff_toInt_le] at hle ⊢
      split <;> omega
    rw [Frame.object?_modify] at hr
    rcases List.mem_cons.1 hi with rfl | hi
    · rw [if_pos rfl, ho] at hr
      obtain rfl := Option.some.inj hr
      have hpower := h.aligned.objects _ o ho
      exact ⟨hpower.dvd_neg (hpower.dvd_alignTo _), hmax _ (.inr (Int64.le_refl _))⟩
    · have hne : j ≠ i := fun heq => hj (heq ▸ hi)
      rw [if_neg hne] at hr
      obtain ⟨hdvd, hle⟩ := h.seats i hi r hr
      exact ⟨hdvd, hmax _ (.inl hle)⟩

end

end Placement

/-! ## What is placed -/

namespace Frame

variable {f : Frame} {j : Int64} {o : FrameObject}

/-- Objects that are not fixed, by index. -/
theorem mem_indexed (hlen : f.objects.length < 2 ^ 63) :
    (j, o) ∈ f.indexed ↔ 0 ≤ j ∧ f.object? j = some o := by
  rw [indexed, List.mem_map]
  constructor
  · rintro ⟨⟨r, n⟩, hmem, heq⟩
    obtain ⟨rfl, rfl⟩ := Prod.mk.inj heq
    have hn := List.mk_mem_zipIdx_iff_getElem?.1 hmem
    have hlt : n < 2 ^ 63 := by
      have := (List.getElem?_eq_some_iff.1 hn).1
      omega
    exact ⟨(position_ofNat hlt).1, (object?_ofNat f hlt).trans hn⟩
  · rintro ⟨hj, ho⟩
    have hnat : Int64.ofNat (position j) = j := by
      rw [position, if_pos hj, ← Int64.toInt_inj, Int64.toInt_ofNat_of_lt]
      · rw [Int64.le_iff_toInt_le, Int64.toInt_zero] at hj
        omega
      · have := j.toInt_lt
        omega
    rw [object?, if_pos hj] at ho
    exact ⟨(o, position j), List.mk_mem_zipIdx_iff_getElem?.2 ho, by rw [hnat]⟩

/-- A live object that is not fixed. -/
structure Holds (f : Frame) (j : Int64) (o : FrameObject) : Prop where
  index : 0 ≤ j
  object : f.object? j = some o
  live : o.dead = false

theorem Moves.holds {f' : Frame} (h : f.Moves f') (ho : f'.Holds j o) :
    ∃ r, f.Holds j r ∧ r.size = o.size ∧ r.align = o.align := by
  have hj := h.objects j
  rw [ho.object, Option.map_some, eq_comm, Option.map_eq_some_iff] at hj
  obtain ⟨r, hr, heq⟩ := hj
  obtain ⟨hsize, halign, -, hdead, -⟩ := FrameObject.mk.inj heq
  exact ⟨r, ⟨ho.index, hr, hdead.trans ho.live⟩, hsize, halign⟩

end Frame

namespace Target

variable {t : Target} {p : Procedure} {j : Int64} {o : FrameObject}

/-- Every live object is the slot of a saved register, or is placed after those. -/
theorem mem_placementOrder_of_holds (hlen : p.frame.objects.length < 2 ^ 63)
    (h : p.frame.Holds j o) :
    j ∈ p.frame.saved.map SavedSlot.index ∨ j ∈ t.placementOrder p := by
  by_cases hsaved : j ∈ p.frame.saved.map SavedSlot.index
  · exact .inl hsaved
  right
  by_cases hscavenging : j = p.frame.scavengingIndex
  · rw [placementOrder, hscavenging]
    split
    · exact List.mem_cons_self
    · exact List.mem_append_right _ List.mem_cons_self
  have hlocal : j ∈ localIndices p.frame := by
    refine List.mem_map.2 ⟨(j, o), List.mem_filter.2 ⟨?_, ?_⟩, rfl⟩
    · exact (Frame.mem_indexed hlen).2 ⟨h.index, h.object⟩
    · have hnone : (p.frame.saved.any fun s => decide (s.index = j)) = false := by
        rw [List.any_eq_false]
        intro σ hσ heq
        exact hsaved (List.mem_map.2 ⟨σ, hσ, of_decide_eq_true heq⟩)
      simp [h.live, hnone, hscavenging]
  rw [placementOrder]
  split
  · exact List.mem_cons_of_mem _ hlocal
  · exact List.mem_append_left _ hlocal

/-! ## A whole placement -/

/-- Bytes taken by objects and outgoing arguments. -/
def argumentDepth (t : Target) (p : Procedure) : Int64 :=
  if t.reservesCallFrame p then (t.placeObjects p).depth + p.frame.maxCallFrameSize
  else (t.placeObjects p).depth

/-- No sum that is formed when objects are placed leaves the range of offsets. -/
@[mk_iff]
structure SumsInRange (t : Target) (p : Procedure) : Prop where
  count : p.frame.objects.length < 2 ^ 63
  fixed : ∀ o ∈ p.frame.fixed, -2 ^ 63 < o.offset.toInt
  start : p.fixedDepth.toInt + 4 ≤ 2 ^ 63
  packed : Placement.Along Placement.pack Placement.PackInRange (startPlacement p) p.frame.saved
  placed : Placement.Along Placement.place Placement.PlaceInRange (packedPlacement p)
    (t.placementOrder p)
  arguments : t.reservesCallFrame p →
    (t.placeObjects p).depth.toInt + p.frame.maxCallFrameSize.toInt < 2 ^ 63
  size : p.frame.hasCalls || p.frame.hasVarSized → (t.argumentDepth p).toInt +
    (max t.abi.stackAlignment (t.placeObjects p).maxAlign).toInt ≤ 2 ^ 63

instance (t : Target) : DecidablePred t.SumsInRange :=
  fun p => decidable_of_iff _ (t.sumsInRange_iff p).symm

/-- The depth of the fixed objects is not negative, and reaches down to each of them. -/
theorem le_fixedDepth (h : ∀ o ∈ p.frame.fixed, -2 ^ 63 < o.offset.toInt) :
    0 ≤ p.fixedDepth.toInt ∧ ∀ o ∈ p.frame.fixed, -o.offset.toInt ≤ p.fixedDepth.toInt := by
  have hfold (os : List FrameObject) (hos : ∀ o ∈ os, -2 ^ 63 < o.offset.toInt) (depth : Int64) :
      depth.toInt ≤ (os.foldl (fun depth o => if depth < -o.offset then -o.offset else depth)
        depth).toInt ∧
      ∀ o ∈ os, -o.offset.toInt ≤ (os.foldl
        (fun depth o => if depth < -o.offset then -o.offset else depth) depth).toInt := by
    induction os generalizing depth with
    | nil => exact ⟨Int.le_refl _, fun o ho => absurd ho List.not_mem_nil⟩
    | cons o os ih =>
      obtain ⟨ho, hos⟩ := List.forall_mem_cons.1 hos
      have hneg : (-o.offset).toInt = -o.offset.toInt := toInt_neg_of_range ho
      have hstep : depth.toInt ≤ (if depth < -o.offset then -o.offset else depth).toInt ∧
          -o.offset.toInt ≤ (if depth < -o.offset then -o.offset else depth).toInt := by
        simp only [Int64.lt_iff_toInt_lt]
        split <;> omega
      obtain ⟨hfirst, hrest⟩ := ih hos (if depth < -o.offset then -o.offset else depth)
      rw [List.foldl_cons]
      refine ⟨by omega, List.forall_mem_cons.2 ⟨by omega, hrest⟩⟩
  exact hfold p.frame.fixed h 0

/-- What the placement of a frame needs: shaped objects, and each index placed once. -/
structure IsPlaceable (t : Target) (p : Procedure) : Prop where
  shaped : ∀ j o, p.frame.object? j = some o → Frame.isShape o.size o.align
  words : ∀ o ∈ p.frame.fixed, o.align = 4
  arguments : 0 ≤ p.frame.maxCallFrameSize.toInt
  nodup : (p.frame.saved.map SavedSlot.index).Nodup
  order : (t.placementOrder p).Nodup
  apart : ∀ j ∈ t.placementOrder p, j ∉ p.frame.saved.map SavedSlot.index
  slots : ∀ σ ∈ p.frame.saved, 0 ≤ σ.index
  /-- An index below zero is placed only if there is no object with it. -/
  others : ∀ j ∈ t.placementOrder p, 0 ≤ j ∨ p.frame.fixed[Frame.position j]? = none

theorem IsPlaceable.shape (h : t.IsPlaceable p) {j : Int64} {o : FrameObject}
    (ho : p.frame.object? j = some o) : 0 ≤ o.size.toInt ∧ 0 < o.align.toInt :=
  positive_of_isShape (h.shaped j o ho)

/-- All indices that are placed, the last one first. -/
def placedIndices (t : Target) (p : Procedure) : List Int64 :=
  (t.placementOrder p).reverse ++ (p.frame.saved.map SavedSlot.index).reverse

theorem depth_startPlacement (hsums : t.SumsInRange p) :
    p.fixedDepth.toInt ≤ (startPlacement p).depth.toInt ∧
      0 ≤ (startPlacement p).depth.toInt := by
  obtain ⟨hnonneg, -⟩ := le_fixedDepth hsums.fixed
  obtain ⟨hge, -, -⟩ := toInt_alignTo (a := 4) hnonneg (by decide) hsums.start
  exact ⟨hge, by show 0 ≤ (alignTo p.fixedDepth 4).toInt; omega⟩

/-- The slots of saved registers are apart, below what the fixed objects take. -/
theorem isLaid_packedPlacement (h : t.IsPlaceable p) (hsums : t.SumsInRange p) :
    (packedPlacement p).IsLaid (startPlacement p).depth.toInt
      (p.frame.saved.map SavedSlot.index).reverse := by
  obtain ⟨-, htop⟩ := depth_startPlacement hsums
  have hstart : (startPlacement p).IsLaid (startPlacement p).depth.toInt [] :=
    ⟨Int.le_refl _, fun j o ho => h.shape ho, fun j hj => absurd hj List.not_mem_nil,
      fun i hi => absurd hi List.not_mem_nil⟩
  have hpacked := Placement.foldl_along SavedSlot.index
    (fun s placed σ hs hσ hok => hs.pack htop hσ hok) hstart hsums.packed h.nodup
    fun σ _ => List.not_mem_nil
  rwa [List.append_nil] at hpacked

/-- The objects are apart, below what the fixed objects take. -/
theorem isLaid_placeObjects (h : t.IsPlaceable p) (hsums : t.SumsInRange p) :
    (t.placeObjects p).IsLaid (startPlacement p).depth.toInt (t.placedIndices p) := by
  obtain ⟨-, htop⟩ := depth_startPlacement hsums
  have hplaced := Placement.foldl_along id
    (fun s placed j hs hj hok => hs.place htop hj hok) (isLaid_packedPlacement h hsums) hsums.placed
    (by rw [List.map_id]; exact h.order)
    fun j hj hmem => h.apart j hj (List.mem_reverse.1 hmem)
  rwa [List.map_id] at hplaced

/-- Objects other than the slots of saved registers are at multiples of their alignments. -/
theorem isSeated_placeObjects (h : t.IsPlaceable p) (hsums : t.SumsInRange p) :
    (t.placeObjects p).IsSeated (t.placementOrder p).reverse := by
  have hpower (j : Int64) (o : FrameObject) (ho : p.frame.object? j = some o) : IsPower o.align :=
    isPower_of_isShape (h.shaped j o ho)
  have hstart : (startPlacement p).AllAlign IsPower := ⟨⟨0, rfl⟩, hpower⟩
  have hpacked : (packedPlacement p).IsSeated [] :=
    ⟨List.foldlRecOn _ _ hstart fun s hs σ _ => hs.pack σ, fun j hj => absurd hj List.not_mem_nil⟩
  have hplaced := Placement.foldl_along id
    (fun s placed j hs hj _ => hs.place hj) hpacked hsums.placed
    (by rw [List.map_id]; exact h.order) fun j _ => List.not_mem_nil
  rwa [List.map_id, List.append_nil] at hplaced

/-- Fixed objects stay where they are. -/
theorem fixed_placeObjects (h : t.IsPlaceable p) :
    (t.placeObjects p).frame.fixed = p.frame.fixed := by
  have hmodify (f : Frame) (j : Int64) (hj : 0 ≤ j) (g : FrameObject → FrameObject) :
      (f.modify j g).fixed = f.fixed := by
    rw [Frame.modify, if_pos hj]
  have hpacked : (packedPlacement p).frame.fixed = p.frame.fixed := by
    refine List.foldlRecOn (motive := fun (s : Placement) => s.frame.fixed = p.frame.fixed) _ _ rfl ?_
    intro s hs σ hσ
    rw [Placement.pack]
    split
    · exact hs
    · exact (hmodify _ _ (h.slots σ hσ) _).trans hs
  refine List.foldlRecOn (motive := fun (s : Placement) => s.frame.fixed = p.frame.fixed) _ _ hpacked ?_
  intro s hs j hj
  rw [Placement.place]
  split
  · exact hs
  next o ho =>
  -- the object is not a fixed one, as an index below zero has none
  have hnonneg : 0 ≤ j := by
    by_contra hneg
    have hnone := (h.others j hj).resolve_left hneg
    rw [Frame.object?, if_neg hneg, hs, hnone] at ho
    cases ho
  exact (hmodify _ _ hnonneg _).trans hs

/-- The frame reaches down to the lowest object, and further by the outgoing arguments if these
are allocated with it. -/
theorem le_stackSize_of_depth (harguments : 0 ≤ p.frame.maxCallFrameSize.toInt)
    (halign : IsPower (t.placeObjects p).maxAlign) (hdepth : 0 ≤ (t.placeObjects p).depth.toInt)
    (hsums : t.SumsInRange p) :
    (t.placeObjects p).depth.toInt ≤ (t.placeFrame p).frame.stackSize.toInt ∧
      (t.reservesCallFrame p → (t.placeObjects p).depth.toInt + p.frame.maxCallFrameSize.toInt ≤
        (t.placeFrame p).frame.stackSize.toInt) := by
  have hsum : (t.placeObjects p).depth.toInt ≤ (t.argumentDepth p).toInt ∧
      (t.reservesCallFrame p → (t.placeObjects p).depth.toInt + p.frame.maxCallFrameSize.toInt ≤
        (t.argumentDepth p).toInt) := by
    rw [argumentDepth]
    split
    · next hreserved =>
      have := hsums.arguments hreserved
      rw [toInt_add_of_range (by omega) (by omega)]
      exact ⟨by omega, fun _ => Int.le_refl _⟩
    · next hreserved => exact ⟨Int.le_refl _, fun h => absurd h hreserved⟩
  have hround : (t.argumentDepth p).toInt ≤ (t.placeFrame p).frame.stackSize.toInt := by
    show _ ≤ (if p.frame.hasCalls || p.frame.hasVarSized then
      alignTo (t.argumentDepth p) (max t.abi.stackAlignment (t.placeObjects p).maxAlign)
      else t.argumentDepth p).toInt
    split
    · next hcalls =>
      exact (toInt_alignTo (by omega) (t.isPower_stackAlignment.max halign).pos
        (hsums.size hcalls)).1
    · exact Int.le_refl _
  exact ⟨by omega, fun hreserved => (hsum.2 hreserved).trans hround⟩

theorem le_stackSize (h : t.IsPlaceable p) (hsums : t.SumsInRange p) :
    (t.placeObjects p).depth.toInt ≤ (t.placeFrame p).frame.stackSize.toInt ∧
      (t.reservesCallFrame p → (t.placeObjects p).depth.toInt + p.frame.maxCallFrameSize.toInt ≤
        (t.placeFrame p).frame.stackSize.toInt) := by
  obtain ⟨-, htop⟩ := depth_startPlacement hsums
  have hdepth := (isLaid_placeObjects h hsums).depth
  exact le_stackSize_of_depth h.arguments (isSeated_placeObjects h hsums).aligned.align
    (htop.trans hdepth) hsums

/-- Where there can be calls, the frame's size is a multiple of the stack's alignment and of that
of every object that was aligned. -/
theorem dvd_stackSize (h : t.IsPlaceable p) (hsums : t.SumsInRange p)
    (hcalls : p.frame.hasCalls || p.frame.hasVarSized) :
    t.abi.stackAlignment.toInt ∣ (t.placeFrame p).frame.stackSize.toInt ∧
      (t.placeObjects p).maxAlign.toInt ∣ (t.placeFrame p).frame.stackSize.toInt := by
  have halign := (isSeated_placeObjects h hsums).aligned.align
  have hsize : (t.placeFrame p).frame.stackSize = alignTo (t.argumentDepth p)
      (max t.abi.stackAlignment (t.placeObjects p).maxAlign) := if_pos hcalls
  have hmultiple := (t.isPower_stackAlignment.max halign).dvd_alignTo (t.argumentDepth p)
  rw [hsize]
  exact ⟨(t.isPower_stackAlignment.dvd_max halign).trans hmultiple,
    (t.isPower_stackAlignment.dvd_max_right halign).trans hmultiple⟩

/-! ## Frames as they are laid out -/

/-- The layout of a frame's objects. Fixed objects are where the callers put them, all the others
are those that `Frame.Holds` speaks of. -/
structure LaysOut (t : Target) (q : Procedure) : Prop where
  apart : ∀ i j o r, i ≠ j → q.frame.Holds i o → q.frame.Holds j r → o.Apart r
  within : ∀ j o, q.frame.Holds j o → -q.frame.stackSize.toInt ≤ o.offset.toInt ∧
    o.offset.toInt + o.size.toInt ≤ 0
  belowFixed : ∀ j o, q.frame.Holds j o → ∀ r ∈ q.frame.fixed, r.offset.toInt < 0 →
    o.offset.toInt + o.size.toInt ≤ r.offset.toInt
  aligned : ∀ j o, q.frame.Holds j o → j ∉ q.frame.saved.map SavedSlot.index →
    o.align.toInt ∣ o.offset.toInt
  /-- The lowest bytes are free for outgoing arguments, if these are allocated with the frame. -/
  arguments : t.reservesCallFrame q → ∀ o, (∃ j, q.frame.Holds j o) ∨ o ∈ q.frame.fixed →
    -q.frame.stackSize.toInt + q.frame.maxCallFrameSize.toInt ≤ o.offset.toInt
  rounded : q.frame.hasCalls || q.frame.hasVarSized →
    t.abi.stackAlignment.toInt ∣ q.frame.stackSize.toInt ∧
      ∀ o, (∃ j, q.frame.Holds j o ∧ j ∉ q.frame.saved.map SavedSlot.index) ∨ o ∈ q.frame.fixed →
        o.align.toInt ∣ q.frame.stackSize.toInt

theorem four_dvd_stackAlignment (t : Target) : 4 ∣ t.abi.stackAlignment.toInt :=
  IsPower.dvd_of_le (a := 4) ⟨2, rfl⟩ t.isPower_stackAlignment (Abi.validate_facts t.valid).1

/-- A live object of the laid out frame is one of those that were placed. -/
theorem mem_placedIndices_of_holds (hsums : t.SumsInRange p)
    (ho : (t.placeFrame p).frame.Holds j o) : j ∈ t.placedIndices p ∧
      (j ∉ p.frame.saved.map SavedSlot.index → j ∈ (t.placementOrder p).reverse) := by
  have hmoved : (t.placeObjects p).frame.Holds j o := ⟨ho.index, ho.object, ho.live⟩
  obtain ⟨r, hr, -⟩ := (t.moves_placeObjects p).holds hmoved
  have hmem := mem_placementOrder_of_holds (t := t) hsums.count hr
  simp only [placedIndices, List.mem_append, List.mem_reverse]
  exact ⟨hmem.symm, fun hn => hmem.resolve_left hn⟩

/-- The bytes of a live object lie in the frame, below what is fixed. -/
theorem bounds_placeFrame (h : t.IsPlaceable p) (hsums : t.SumsInRange p)
    (ho : (t.placeFrame p).frame.Holds j o) :
    -(t.placeObjects p).depth.toInt ≤ o.offset.toInt ∧ o.offset.toInt + o.size.toInt ≤ 0 ∧
      ∀ r ∈ p.frame.fixed, r.offset.toInt < 0 →
        o.offset.toInt + o.size.toInt ≤ r.offset.toInt := by
  have hbounds := (isLaid_placeObjects h hsums).bounds j (mem_placedIndices_of_holds hsums ho).1 o
    ho.object
  obtain ⟨htop, hnonneg⟩ := depth_startPlacement hsums
  obtain ⟨-, hreach⟩ := le_fixedDepth hsums.fixed
  refine ⟨hbounds.1, by omega, ?_⟩
  intro r hr _
  have := hreach r hr
  omega

theorem laysOut_placeFrame (h : t.IsPlaceable p) (hsums : t.SumsInRange p) :
    t.LaysOut (t.placeFrame p) := by
  have hlaid := isLaid_placeObjects h hsums
  have hseated := isSeated_placeObjects h hsums
  have hfixed : (t.placeFrame p).frame.fixed = p.frame.fixed := fixed_placeObjects h
  obtain ⟨hsize, hcall⟩ := le_stackSize h hsums
  -- laying out moves the objects and sets the size, and leaves the rest of the frame
  obtain ⟨objects, fixed, stackSize, hsame⟩ := t.placeFrame_frame p
  have hsaved : (t.placeFrame p).frame.saved = p.frame.saved := by rw [hsame]
  have harguments : (t.placeFrame p).frame.maxCallFrameSize = p.frame.maxCallFrameSize := by
    rw [hsame]
  have hreserved : t.reservesCallFrame (t.placeFrame p) = t.reservesCallFrame p := by
    rw [reservesCallFrame, reservesCallFrame, hsame]
  have hcalls : ((t.placeFrame p).frame.hasCalls || (t.placeFrame p).frame.hasVarSized) =
      (p.frame.hasCalls || p.frame.hasVarSized) := by
    rw [hsame]
  exact {
    apart := by
      intro i j o r hne ho hr
      exact hlaid.apart i (mem_placedIndices_of_holds hsums ho).1 j
        (mem_placedIndices_of_holds hsums hr).1 hne o r ho.object hr.object
    within := by
      intro j o ho
      obtain ⟨hlow, hhigh, -⟩ := bounds_placeFrame h hsums ho
      exact ⟨by omega, hhigh⟩
    belowFixed := by
      intro j o ho r hr
      rw [hfixed] at hr
      exact (bounds_placeFrame h hsums ho).2.2 r hr
    aligned := by
      intro j o ho hj
      rw [hsaved] at hj
      exact (hseated.seats j ((mem_placedIndices_of_holds hsums ho).2 hj) o ho.object).1
    arguments := by
      intro hres o ho
      rw [hreserved] at hres
      have hlowest := hcall hres
      rw [harguments]
      rcases ho with ⟨j, ho⟩ | ho
      · have hlow := (bounds_placeFrame h hsums ho).1
        omega
      · -- the lowest fixed object is above all that is placed
        rw [hfixed] at ho
        have hreach := (le_fixedDepth hsums.fixed).2 o ho
        have htop := (depth_startPlacement hsums).1
        have hdepth := hlaid.depth
        omega
    rounded := by
      intro hmay
      rw [hcalls] at hmay
      obtain ⟨hstack, hmax⟩ := dvd_stackSize h hsums hmay
      refine ⟨hstack, ?_⟩
      rintro o (⟨j, ho, hj⟩ | ho)
      · rw [hsaved] at hj
        have hmem := (mem_placedIndices_of_holds hsums ho).2 hj
        have hpower := hseated.aligned.objects j o ho.object
        exact (hpower.dvd_of_le hseated.aligned.align
          (hseated.seats j hmem o ho.object).2).trans hmax
      · rw [hfixed] at ho
        rw [h.words o ho]
        exact t.four_dvd_stackAlignment.trans hstack }

end Target

/-- A frame before anything is decided about it. -/
structure Frame.IsBare (f : Frame) : Prop where
  shaped : f.IsShaped
  words : ∀ o ∈ f.fixed, o.align = 4
  arguments : 0 ≤ f.maxCallFrameSize.toInt
  unscavenged : f.scavengingIndex = noIndex
  /-- The index that stands for no object is not the index of one. -/
  free : f.object? noIndex = none

namespace Target

section
variable {t : Target} {p : Procedure} {scavenger : Bool}

/-- The scavenging slot is a new object, if there is one. -/
theorem scavengingIndex_cases (h : p.frame.IsBare)
    (hlen : (t.finalizeSpillSet scavenger p).frame.objects.length < 2 ^ 63) :
    (t.finalizeSpillSet scavenger p).frame.scavengingIndex = noIndex ∨
      0 ≤ (t.finalizeSpillSet scavenger p).frame.scavengingIndex ∧
        ∃ o, (t.finalizeSpillSet scavenger p).frame.object?
          (t.finalizeSpillSet scavenger p).frame.scavengingIndex = some o := by
  obtain ⟨regs, layout, frame, hchosen, hframe⟩ := t.finalizeSpillSet_shape scavenger p
  rw [hchosen] at hlen ⊢
  rcases hframe with rfl | rfl
  · exact .inl h.unscavenged
  · have hlt : p.frame.objects.length < 2 ^ 63 := by
      simp only [withScavenging, List.length_append] at hlen
      omega
    refine .inr ⟨(Frame.position_ofNat hlt).1, scavengingSlot, ?_⟩
    show (withScavenging p.frame).object? (Int64.ofNat p.frame.objects.length) = _
    rw [Frame.object?_ofNat _ hlt]
    simp [withScavenging]

theorem isShape_slotFor (t : Target) (cs : CalleeSaved) :
    Frame.isShape (t.slotFor cs).size (t.slotFor cs).align := by
  show Frame.isShape (t.savedClass cs.reg).size (t.savedClass cs.reg).size
  cases t.savedClass cs.reg
  all_goals decide

theorem fixed_finalizeSpillSet (t : Target) (scavenger : Bool) (p : Procedure) :
    (t.assignSlots (t.finalizeSpillSet scavenger p)).frame.fixed = p.frame.fixed ∧
      (t.finalizeSpillSet scavenger p).frame.maxCallFrameSize = p.frame.maxCallFrameSize := by
  obtain ⟨objects, scavengingIndex, hframe⟩ := t.frame_finalizeSpillSet scavenger p
  rw [assignSlots_frame, hframe]
  exact ⟨rfl, rfl⟩

theorem isPlaceable_assignSlots (h : p.frame.IsBare)
    (hlen : (t.assignSlots (t.finalizeSpillSet scavenger p)).frame.objects.length < 2 ^ 63) :
    t.IsPlaceable (t.assignSlots (t.finalizeSpillSet scavenger p)) := by
  obtain ⟨hfixed, harguments⟩ := t.fixed_finalizeSpillSet scavenger p
  have hfewer : (t.finalizeSpillSet scavenger p).frame.objects.length < 2 ^ 63 := by
    rw [length_assignSlots] at hlen
    omega
  have hscavenging := scavengingIndex_cases h hfewer
  have hout : (t.finalizeSpillSet scavenger p).frame.scavengingIndex ∉
      (t.savedSlots (t.finalizeSpillSet scavenger p)).map SavedSlot.index := by
    apply notMem_index_of_length hlen
    rcases hscavenging with hnone | ⟨-, hslot⟩
    · rw [hnone]
      exact .inl (by decide)
    · exact .inr hslot
  exact {
    shaped := by
      intro j o ho
      exact forall_object_finalizeSpillSet (P := fun o => Frame.isShape o.size o.align)
        h.shaped.objects h.shaped.fixed (by decide) t.isShape_slotFor ho
    words := by
      rw [hfixed]
      exact h.words
    arguments := by
      show 0 ≤ (t.finalizeSpillSet scavenger p).frame.maxCallFrameSize.toInt
      rw [harguments]
      exact h.arguments
    nodup := nodup_index_of_length hlen
    order := nodup_placementOrder hlen
    apart := by
      intro j hj hmem
      obtain ⟨σ, hσ, rfl⟩ := List.mem_map.1 hmem
      exact notMem_placementOrder hσ hout hj
    slots := by
      intro σ hσ
      obtain ⟨n, hn, -, hlt⟩ := index_savedSlots hlen hσ
      rw [hn]
      exact (Frame.position_ofNat hlt).1
    others := by
      intro j hj
      have hcases : j = (t.finalizeSpillSet scavenger p).frame.scavengingIndex ∨
          j ∈ localIndices (t.assignSlots (t.finalizeSpillSet scavenger p)).frame := by
        rw [placementOrder] at hj
        split at hj
        · exact List.mem_cons.1 hj
        · exact (List.mem_append.1 hj).symm.imp_left List.mem_singleton.1
      rcases hcases with rfl | hlocal
      · -- without a scavenging slot its index stands for no object
        rcases hscavenging with hnone | ⟨hnonneg, -⟩
        · right
          have hfree := h.free
          rw [Frame.object?, if_neg (by decide)] at hfree
          rw [hnone, hfixed, hfree]
        · exact .inl hnonneg
      · left
        obtain ⟨⟨i, o⟩, hmem, rfl⟩ := List.mem_map.1 hlocal
        exact ((Frame.mem_indexed hlen).1 (List.mem_filter.1 hmem).1).1 }

end

/-- Once the spill set is chosen, slots are made for it and all objects are placed, the live objects
other than the fixed ones are apart from each other, inside the frame and below the fixed ones,
aligned if they are not slots of saved registers, and clear of the outgoing arguments. -/
theorem laysOut_of_isBare (t : Target) (scavenger : Bool) {p : Procedure} (h : p.frame.IsBare)
    (hsums : t.SumsInRange (t.assignSlots (t.finalizeSpillSet scavenger p))) :
    t.LaysOut (t.placeFrame (t.assignSlots (t.finalizeSpillSet scavenger p))) ∧
      (t.placeFrame (t.assignSlots (t.finalizeSpillSet scavenger p))).frame.fixed =
        p.frame.fixed := by
  have hplaceable := isPlaceable_assignSlots h hsums.count
  exact ⟨laysOut_placeFrame hplaceable hsums,
    (fixed_placeObjects hplaceable).trans (t.fixed_finalizeSpillSet scavenger p).1⟩

end Target

namespace FunctionDesc

/-- The frame of a description's function is bare, unless it has a fixed object for every index
below zero down to the one that stands for none. -/
theorem isBare_of_build {d : FunctionDesc} {u : Described} (h : d.build = .ok u)
    (hfew : u.proc.frame.fixed.length < 2 ^ 31) : u.proc.frame.IsBare := by
  obtain ⟨hshaped, -⟩ := facts_of_build h
  have hfree := Frame.object?_noIndex hfew
  obtain ⟨hsizes, abi, regs, frame, blocks, fresh, hframe, -, rfl⟩ := build_cases h
  -- fixed objects are aligned to words
  obtain ⟨-, hwords, objects, fixed, rfl⟩ := forall_of_buildObjects (P := fun _ => True)
    (Q := fun o => o.align = 4) (fun _ _ _ => trivial) (fun _ _ _ => rfl) hframe
    (fun _ _ => trivial) fun o ho => absurd ho List.not_mem_nil
  simp only [hasFrameSizes, Bool.and_eq_true, decide_eq_true_eq] at hsizes
  exact ⟨hshaped, hwords, Int64.le_iff_toInt_le.1 hsizes.1.1, rfl, hfree⟩

end FunctionDesc

/-- A function with a call, a fixed object that is not at a multiple of a word, and objects of odd
sizes. -/
def mixedObjects : FunctionDesc where
  name := "f"
  maxCallFrameSize := 12
  hasCalls := true
  used := ["r4"]
  objects := [{ size := 5, align := 16 }, { size := 3, fixed := true, offset := -6 },
    { size := 0, align := 2 }, { size := 7, align := 1 }]
  blocks := [{ insts := ["BX_RET cc:al, noreg"] }]

/-- What becomes of it. -/
def mixedFunction : Described where
  abi := none
  proc := {
    name := "f"
    blocks := [{ lines := Line.number 0 [.make .bxRet [.cond .al, .use .noreg]] }]
    frame := {
      objects := [{ size := 5, align := 16 }, { size := 0, align := 2 }, { size := 7, align := 1 }]
      fixed := [{ size := 3, align := 4, fixed := true, offset := -6 }]
      maxCallFrameSize := 12
      hasCalls := true }
    regs := ({} : RegTable).use (.core 4)
    fresh := 1 }

namespace Target

theorem sumsInRange_mixedFunction : plainDefault.SumsInRange
    (plainDefault.assignSlots (plainDefault.finalizeSpillSet true mixedFunction.proc)) := by
  decide +kernel

/-- Its objects are laid out below the fixed one, among them two slots of saved registers. -/
theorem laysOut_of_isBare_mixedObjects :
    mixedObjects.build = .ok mixedFunction ∧ mixedFunction.proc.frame.IsBare ∧
      plainDefault.LaysOut (plainDefault.placeFrame
        (plainDefault.assignSlots (plainDefault.finalizeSpillSet true mixedFunction.proc))) := by
  have hbuild : mixedObjects.build = .ok mixedFunction := by decide +kernel
  have hbare := FunctionDesc.isBare_of_build hbuild (by decide)
  exact ⟨hbuild, hbare, (laysOut_of_isBare plainDefault true hbare sumsInRange_mixedFunction).1⟩

/-- The fixed object is live and no slot of a saved register, and stays off its alignment. -/
theorem misaligned_fixed : ∃ p j o, p.frame.IsBare ∧
    plainDefault.SumsInRange (plainDefault.assignSlots (plainDefault.finalizeSpillSet true p)) ∧
    (plainDefault.placeFrame (plainDefault.assignSlots
      (plainDefault.finalizeSpillSet true p))).frame.object? j = some o ∧ o.dead = false ∧
    j ∉ (plainDefault.placeFrame (plainDefault.assignSlots
      (plainDefault.finalizeSpillSet true p))).frame.saved.map SavedSlot.index ∧
    ¬ o.align.toInt ∣ o.offset.toInt := by
  have hbuild : mixedObjects.build = .ok mixedFunction := by decide +kernel
  refine ⟨mixedFunction.proc, -1, { size := 3, align := 4, fixed := true, offset := -6 },
    FunctionDesc.isBare_of_build hbuild (by decide), sumsInRange_mixedFunction, ?_, rfl, ?_, ?_⟩
  · decide +kernel
  · decide +kernel
  · decide

end Target

end FrameLowering
