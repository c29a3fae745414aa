import FrameLowering.Proofs.ObjectLayout
import FrameLowering.Proofs.StackDistance
import FrameLowering.Report.FrameMap

/-!
# The map of a lowered frame

A map goes down the frame from its upper end. It visits the objects by offset, those at one offset
from the highest index to the lowest, and puts padding between the end of an object and what was
reached before it. Each object is apart from all others, and yet an object can end above what was
reached: an empty object at the same offset with a higher index comes first, and everything from
there up is taken for padding. The rows are a tiling of the frame exactly if this does not happen
(`Target.tile_frameMap_iff`). It does happen to an empty object that was placed after another one
without any alignment in between (`Target.overlap_emptyBelow`). All this is about frames whose sums
stay in range; others can end up with a negative size (`Target.outside_hugeObjects`).
-/

namespace FrameLowering

/-! ## Rows -/

namespace MapRow

/-- Rows about what is in the frame itself. Fixed objects were there before. -/
def isOwn (r : MapRow) : Bool :=
  match r.what with
  | .object _ o => !o.fixed
  | .padding | .callFrame => true

/-- The addresses of a row, counted from the stack pointer. -/
def Covers (r : MapRow) (a : Int) : Prop :=
  r.offset.toInt ≤ a ∧ a < r.offset.toInt + r.size.toInt

/-- Two rows have no address in common. -/
def Apart (r s : MapRow) : Prop :=
  ∀ a, r.Covers a → ¬ s.Covers a

/-- Rows that have no address in common and cover exactly what is below `top`. -/
structure Tile (rows : List MapRow) (top : Int) : Prop where
  apart : rows.Pairwise Apart
  covers : ∀ a, (∃ r ∈ rows, r.Covers a) ↔ 0 ≤ a ∧ a < top

theorem tile_nil : Tile [] 0 := by
  refine ⟨.nil, ?_⟩
  intro a
  constructor
  · rintro ⟨r, hr, -⟩
    exact absurd hr List.not_mem_nil
  · intro h
    omega

/-- A row that ends at the top can be taken off. -/
theorem tile_cons_iff {r : MapRow} {rows : List MapRow} {top : Int} (hlow : 0 ≤ r.offset.toInt)
    (hsize : 0 ≤ r.size.toInt) (htop : r.offset.toInt + r.size.toInt = top) :
    Tile (r :: rows) top ↔ Tile rows r.offset.toInt := by
  constructor
  · intro h
    obtain ⟨hfirst, hrest⟩ := List.pairwise_cons.1 h.apart
    refine ⟨hrest, fun a => ⟨?_, ?_⟩⟩
    · rintro ⟨s, hs, ha⟩
      have hin := (h.covers a).1 ⟨s, List.mem_cons_of_mem _ hs, ha⟩
      have hout : ¬ r.Covers a := fun hr => hfirst s hs a hr ha
      rw [Covers] at hout
      omega
    · rintro ⟨hnonneg, hlt⟩
      obtain ⟨s, hs, ha⟩ := (h.covers a).2 ⟨hnonneg, by omega⟩
      rcases List.mem_cons.1 hs with rfl | hs
      · have := ha.1
        omega
      · exact ⟨s, hs, ha⟩
  · intro h
    refine ⟨List.pairwise_cons.2 ⟨?_, h.apart⟩, fun a => ⟨?_, ?_⟩⟩
    · intro s hs a hr ha
      have := (h.covers a).1 ⟨s, hs, ha⟩
      have := hr.1
      omega
    · rintro ⟨s, hs, ha⟩
      rcases List.mem_cons.1 hs with rfl | hs
      · rw [Covers] at ha
        omega
      · have := (h.covers a).1 ⟨s, hs, ha⟩
        omega
    · rintro ⟨hnonneg, hlt⟩
      by_cases hr : r.offset.toInt ≤ a
      · exact ⟨r, List.mem_cons_self, hr, by omega⟩
      · obtain ⟨s, hs, ha⟩ := (h.covers a).2 ⟨hnonneg, by omega⟩
        exact ⟨s, List.mem_cons_of_mem _ hs, ha⟩

end MapRow

/-! ## The way down -/

/-- An object that is inside a frame of some size. -/
structure FrameObject.Within (o : FrameObject) (stackSize : Int64) : Prop where
  low : -stackSize.toInt ≤ o.offset.toInt
  high : o.offset.toInt + o.size.toInt ≤ 0
  size : 0 ≤ o.size.toInt

/-- Where it starts and ends, from the stack pointer on. -/
theorem FrameObject.Within.address {o : FrameObject} {stackSize : Int64} (h : o.Within stackSize) :
    (o.offset + stackSize).toInt = o.offset.toInt + stackSize.toInt ∧
      (o.offset + stackSize + o.size).toInt =
        o.offset.toInt + stackSize.toInt + o.size.toInt := by
  obtain ⟨hlow, hhigh, hsize⟩ := h
  have hlt := stackSize.toInt_lt
  have hstart : (o.offset + stackSize).toInt = o.offset.toInt + stackSize.toInt :=
    toInt_add_of_range (by omega) (by omega)
  refine ⟨hstart, ?_⟩
  rw [toInt_add_of_range, hstart]
  all_goals omega

namespace Procedure

section
variable {stackSize top : Int64} {index : Int64} {o : FrameObject}
  {es : List (Int64 × FrameObject)}

/-- Fixed objects have rows of their own and change none of the others. -/
theorem filter_mapRows : (mapRows stackSize top es).filter MapRow.isOwn =
    mapRows stackSize top (es.filter fun e => !e.2.fixed) := by
  induction es generalizing top with
  | nil =>
    rw [List.filter_nil, mapRows]
    split
    · rfl
    · rfl
  | cons e es ih =>
    obtain ⟨index, o⟩ := e
    have hown : MapRow.isOwn ⟨o.offset + stackSize, o.size, .object index o⟩ = !o.fixed := rfl
    rw [mapRows]
    by_cases hfixed : o.fixed
    · rw [if_pos hfixed, List.filter_cons_of_neg (by simp [hown, hfixed]), ih,
        List.filter_cons_of_neg (by simp [hfixed])]
    · rw [if_neg hfixed, List.filter_cons_of_pos (by simp [hfixed]), mapRows, if_neg hfixed]
      split
      · rw [List.filter_cons_of_pos rfl, List.filter_cons_of_pos (by simp [hown, hfixed]), ih]
      · rw [List.filter_cons_of_pos (by simp [hown, hfixed]), ih]

/-- One step down: the object has to end at or below what was reached. -/
theorem tile_mapRows_cons_iff (htop : 0 ≤ top.toInt) (hfixed : o.fixed = false)
    (hwithin : o.Within stackSize) (hreach : o.offset.toInt + stackSize.toInt ≤ top.toInt) :
    MapRow.Tile (mapRows stackSize top ((index, o) :: es)) top.toInt ↔
      o.offset.toInt + o.size.toInt + stackSize.toInt ≤ top.toInt ∧
        MapRow.Tile (mapRows stackSize (o.offset + stackSize) es)
          (o.offset + stackSize).toInt := by
  obtain ⟨hstart, hend⟩ := hwithin.address
  obtain ⟨hlow, hhigh, hsize⟩ := hwithin
  have hgap : (top - (o.offset + stackSize + o.size)).toInt =
      top.toInt - (o.offset.toInt + stackSize.toInt + o.size.toInt) := by
    have := top.toInt_lt
    have := stackSize.toInt_lt
    rw [← hend]
    exact toInt_sub_of_range (by omega) (by omega)
  rw [mapRows, if_neg (by simp [hfixed])]
  simp only [Int64.lt_iff_toInt_lt, Int64.toInt_zero, hgap]
  split
  · -- padding from the end of the object up
    next hpos =>
    rw [MapRow.tile_cons_iff, MapRow.tile_cons_iff]
    · rw [iff_and_self]
      intro _
      omega
    all_goals simp only [hstart, hend, hgap]
    all_goals omega
  · next hpos =>
    by_cases hover : o.offset.toInt + o.size.toInt + stackSize.toInt ≤ top.toInt
    · rw [MapRow.tile_cons_iff, and_iff_right hover]
      all_goals simp only [hstart]
      all_goals omega
    · -- the object covers the address that was reached, which is outside
      rw [iff_false_right fun h => hover h.1]
      intro h
      have hcovers := (h.covers top.toInt).1 ⟨_, List.mem_cons_self, by
        simp only [MapRow.Covers, hstart]
        omega⟩
      omega

/-- The whole way down: each object has to end at or below the start of every one before it. -/
theorem tile_mapRows_iff (htop : 0 ≤ top.toInt)
    (hwithin : ∀ e ∈ es, e.2.fixed = false ∧ e.2.Within stackSize)
    (hreach : ∀ e ∈ es, e.2.offset.toInt + stackSize.toInt ≤ top.toInt)
    (hdown : es.Pairwise fun a b => b.2.offset.toInt ≤ a.2.offset.toInt) :
    MapRow.Tile (mapRows stackSize top es) top.toInt ↔
      (∀ e ∈ es, e.2.offset.toInt + e.2.size.toInt + stackSize.toInt ≤ top.toInt) ∧
        es.Pairwise fun a b => b.2.offset.toInt + b.2.size.toInt ≤ a.2.offset.toInt := by
  induction es generalizing top with
  | nil =>
    refine iff_of_true ?_ ⟨fun e he => absurd he List.not_mem_nil, .nil⟩
    rw [mapRows]
    split
    · -- what is left below the objects
      apply (MapRow.tile_cons_iff (r := ⟨0, top, .callFrame⟩) (Int.le_refl 0) htop
        (Int.zero_add _)).2
      exact MapRow.tile_nil
    · next hpos =>
      rw [Int64.lt_iff_toInt_lt, Int64.toInt_zero] at hpos
      rw [show top.toInt = 0 by omega]
      exact MapRow.tile_nil
  | cons e es ih =>
    obtain ⟨⟨hfixed, hfirst⟩, hwithin⟩ := List.forall_mem_cons.1 hwithin
    obtain ⟨hnext, hdown⟩ := List.pairwise_cons.1 hdown
    obtain ⟨hstart, -⟩ := hfirst.address
    have hlow := hfirst.low
    have hsize := hfirst.size
    rw [tile_mapRows_cons_iff htop hfixed hfirst (hreach e List.mem_cons_self),
      ih (by rw [hstart]; omega) hwithin (fun r hr => by have := hnext r hr; omega) hdown,
      List.forall_mem_cons, List.pairwise_cons, hstart]
    -- an object below the next one is below all the others, as they come from the top
    constructor
    · rintro ⟨hend, hall, hpairs⟩
      refine ⟨⟨hend, ?_⟩, ?_, hpairs⟩
      · intro r hr
        have := hall r hr
        omega
      · intro r hr
        have := hall r hr
        omega
    · rintro ⟨⟨hend, -⟩, hall, hpairs⟩
      refine ⟨hend, ?_, hpairs⟩
      intro r hr
      have := hall r hr
      omega

end

end Procedure

/-! ## Objects by offset -/

namespace Frame

theorem before_iff {a b : Int64 × FrameObject} : before a b = true ↔
    a.2.offset.toInt < b.2.offset.toInt ∨
      a.2.offset.toInt = b.2.offset.toInt ∧ a.1.toInt ≤ b.1.toInt := by
  simp only [before, Bool.or_eq_true, Bool.and_eq_true, decide_eq_true_eq, Int64.lt_iff_toInt_lt,
    Int64.le_iff_toInt_le, ← Int64.toInt_inj]

/-- The objects that lowering placed, as a map visits them. -/
def descending (f : Frame) : List (Int64 × FrameObject) :=
  f.byOffset.reverse.filter fun e => !e.2.fixed

variable {f : Frame}

theorem pairwise_descending : f.descending.Pairwise fun a b => before b a := by
  apply List.Pairwise.filter
  apply List.pairwise_reverse.2
  apply List.pairwise_mergeSort
  · intro a b c hab hbc
    rw [before_iff] at *
    omega
  · intro a b
    rw [Bool.or_eq_true, before_iff, before_iff]
    omega

/-- The two tables of objects are told apart by a mark on each object. -/
structure IsMarked (f : Frame) : Prop where
  objects : ∀ o ∈ f.objects, o.fixed = false
  fixed : ∀ o ∈ f.fixed, o.fixed = true

theorem mem_descending (hlen : f.objects.length < 2 ^ 63) (hmarked : f.IsMarked)
    {e : Int64 × FrameObject} : e ∈ f.descending ↔ f.Holds e.1 e.2 := by
  obtain ⟨j, o⟩ := e
  simp only [descending, byOffset, List.mem_filter, List.mem_reverse, List.mem_mergeSort,
    List.mem_append, mem_indexed hlen, Bool.not_eq_true']
  constructor
  · rintro ⟨hfixed | ⟨⟨hj, ho⟩, hlive⟩, hown⟩
    · -- a fixed object is marked as one
      obtain ⟨⟨r, n⟩, hmem, heq⟩ := List.mem_map.1 hfixed
      obtain ⟨-, rfl⟩ := Prod.mk.inj heq
      have hr := hmarked.fixed r (List.fst_mem_of_mem_zipIdx hmem)
      rw [hown] at hr
      cases hr
    · exact ⟨hj, ho, hlive⟩
  · intro h
    refine ⟨.inr ⟨⟨h.index, h.object⟩, h.live⟩, ?_⟩
    have ho := h.object
    rw [object?, if_pos h.index] at ho
    exact hmarked.objects o (List.mem_of_getElem? ho)

theorem nodup_descending (hlen : f.objects.length < 2 ^ 63) (hmarked : f.IsMarked) :
    f.descending.Nodup := by
  have hperm := ((f.indexedFixed ++ f.indexed.filter fun e => !e.2.dead).mergeSort_perm before)
  have hnone : f.indexedFixed.filter (fun e => !e.2.fixed) = [] := by
    rw [List.filter_eq_nil_iff]
    intro e he
    obtain ⟨⟨r, n⟩, hmem, rfl⟩ := List.mem_map.1 he
    simp [hmarked.fixed r (List.fst_mem_of_mem_zipIdx hmem)]
  rw [descending, byOffset, (((List.reverse_perm _).trans hperm).filter _).nodup_iff,
    List.filter_append, hnone, List.nil_append]
  have hindexed := (Target.nodup_indexed hlen).of_map
  exact hindexed.sublist (List.filter_sublist.trans List.filter_sublist)

/-- An object that is not empty starts where one with a higher index does. -/
def Ties (a b : Int64 × FrameObject) : Prop :=
  a.1.toInt < b.1.toInt ∧ a.2.offset.toInt = b.2.offset.toInt ∧ a.2.size.toInt ≠ 0

instance decidableTies (a b : Int64 × FrameObject) : Decidable (Ties a b) :=
  inferInstanceAs (Decidable (_ ∧ _))

theorem not_ties_of_indexed (hlen : f.objects.length < 2 ^ 63)
    (h : ∀ a ∈ f.indexed, ∀ b ∈ f.indexed, ¬ Ties a b) (i j : Int64) (o r : FrameObject)
    (ho : f.Holds i o) (hr : f.Holds j r) : ¬ Ties (i, o) (j, r) :=
  h (i, o) ((mem_indexed hlen).2 ⟨ho.index, ho.object⟩) (j, r)
    ((mem_indexed hlen).2 ⟨hr.index, hr.object⟩)

/-- Objects that are apart lie one below the other on the way down, unless two of them tie. -/
theorem stacked_descending_iff (hlen : f.objects.length < 2 ^ 63) (hmarked : f.IsMarked)
    (hsize : ∀ j o, f.Holds j o → 0 ≤ o.size.toInt)
    (hapart : ∀ i j o r, i ≠ j → f.Holds i o → f.Holds j r → o.Apart r) :
    (f.descending.Pairwise fun a b => b.2.offset.toInt + b.2.size.toInt ≤ a.2.offset.toInt) ↔
      ∀ i j o r, f.Holds i o → f.Holds j r → ¬ Ties (i, o) (j, r) := by
  have hmem {j : Int64} {o : FrameObject} : (j, o) ∈ f.descending ↔ f.Holds j o :=
    mem_descending hlen hmarked
  constructor
  · intro hstacked i j o r ho hr hties
    have hne : (i, o) ≠ (j, r) := by
      intro heq
      obtain ⟨rfl, -⟩ := Prod.mk.inj heq
      exact absurd hties.1 (Int.lt_irrefl _)
    have hnone : f.descending.Pairwise fun a b => ¬ Ties a b ∧ ¬ Ties b a := by
      refine (hstacked.and f.pairwise_descending).imp_of_mem ?_
      rintro ⟨j, r⟩ ⟨i, o⟩ - ho ⟨hbelow, hbefore⟩
      have := hsize i o (hmem.1 ho)
      rw [before_iff] at hbefore
      simp only [Ties] at *
      omega
    have hsymm : Std.Symm fun a b => ¬ Ties a b ∧ ¬ Ties b a := ⟨fun _ _ => And.symm⟩
    exact (hnone.forall (hmem.2 ho) (hmem.2 hr) hne).1 hties
  · intro hnone
    refine (f.pairwise_descending.and (nodup_descending hlen hmarked)).imp_of_mem ?_
    rintro ⟨j, r⟩ ⟨i, o⟩ hr ho ⟨hbefore, hne⟩
    replace hr := hmem.1 hr
    replace ho := hmem.1 ho
    have hindex : i ≠ j := by
      rintro rfl
      obtain rfl := Option.some.inj (ho.object.symm.trans hr.object)
      exact hne rfl
    have hsum := hapart i j o r hindex ho hr
    have hties := hnone i j o r ho hr
    have hnonneg := hsize j r hr
    rw [before_iff] at hbefore
    rw [ne_eq, ← Int64.toInt_inj] at hindex
    simp only [Ties, FrameObject.Apart] at *
    omega

/-- A frame whose objects have their final offsets. -/
structure IsSettled (f : Frame) : Prop where
  count : f.objects.length < 2 ^ 63
  marked : f.IsMarked
  within : ∀ j o, f.Holds j o → o.Within f.stackSize
  apart : ∀ i j o r, i ≠ j → f.Holds i o → f.Holds j r → o.Apart r
  nonneg : 0 ≤ f.stackSize.toInt

theorem IsSettled.adjust {offsetAdjustment : Int64} (h : f.IsSettled) :
    ({ f with offsetAdjustment } : Frame).IsSettled where
  count := h.count
  marked := ⟨h.marked.objects, h.marked.fixed⟩
  within j o ho := h.within j o ⟨ho.index, ho.object, ho.live⟩
  apart i j o r hne ho hr :=
    h.apart i j o r hne ⟨ho.index, ho.object, ho.live⟩ ⟨hr.index, hr.object, hr.live⟩
  nonneg := h.nonneg

theorem IsSettled.tile_iff (h : f.IsSettled) :
    MapRow.Tile ((Procedure.mapRows f.stackSize f.stackSize f.byOffset.reverse).filter
        MapRow.isOwn) f.stackSize.toInt ↔
      ∀ i j o r, f.Holds i o → f.Holds j r → ¬ Ties (i, o) (j, r) := by
  have hwithin : ∀ e ∈ f.descending, e.2.fixed = false ∧ e.2.Within f.stackSize := by
    intro e he
    have hown := (List.mem_filter.1 he).2
    exact ⟨by simpa using hown, h.within _ _ ((mem_descending h.count h.marked).1 he)⟩
  have hdown : f.descending.Pairwise fun a b => b.2.offset.toInt ≤ a.2.offset.toInt := by
    refine f.pairwise_descending.imp ?_
    intro a b hbefore
    rw [before_iff] at hbefore
    omega
  have hends : ∀ e ∈ f.descending,
      e.2.offset.toInt + e.2.size.toInt + f.stackSize.toInt ≤ f.stackSize.toInt := by
    intro e he
    have := (hwithin e he).2.high
    omega
  have hreach : ∀ e ∈ f.descending, e.2.offset.toInt + f.stackSize.toInt ≤ f.stackSize.toInt := by
    intro e he
    have := hends e he
    have := (hwithin e he).2.size
    omega
  rw [Procedure.filter_mapRows, ← descending,
    Procedure.tile_mapRows_iff h.nonneg hwithin hreach hdown, and_iff_right hends]
  exact stacked_descending_iff h.count h.marked (fun j o ho => (h.within j o ho).size) h.apart

theorem Moves.length_le {f' : Frame} (h : f.Moves f') (hlen : f.objects.length < 2 ^ 63) :
    f'.objects.length ≤ f.objects.length := by
  have hnext := h.objects (Int64.ofNat f.objects.length)
  rw [object?_ofNat _ hlen, object?_ofNat _ hlen, List.getElem?_eq_none (Nat.le_refl _),
    Option.map_none, Option.map_eq_none_iff] at hnext
  exact List.getElem?_eq_none_iff.1 hnext

theorem Moves.isMarked {f' : Frame} (h : f.Moves f') (hfixed : f'.fixed = f.fixed)
    (hlen : f.objects.length < 2 ^ 63) (hmarked : f.IsMarked) : f'.IsMarked := by
  refine ⟨?_, hfixed ▸ hmarked.fixed⟩
  intro o ho
  obtain ⟨n, hn⟩ := List.mem_iff_getElem?.1 ho
  have hlt : n < 2 ^ 63 := by
    have := (List.getElem?_eq_some_iff.1 hn).1
    have := h.length_le hlen
    omega
  have hmoved := h.objects (Int64.ofNat n)
  rw [object?_ofNat _ hlt, object?_ofNat _ hlt, hn, Option.map_some, eq_comm,
    Option.map_eq_some_iff] at hmoved
  obtain ⟨r, hr, heq⟩ := hmoved
  obtain ⟨-, -, hsame, -⟩ := FrameObject.mk.inj heq
  rw [← hsame]
  exact hmarked.objects r (List.mem_of_getElem? hr)

end Frame

/-! ## Lowered functions -/

/-- The objects of a description's function are marked. -/
theorem FunctionDesc.isMarked_of_build {d : FunctionDesc} {u : Described} (h : d.build = .ok u) :
    u.proc.frame.IsMarked := by
  obtain ⟨-, abi, regs, frame, blocks, fresh, hframe, -, rfl⟩ := build_cases h
  obtain ⟨hobjects, hfixed, -⟩ := forall_of_buildObjects (P := fun o => o.fixed = false)
    (Q := fun o => o.fixed = true) (fun _ _ _ => rfl) (fun _ _ _ => rfl) hframe
    (fun o ho => absurd ho List.not_mem_nil) fun o ho => absurd ho List.not_mem_nil
  exact ⟨hobjects, hfixed⟩

namespace Target

section
variable {t : Target} {p : Procedure}

theorem isMarked_assignSlots (h : p.frame.IsMarked) (scavenger : Bool) :
    (t.assignSlots (t.finalizeSpillSet scavenger p)).frame.IsMarked := by
  refine ⟨?_, ?_⟩
  · intro o ho
    rcases mem_objects_assignSlots ho with ho | rfl | ⟨cs, rfl⟩
    · exact h.objects o ho
    · rfl
    · rfl
  · rw [(t.fixed_finalizeSpillSet scavenger p).1]
    exact h.fixed

theorem isSettled_placeFrame (h : t.IsPlaceable p) (hsums : t.SumsInRange p)
    (hmarked : p.frame.IsMarked) : (t.placeFrame p).frame.IsSettled := by
  have hmoves := t.moves_placeObjects p
  have hfixed : (t.placeObjects p).frame.fixed = p.frame.fixed := fixed_placeObjects h
  have hout := laysOut_placeFrame h hsums
  have hdepth := (isLaid_placeObjects h hsums).depth
  have hstart := (depth_startPlacement hsums).2
  have hsize := (le_stackSize h hsums).1
  refine ⟨?_, ?_, ?_, hout.apart, by omega⟩
  · exact Nat.lt_of_le_of_lt (hmoves.length_le hsums.count) hsums.count
  · have hmarked' := hmoves.isMarked hfixed hsums.count hmarked
    exact ⟨hmarked'.objects, hmarked'.fixed⟩
  · intro j o ho
    obtain ⟨r, hr, hrsize, -⟩ := hmoves.object ho.object
    obtain ⟨hlow, hhigh⟩ := hout.within j o ho
    exact ⟨hlow, hhigh, hrsize ▸ (h.shape hr).1⟩

end

/-- The rows of padding, of objects that are not fixed and of the call frame have no address in
common and cover exactly the frame if and only if no object that is not empty starts where one with
a higher index does. -/
theorem tile_frameMap_iff {t : Target} {d : FunctionDesc} {u : Described} (hbuild : d.build = .ok u)
    (hfew : u.proc.frame.fixed.length < 2 ^ 31)
    (hsums : t.SumsInRange (t.assignSlots (t.finalizeSpillSet t.config.scavenging
      (t.decidePointer u.proc.markUsed))))
    (hok : (t.lower u.proc).failure = none) :
    MapRow.Tile ((t.lower u.proc).proc.frameMap.filter MapRow.isOwn)
        (t.lower u.proc).proc.frame.stackSize.toInt ↔
      ∀ i j o r, (t.lower u.proc).proc.frame.Holds i o → (t.lower u.proc).proc.frame.Holds j r →
        ¬ Frame.Ties (i, o) (j, r) := by
  have hbare := FunctionDesc.isBare_of_build hbuild hfew
  have hmarked := FunctionDesc.isMarked_of_build hbuild
  -- no object changes when the calls are recorded and the frame pointer is decided
  have hbare' : (t.decidePointer u.proc.markUsed).frame.IsBare :=
    ⟨⟨hbare.shaped.objects, hbare.shaped.fixed⟩, hbare.words, hbare.arguments, hbare.unscavenged,
      hbare.free⟩
  have hmarked' : (t.decidePointer u.proc.markUsed).frame.IsMarked :=
    ⟨hmarked.objects, hmarked.fixed⟩
  have hplanned : (t.planned u.proc).frame.IsSettled :=
    isSettled_placeFrame (isPlaceable_assignSlots hbare' hsums.count) hsums
      (isMarked_assignSlots hmarked' _)
  obtain ⟨offsetAdjustment, hframe⟩ := frame_of_lower hok
  have hlowered : (t.lower u.proc).proc.frame.IsSettled := hframe ▸ hplanned.adjust
  rw [Procedure.frameMap]
  exact hlowered.tile_iff

/-- A function with a call, a fixed object inside the frame, and an empty object before two others. -/
def emptyFirst : FunctionDesc where
  name := "f"
  maxCallFrameSize := 12
  hasCalls := true
  used := ["r4"]
  objects := [{ size := 0, align := 8 }, { size := 5, align := 16 },
    { size := 3, fixed := true, offset := -6 }, { size := 7, align := 1 }]
  blocks := [{ insts := ["BX_RET cc:al, noreg"] }]

/-- What becomes of it. -/
def emptyFirstFunction : Described where
  abi := none
  proc := {
    name := "f"
    blocks := [{ lines := Line.number 0 [.make .bxRet [.cond .al, .use .noreg]] }]
    frame := {
      objects := [{ size := 0, align := 8 }, { size := 5, align := 16 }, { size := 7, align := 1 }]
      fixed := [{ size := 3, align := 4, fixed := true, offset := -6 }]
      maxCallFrameSize := 12
      hasCalls := true }
    regs := ({} : RegTable).use (.core 4)
    fresh := 1 }

/-- The empty object lies at the end of the saved registers, and has the lowest index. -/
theorem tile_frameMap_iff_emptyFirst :
    emptyFirst.build = .ok emptyFirstFunction ∧
      (plainDefault.lower emptyFirstFunction.proc).failure = none ∧
      MapRow.Tile ((plainDefault.lower emptyFirstFunction.proc).proc.frameMap.filter MapRow.isOwn)
        64 := by
  have hbuild : emptyFirst.build = .ok emptyFirstFunction := by decide +kernel
  have hok : (plainDefault.lower emptyFirstFunction.proc).failure = none := by decide +kernel
  have hsums : plainDefault.SumsInRange (plainDefault.assignSlots (plainDefault.finalizeSpillSet
      plainDefault.config.scavenging
      (plainDefault.decidePointer emptyFirstFunction.proc.markUsed))) := by
    decide +kernel
  have hsize : (plainDefault.lower emptyFirstFunction.proc).proc.frame.stackSize.toInt = 64 := by
    decide +kernel
  have htile := tile_frameMap_iff hbuild (by decide) hsums hok
  rw [hsize] at htile
  exact ⟨hbuild, hok, htile.2 (Frame.not_ties_of_indexed (by decide +kernel) (by decide +kernel))⟩

/-- A function with an empty object after one of eight bytes. -/
def emptyBelow : Described where
  abi := none
  proc := {
    name := "f"
    blocks := [{ lines := Line.number 0 [.make .bxRet [.cond .al, .use .noreg]] }]
    frame := { objects := [{ size := 8, align := 4 }, { size := 0, align := 4 }] }
    fresh := 1 }

/-- The two objects have the same offset, the empty one has the higher index, and the eight bytes
are taken for padding as well. -/
theorem overlap_emptyBelow : (∃ d : FunctionDesc, d.build = .ok emptyBelow) ∧
    plainDefault.SumsInRange (plainDefault.assignSlots (plainDefault.finalizeSpillSet
      plainDefault.config.scavenging (plainDefault.decidePointer emptyBelow.proc.markUsed))) ∧
    (plainDefault.lower emptyBelow.proc).failure = none ∧
    ¬ MapRow.Tile ((plainDefault.lower emptyBelow.proc).proc.frameMap.filter MapRow.isOwn)
      (plainDefault.lower emptyBelow.proc).proc.frame.stackSize.toInt := by
  refine ⟨⟨{
      name := "f"
      objects := [{ size := 8, align := 4 }, { size := 0, align := 4 }]
      blocks := [{ insts := ["BX_RET cc:al, noreg"] }] }, ?_⟩, ?_, ?_, ?_⟩
  · decide +kernel
  · decide +kernel
  · decide +kernel
  · let eight : FrameObject := { size := 8, align := 4, offset := -8 }
    let empty : FrameObject := { size := 0, align := 4, offset := -8 }
    have hobjects : (plainDefault.lower emptyBelow.proc).proc.frame.byOffset =
        [(0, eight), (1, empty)] := by
      have hlowered : (plainDefault.lower emptyBelow.proc).proc.frame =
        { objects := [eight, empty], stackSize := 8 } := by decide +kernel
      rw [hlowered]
      exact List.mergeSort_of_pairwise (by decide)
    have hsize : (plainDefault.lower emptyBelow.proc).proc.frame.stackSize = 8 := by decide +kernel
    have hrows : (plainDefault.lower emptyBelow.proc).proc.frameMap.filter MapRow.isOwn =
        [⟨0, 8, .padding⟩, ⟨0, 0, .object 1 empty⟩, ⟨0, 8, .object 0 eight⟩] := by
      rw [Procedure.frameMap, hobjects, hsize]
      decide
    intro h
    rw [hrows] at h
    obtain ⟨hpadding, -⟩ := List.pairwise_cons.1 h.apart
    exact hpadding _ (.tail _ (.head _)) 0 ⟨by decide, by decide⟩ ⟨by decide, by decide⟩

/-- A function with two objects that are too large together. -/
def hugeObjects : Described where
  abi := none
  proc := {
    name := "f"
    blocks := [{ lines := Line.number 0 [.make .bxRet [.cond .al, .use .noreg]] }]
    frame := {
      objects := [{ size := Int64.maxValue, align := 1 }, { size := Int64.maxValue, align := 1 }] }
    fresh := 1 }

/-- Their sizes add up to less than nothing, and so does the frame. The function is lowered, no two
objects tie, and the map has rows where there is no frame. -/
theorem outside_hugeObjects : (∃ d : FunctionDesc, d.build = .ok hugeObjects) ∧
    (plainDefault.lower hugeObjects.proc).failure = none ∧
    (∀ i j o r, (plainDefault.lower hugeObjects.proc).proc.frame.Holds i o →
      (plainDefault.lower hugeObjects.proc).proc.frame.Holds j r → ¬ Frame.Ties (i, o) (j, r)) ∧
    ¬ MapRow.Tile ((plainDefault.lower hugeObjects.proc).proc.frameMap.filter MapRow.isOwn)
      (plainDefault.lower hugeObjects.proc).proc.frame.stackSize.toInt := by
  let first : FrameObject := { size := Int64.maxValue, align := 1, offset := -Int64.maxValue }
  let second : FrameObject := { size := Int64.maxValue, align := 1, offset := 2 }
  have hlowered : (plainDefault.lower hugeObjects.proc).proc.frame =
      { objects := [first, second], stackSize := -2 } := by decide +kernel
  refine ⟨⟨{
      name := "f"
      objects := [{ size := Int64.maxValue, align := 1 }, { size := Int64.maxValue, align := 1 }]
      blocks := [{ insts := ["BX_RET cc:al, noreg"] }] }, ?_⟩, ?_, ?_, ?_⟩
  · decide +kernel
  · decide +kernel
  · rw [hlowered]
    exact Frame.not_ties_of_indexed (by decide) (by decide +kernel)
  · intro h
    rw [Procedure.frameMap, hlowered, Frame.byOffset,
      List.mergeSort_of_pairwise (by decide +kernel)] at h
    have hrow := (h.covers 0).1 ⟨⟨0, Int64.maxValue, .object 1 second⟩, by decide +kernel,
      by decide, by decide⟩
    exact absurd hrow.2 (by decide)

end Target

end FrameLowering
