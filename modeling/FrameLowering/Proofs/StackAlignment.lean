import FrameLowering.Proofs.BuiltFunction
import FrameLowering.Proofs.StackDistance

/-!
# Alignment of the stack at calls

Where a function makes calls, the size of its frame and the sizes of its call frames are multiples
of the stack's alignment. The space for variadic arguments comes on top of the frame and is not
rounded. So the stack is aligned at the calls that a run reaches if the variadic arguments of all
frames up to there are such a multiple too, and only then (`Target.alignment_of_reaches`). One word
of variadic arguments is enough to lose the alignment of the base standard
(`Target.misaligned_oneWord`). Runs that go on after a return at the end of a block are not
considered, since the frame is gone there.
-/

namespace FrameLowering

/-! ## Powers of two -/

/-- A power of two, as alignments are. -/
def IsPower (a : Int64) : Prop :=
  ∃ k : Nat, a.toInt = (2 ^ k : Nat)

section
variable {a b : Int64}

theorem isPower_of_isPowerOfTwo (h : Abi.isPowerOfTwo a) : IsPower a := by
  simp only [Abi.isPowerOfTwo, Bool.and_eq_true, decide_eq_true_eq] at h
  obtain ⟨hpos, hand⟩ := h
  have hlt : 0 < a.toInt := Int64.lt_iff_toInt_lt.1 hpos
  have hint := BitVec.toInt_eq_toNat_cond a.toBitVec
  rw [Int64.toInt_toBitVec] at hint
  have hbound := a.toBitVec.isLt
  have hne : a.toBitVec.toNat ≠ 0 := by
    intro hzero
    rw [hzero, if_pos (by decide)] at hint
    omega
  have hnat : a.toInt = a.toBitVec.toNat := by
    split at hint
    · exact hint
    · omega
  have hpred : (a.toBitVec - 1#64).toNat = a.toBitVec.toNat - 1 := by bv_omega
  have hbits : a.toBitVec.toNat &&& (a.toBitVec.toNat - 1) = 0 := by
    rw [← hpred, ← BitVec.toNat_and]
    exact congrArg (fun x : Int64 => x.toBitVec.toNat) hand
  obtain ⟨k, hk⟩ := (Nat.and_sub_one_eq_zero_iff_isPowerOfTwo hne).1 hbits
  exact ⟨k, by rw [hnat, hk]⟩

theorem IsPower.pos (ha : IsPower a) : 0 < a.toInt := by
  obtain ⟨k, hk⟩ := ha
  rw [hk]
  exact Int.natCast_pos.2 (Nat.two_pow_pos k)

theorem IsPower.dvd_of_le (ha : IsPower a) (hb : IsPower b) (h : a ≤ b) : a.toInt ∣ b.toInt := by
  obtain ⟨k, hk⟩ := ha
  obtain ⟨m, hm⟩ := hb
  rw [Int64.le_iff_toInt_le, hk, hm, Int.ofNat_le] at h
  rw [hk, hm, Int.natCast_dvd_natCast]
  exact Nat.pow_dvd_pow 2 ((Nat.pow_le_pow_iff_right (by decide)).1 h)

theorem IsPower.max (ha : IsPower a) (hb : IsPower b) : IsPower (max a b) := by
  show IsPower (if a ≤ b then b else a)
  split
  · exact hb
  · exact ha

theorem IsPower.dvd_max (ha : IsPower a) (hb : IsPower b) : a.toInt ∣ (Max.max a b).toInt := by
  show a.toInt ∣ (if a ≤ b then b else a).toInt
  split
  · next h => exact ha.dvd_of_le hb h
  · exact Int.dvd_refl _

theorem IsPower.dvd_max_right (ha : IsPower a) (hb : IsPower b) :
    b.toInt ∣ (Max.max a b).toInt := by
  show b.toInt ∣ (if a ≤ b then b else a).toInt
  split
  · exact Int.dvd_refl _
  · next h => exact hb.dvd_of_le ha (Int64.le_of_lt (Int64.not_le.1 h))

/-- A sum that wraps around stays a multiple, since the power divides the modulus. -/
theorem IsPower.dvd_bmod {x : Int} (ha : IsPower a) (h : a.toInt ∣ x) :
    a.toInt ∣ x.bmod (2 ^ 64) := by
  have hmodulus : a.toInt ∣ ((2 ^ 64 : Nat) : Int) := by
    obtain ⟨k, hk⟩ := ha
    have hlt := a.toInt_lt
    have hbound : 2 ^ k < 2 ^ 64 := by omega
    rw [hk, Int.natCast_dvd_natCast]
    exact Nat.pow_dvd_pow 2 ((Nat.pow_lt_pow_iff_right (by decide)).1 hbound).le
  have hsplit : x.bmod (2 ^ 64) = x - ((2 ^ 64 : Nat) : Int) * x.bdiv (2 ^ 64) :=
    eq_sub_of_add_eq (Int.bmod_add_bdiv x (2 ^ 64))
  rw [hsplit]
  exact Int.dvd_sub h (Dvd.dvd.mul_right hmodulus _)

theorem IsPower.dvd_neg {n : Int64} (ha : IsPower a) (h : a.toInt ∣ n.toInt) :
    a.toInt ∣ (-n).toInt := by
  rw [Int64.toInt_neg]
  exact ha.dvd_bmod (Int.dvd_neg.2 h)

theorem IsPower.dvd_alignTo (ha : IsPower a) (n : Int64) : a.toInt ∣ (alignTo n a).toInt := by
  rw [alignTo, Int64.toInt_mul]
  exact ha.dvd_bmod (Int.dvd_mul_left _ _)

theorem IsPower.dvd_sum (ha : IsPower a) {vs : List Int64} (h : ∀ v ∈ vs, a.toInt ∣ v.toInt) :
    a.toInt ∣ vs.sum.toInt := by
  induction vs with
  | nil => exact Int.dvd_zero _
  | cons v vs ih =>
    obtain ⟨hv, hvs⟩ := List.forall_mem_cons.1 h
    rw [List.sum_cons, Int64.toInt_add]
    exact ha.dvd_bmod (Int.dvd_add hv (ih hvs))

theorem positive_of_isShape {size align : Int64} (h : Frame.isShape size align) :
    0 ≤ size.toInt ∧ 0 < align.toInt := by
  simp only [Frame.isShape, Bool.and_eq_true, decide_eq_true_eq, Int64.le_iff_toInt_le,
    Int64.lt_iff_toInt_lt, Int64.toInt_zero] at h
  exact h.1

theorem isPower_of_isShape {o : FrameObject} (h : Frame.isShape o.size o.align) :
    IsPower o.align := by
  apply isPower_of_isPowerOfTwo
  simp only [Frame.isShape, Bool.and_eq_true] at h
  simp only [Abi.isPowerOfTwo, Bool.and_eq_true]
  exact ⟨h.1.2, h.2⟩

end

/-! ## The size of a frame -/

/-- The alignments that there are when objects are placed all have a property. -/
structure Placement.AllAlign (P : Int64 → Prop) (s : Placement) : Prop where
  align : P s.maxAlign
  objects : ∀ j o, s.frame.object? j = some o → P o.align

section
variable {P : Int64 → Prop} {s : Placement}

theorem Placement.AllAlign.moves {s' : Placement} (h : s.AllAlign P)
    (hmoves : s.frame.Moves s'.frame) (halign : P s'.maxAlign) : s'.AllAlign P := by
  refine ⟨halign, ?_⟩
  intro j o ho
  obtain ⟨q, hq, -, hsame⟩ := hmoves.object ho
  rw [← hsame]
  exact h.objects j q hq

theorem Placement.AllAlign.pack (h : s.AllAlign P) (σ : SavedSlot) : (s.pack σ).AllAlign P := by
  rw [Placement.pack]
  cases s.frame.object? σ.index with
  | none => exact h
  | some o => exact h.moves (s.frame.moves_modify _ _) h.align

theorem Placement.AllAlign.place (h : s.AllAlign P) (j : Int64) : (s.place j).AllAlign P := by
  rw [Placement.place]
  cases ho : s.frame.object? j with
  | none => exact h
  | some o =>
    refine h.moves (s.frame.moves_modify _ _) ?_
    show P (if s.maxAlign ≤ o.align then o.align else s.maxAlign)
    split
    · exact h.objects j o ho
    · exact h.align

/-- The largest alignment is that of an object, or one. -/
theorem Target.allAlign_placeObjects {t : Target} {p : Procedure} (hone : P 1)
    (h : ∀ j o, p.frame.object? j = some o → P o.align) : (t.placeObjects p).AllAlign P := by
  have hstart : Placement.AllAlign P { frame := p.frame, depth := alignTo p.fixedDepth 4 } :=
    ⟨hone, h⟩
  rw [placeObjects]
  apply List.foldlRecOn
  · exact List.foldlRecOn _ _ hstart fun s hs σ _ => hs.pack σ
  · intro s hs j _
    exact hs.place j

end

namespace Target

section
variable {t : Target} {p q : Procedure} {ls : List Line}

theorem isPower_stackAlignment (t : Target) : IsPower t.abi.stackAlignment :=
  isPower_of_isPowerOfTwo (Abi.validate_facts t.valid).2.1

/-- Where there are calls, the size of a frame is a multiple of the stack's alignment. -/
theorem dvd_stackSize_planned (hshaped : p.frame.IsShaped) (hcalls : p.markUsed.frame.hasCalls) :
    t.abi.stackAlignment.toInt ∣ (t.planned p).frame.stackSize.toInt := by
  have hobjects (j : Int64) (o : FrameObject) (ho : (t.assignSlots (t.finalizeSpillSet
      t.config.scavenging (t.decidePointer p.markUsed))).frame.object? j = some o) :
      IsPower o.align := by
    refine forall_object_assignSlots (P := fun o => IsPower o.align) ?_ ?_ ?_ ?_ ho
    · exact fun o ho => isPower_of_isShape (hshaped.objects o ho)
    · exact fun o ho => isPower_of_isShape (hshaped.fixed o ho)
    · exact ⟨2, rfl⟩
    · intro cs
      show IsPower (t.savedClass cs.reg).size
      cases t.savedClass cs.reg
      all_goals exact isPower_of_isPowerOfTwo (by decide)
  have hcalls' : (t.assignSlots (t.finalizeSpillSet t.config.scavenging
      (t.decidePointer p.markUsed))).frame.hasCalls := by
    obtain ⟨regs, layout, frame, hchosen, hframe⟩ :=
      t.finalizeSpillSet_shape t.config.scavenging (t.decidePointer p.markUsed)
    rw [hchosen]
    rcases hframe with rfl | rfl
    · exact hcalls
    · exact hcalls
  have hplaced := allAlign_placeObjects (t := t) (P := IsPower) ⟨0, rfl⟩ hobjects
  show _ ∣ (t.frameSize _ (t.placeObjects _)).toInt
  rw [frameSize, hcalls', Bool.true_or, if_pos rfl]
  exact (t.isPower_stackAlignment.dvd_max hplaced.align).trans
    ((t.isPower_stackAlignment.max hplaced.align).dvd_alignTo _)

/-- So are the call frames that are open anywhere. -/
theorem dvd_openFrame (t : Target) (q : Procedure) (ls : List Line) :
    t.abi.stackAlignment.toInt ∣ (t.openFrame q ls).toInt := by
  have hpower := t.isPower_stackAlignment
  have hsum (sizes : List (Option Int64)) :
      t.abi.stackAlignment.toInt ∣ (sizes.map (t.markerAmount q)).sum.toInt := by
    apply hpower.dvd_sum
    intro v hv
    obtain ⟨size, -, rfl⟩ := List.mem_map.1 hv
    cases size with
    | none => exact Int.dvd_zero _
    | some n =>
      rw [markerAmount]
      split
      · exact Int.dvd_zero _
      · exact hpower.dvd_alignTo n
  rw [openFrame, Int64.toInt_sub]
  exact hpower.dvd_bmod (Int.dvd_sub (hsum _) (hsum _))

theorem hasCalls_markUsed {k : Nat} {l : Line} (hl : l ∈ p.lines k)
    (hcall : l.inst.info.flags.isCall) : p.markUsed.frame.hasCalls := by
  show (p.frame.hasCalls || p.insts.any fun i => i.info.flags.isCall) = true
  rw [Bool.or_eq_true, List.any_eq_true]
  exact .inr ⟨l.inst, p.inst_mem_insts hl, hcall⟩

end

section
variable {t : Target} {d : FunctionDesc} {u : Described} {l : Line} {next : List Line}
  {entry : State}

/-- At every call that a run reaches, the distance from the stack pointer on entry is the frame,
once for each time that the run has gone into the entry block, and the call frames in progress. It
is a multiple of the stack's alignment if and only if the variadic arguments of those frames are,
which words always are when the alignment is that of words. -/
theorem alignment_of_reaches {path : List Nat} {c : Point} (hbuild : d.build = .ok u)
    (hok : (t.lower u.proc).failure = none)
    (hmarkers : ∀ b ∈ u.proc.blocks, ∀ l ∈ b.lines,
      l.inst.op.isMarker → l.inst.predicate.1 = Cond.al)
    (hbalanced : ∀ b ∈ u.proc.blocks, (setupSizes b.lines).Perm (destroySizes b.lines))
    (hreach : ReachesBy (t.lower u.proc).proc u.proc.KeepsStack entry path c)
    (hrest : c.rest = l :: next) (hcall : l.inst.info.flags.isCall) :
    ∃ before after, u.proc.lines c.block = before ++ l :: after ∧
      let n := path.count 0
      let distance := n * frameBytes (t.lower u.proc).proc +
        (t.openFrame (t.lower u.proc).proc before).toInt
      0 < n ∧ ((∀ b ∈ u.proc.blocks, 0 ∉ b.successors) → n = 1) ∧
      entry.sp - c.state.sp = BitVec.ofInt 32 distance ∧
      (t.abi.stackAlignment.toInt ∣ distance ↔
        t.abi.stackAlignment.toInt ∣ n * u.proc.frame.varArgsSaveSize.toInt) ∧
      (t.abi.stackAlignment = 4 → t.abi.stackAlignment.toInt ∣ distance) := by
  obtain ⟨hshaped, hwords, hold⟩ := FunctionDesc.facts_of_build hbuild
  obtain ⟨before, after, hlines, hsp⟩ :=
    sp_of_reachesBy hok hold hmarkers hbalanced hreach hrest hcall
  refine ⟨before, after, hlines, hreach.count_pos,
    count_eq_one_of_lower hok hold hmarkers hbalanced hreach, hsp, ?_⟩
  have hmem : l ∈ u.proc.lines c.block := by
    rw [hlines]
    exact List.mem_append_right _ List.mem_cons_self
  have hsize := dvd_stackSize_planned (t := t) hshaped (hasCalls_markUsed hmem hcall)
  have hopen := t.dvd_openFrame (t.lower u.proc).proc before
  generalize (t.openFrame (t.lower u.proc).proc before).toInt = opened at hopen
  generalize t.abi.stackAlignment = a at *
  generalize (path.count 0 : Int) = n
  rw [frameBytes_of_lower hok]
  -- all but the space of variadic arguments is a multiple
  have hrest : a.toInt ∣ n * (t.planned u.proc).frame.stackSize.toInt + opened :=
    Int.dvd_add (Dvd.dvd.mul_left hsize _) hopen
  have hiff : a.toInt ∣ n * (u.proc.frame.varArgsSaveSize.toInt +
      (t.planned u.proc).frame.stackSize.toInt) + opened ↔
      a.toInt ∣ n * u.proc.frame.varArgsSaveSize.toInt := by
    rw [Int.mul_add, Int.add_assoc]
    exact (Int.dvd_add_left hrest)
  refine ⟨hiff, ?_⟩
  rintro rfl
  exact hiff.2 (Dvd.dvd.mul_left hwords _)

end

/-! ## Variadic arguments -/

/-- A run through known lines that were inserted. -/
theorem reaches_of_inserted {p q : Procedure} {rest : List Line} (entry : State) (n : Nat)
    (hold : ∀ b ∈ p.blocks, ∀ l ∈ b.lines, l.label < p.fresh)
    (hls : ∀ l ∈ (q.lines 0).take n, IsKnown l.inst ∧ p.fresh ≤ l.label)
    (hrest : (q.lines 0).drop n = rest) :
    Reaches q p.KeepsStack entry ⟨0, rest, runLines ((q.lines 0).take n) entry⟩ := by
  subst hrest
  apply reaches_of_known
  · rw [List.take_append_drop]
    exact .refl
  intro l hl
  obtain ⟨hknown, hnew⟩ := hls l hl
  refine ⟨hknown, fun s => ⟨?_, fun hlt => absurd hnew (Nat.not_le.2 hlt)⟩⟩
  rintro ⟨b, hb, hexit⟩
  have hlines := b.body_append_exit
  have hlt := hold b hb l (hlines ▸ List.mem_append_right _ hexit)
  exact absurd hnew (Nat.not_le.2 hlt)

/-- A function that saves variadic arguments and makes a call with arguments on the stack. -/
def callsAfterSaving (save : Int64) : FunctionDesc where
  name := "f"
  maxCallFrameSize := 4096
  varArgsSaveSize := save
  blocks := [{ insts := ["ADJCALLSTACKDOWN #12, cc:al, noreg", "BL #1",
    "ADJCALLSTACKUP #12, #0, cc:al, noreg", "BX_RET cc:al, noreg"] }]

/-- What becomes of it. -/
def savedAndCalling (save : Int64) : Described where
  abi := none
  proc := {
    name := "f"
    blocks := [{ lines := Line.number 0 [
      .make .callFrameDown [.imm 12, .cond .al, .use .noreg], .make .bl [.imm 1],
      .make .callFrameUp [.imm 12, .imm 0, .cond .al, .use .noreg],
      .make .bxRet [.cond .al, .use .noreg]] }]
    frame := { maxCallFrameSize := 4096, varArgsSaveSize := save }
    fresh := 4 }

/-- The call of the function. -/
def callLine : Line :=
  ⟨1, .make .bl [.imm 1]⟩

/-- Nothing but lines that frame lowering has inserted is executed before the call. -/
def ComesToCall (p : Procedure) : Prop :=
  (plainDefault.lower p).failure = none ∧
    (∀ b ∈ p.blocks, ∀ l ∈ b.lines, l.inst.op.isMarker → l.inst.predicate.1 = Cond.al) ∧
    (∀ b ∈ p.blocks, (setupSizes b.lines).Perm (destroySizes b.lines)) ∧
    (∀ b ∈ p.blocks, ∀ l ∈ b.lines, l.label < p.fresh) ∧
    (∀ l ∈ ((plainDefault.lower p).proc.lines 0).take 5, IsKnown l.inst ∧ p.fresh ≤ l.label) ∧
    (((plainDefault.lower p).proc.lines 0).drop 5).head? = some callLine

instance : DecidablePred ComesToCall :=
  fun _ => inferInstanceAs (Decidable (_ ∧ _ ∧ _ ∧ _ ∧ _ ∧ _))

theorem ComesToCall.reaches {p : Procedure} (h : ComesToCall p) :
    ∃ next, Reaches (plainDefault.lower p).proc p.KeepsStack counted
      ⟨0, callLine :: next, runLines (((plainDefault.lower p).proc.lines 0).take 5) counted⟩ := by
  obtain ⟨-, -, -, hold, hinserted, hhead⟩ := h
  obtain ⟨next, hnext⟩ := List.head?_eq_some_iff.1 hhead
  exact ⟨next, reaches_of_inserted counted 5 hold hinserted hnext⟩

/-- With two words of variadic arguments the stack is aligned at the call. -/
theorem alignment_of_reaches_twoWords :
    ∃ path next s before after, (callsAfterSaving 8).build = .ok (savedAndCalling 8) ∧
      ReachesBy (plainDefault.lower (savedAndCalling 8).proc).proc
        (savedAndCalling 8).proc.KeepsStack counted path ⟨0, callLine :: next, s⟩ ∧
      (savedAndCalling 8).proc.lines 0 = before ++ callLine :: after ∧
      plainDefault.abi.stackAlignment.toInt ∣
        frameBytes (plainDefault.lower (savedAndCalling 8).proc).proc +
          (plainDefault.openFrame (plainDefault.lower (savedAndCalling 8).proc).proc before).toInt := by
  have hbuild : (callsAfterSaving 8).build = .ok (savedAndCalling 8) := by decide +kernel
  have hcomes : ComesToCall (savedAndCalling 8).proc := by decide +kernel
  obtain ⟨next, hreach⟩ := hcomes.reaches
  generalize runLines _ _ = s at hreach
  obtain ⟨path, hpath⟩ := reaches_iff_exists_path.1 hreach
  obtain ⟨hok, hmarkers, hbalanced, -⟩ := hcomes
  obtain ⟨before, after, hlines, -, honce, -, hiff, -⟩ :=
    alignment_of_reaches hbuild hok hmarkers hbalanced hpath rfl rfl
  rw [honce (by decide), Nat.cast_one, one_mul] at hiff
  exact ⟨path, next, s, before, after, hbuild, hpath, hlines, hiff.2 (by decide)⟩

/-- With one word of variadic arguments it is not. -/
theorem misaligned_oneWord :
    ∃ d u next s, FunctionDesc.build d = .ok u ∧ (plainDefault.lower u.proc).failure = none ∧
      (∀ b ∈ u.proc.blocks, ∀ l ∈ b.lines, l.inst.op.isMarker → l.inst.predicate.1 = Cond.al) ∧
      (∀ b ∈ u.proc.blocks, (setupSizes b.lines).Perm (destroySizes b.lines)) ∧
      Reaches (plainDefault.lower u.proc).proc u.proc.KeepsStack counted ⟨0, callLine :: next, s⟩ ∧
      callLine.inst.info.flags.isCall ∧
      ¬ plainDefault.abi.stackAlignment.toInt ∣ ((counted.sp - s.sp).toNat : Int) := by
  have hcomes : ComesToCall (savedAndCalling 4).proc := by decide +kernel
  obtain ⟨next, hreach⟩ := hcomes.reaches
  obtain ⟨hok, hmarkers, hbalanced, -⟩ := hcomes
  refine ⟨callsAfterSaving 4, savedAndCalling 4, next, _, ?_, hok, hmarkers, hbalanced, hreach,
    rfl, ?_⟩
  · decide +kernel
  · decide +kernel

end Target

end FrameLowering
