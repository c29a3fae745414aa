import FrameLowering.Proofs.VisitedLines

/-!
# Addresses of objects in lowered code

In every run of a lowered function, loads and stores that had a frame index access the object at
the offset that the frame gives it, and sums of a frame index and an immediate compute its address
(`Target.address_of_reaches`). What lowering has put before and after such a line is the expansion
that the elimination walk made for it. The sum is still in its register at the end of it, unless the
register is `r12` and a borrowed register is loaded from a slot that is out of reach
(`Target.sum_lost_crowded`).
-/

namespace FrameLowering

open ImmediateField (word)

namespace Target

section
variable {t : Target} {w : WideSet} {p : Procedure} {k : Nat} {entry s s' : State}

/-- An instruction forms the address of its object after what is put before it, and what is put
after it leaves its result alone as far as it can. -/
theorem Located.forms {i : Inst} {spAdj index : Int64} {e : Expansion}
    (h : t.Located p entry spAdj s) (hw : t.wide? = some w) (hlaid : t.IsLaidOut p)
    (he : Expands t w p k i spAdj e) (hplace : i.frameIndexAt = some 1)
    (hindex : i.operands[1]? = some (.frameIndex index)) (hout : p.layout.area index = .outside)
    (hexec : ExecAll e.before s s') :
    ∃ o, p.frame.object? index = some o ∧ i.Forms e.inst (p.home entry o) s' ∧
      p.Yields entry e.inst e.after s' := by
  cases he with
  | direct he =>
    obtain ⟨-, -, hafter⟩ := he.stays
    obtain ⟨r, hr⟩ := (Expands.direct he).rebase
    obtain ⟨o, ho⟩ := object_of_rebase hr hplace hindex
    rw [hafter]
    exact ⟨o, ho, he.forms hplace hindex ho (h.finds hlaid hout) hexec, Procedure.yields_nil⟩
  | borrowed hr hrest hscratch hspill hreload _ hlast =>
    obtain ⟨n, rfl⟩ := hscratch.core
    obtain ⟨o, ho⟩ := object_of_rebase hr hplace hindex
    obtain ⟨hone, -⟩ := rebase_folds hr hplace hindex ho
    -- addresses do not depend on what the slots hold, so that they are left unguarded
    have hs : t.Steady p entry False [] spAdj s := ⟨h, False.elim⟩
    obtain ⟨m, hm, hchain⟩ := execAll_append_cons.1 hexec
    obtain ⟨hlent, -⟩ := hs.lend hw hlaid False.elim hspill hm
    obtain ⟨hborrowed, -⟩ := hs.borrow hw hlaid False.elim hr hrest hscratch hspill hexec
    refine ⟨o, ho, ?_, ?_⟩
    · exact forms_of_through hr hplace hindex ho (hlent.located.finds hlaid hout) hrest hchain
    · exact yields_of_reload hw hlaid hone hscratch hlast hreload.failure_eq hborrowed.located

variable {v : Visit} {front before after back : List Line} {l : Line}

/-- Where the expansion of a line starts, the stack pointer is where the walk takes it to be. -/
theorem Expanded.located (h : t.Expanded p k v front before l after back) (hp : p.IsBuilt)
    (hok : (t.lower p).failure = none) (hmem : v.line ∈ p.allLines)
    (hreach : Reaches (t.lower p).proc (t.LeavesReserved p) entry
      ⟨k, before ++ l :: (after ++ back), s⟩) : t.Located (t.lower p).proc entry v.spAdj s := by
  obtain ⟨-, hblocks, -, -⟩ := lower_cases hok
  obtain ⟨w, hw, hlowers⟩ := lowers_of_lower hp hok
  obtain ⟨as, b, ls, mid, head, body, has, hb, hbody, hhead, hlater, hpieces⟩ :=
    h.exists_walks hw hok hp.toIsFresh hmem
  -- the run has come through the lines before it from the start of the block
  have hallowed : Reaches (t.lower p).proc (t.watch (t.lower p).proc entry p.fresh False).allowed
      entry ⟨k, before ++ l :: (after ++ back), s⟩ := by
    refine reaches_mono hreach fun l s s' hleaves hold => ?_
    exact ⟨(hleaves hold).congr hlowers.pointer, False.elim⟩
  have hlines : (t.lower p).proc.lines k = [] ++ (front ++ (before ++ l :: (after ++ back))) :=
    h.lines
  obtain ⟨s₀, hstart, hruns⟩ := hallowed.exists_runsThrough hlines
  rw [← h.lines] at hstart
  have henters := hlowers.enters_of_reaches hw hp hblocks False.elim hstart
  obtain ⟨rfl, hfirst⟩ := pieces_of_head hw hlowers.frame has hhead henters
  have hrun : (t.watch (t.lower p).proc entry p.fresh False).Lines
      (t.Steady (t.lower p).proc entry False [] v.spAdj) front s₀ := by
    rw [h.passed, hpieces]
    refine Watch.lines_number (t.passesNew_watch _ entry False p.fresh) h.fresh ?_
    refine Watch.Pieces.append (hfirst.mono fun s₁ hs₁ => ?_)
    refine pieces_of_walks hw hlater (fun x hx => ?_) hlowers.frame.laid False.elim hs₁
    exact hlowers.isBodyLine hp hb (hbody hx)
  exact (hrun.of_runsThrough hruns).located

end

/-- In every run of a lowered function, a line that had a frame index works on its object. The run
has come to it through the instructions that were put before it. A load or store whose condition
holds accesses the address of the object plus the value of the index register and the offset in the
immediate; the instructions before it have left the index register alone, unless that is `r12` and a
slot out of reach was accessed through it. An addition leaves the address of the object plus the
immediate in its register; once the instructions that were put after it are executed it is still
there, up to the condition of `Procedure.Settles`. -/
theorem address_of_reaches {t : Target} {p : Procedure} {entry : State} {c : Point} {l m : Line}
    {next : List Line} {index : Int64} (hp : p.IsBuilt) (hok : (t.lower p).failure = none)
    (hreach : Reaches (t.lower p).proc (t.LeavesReserved p) entry c) (hrest : c.rest = l :: next)
    (hm : m ∈ p.allLines) (hlabel : m.label = l.label) (hplace : m.inst.frameIndexAt = some 1)
    (hindex : m.inst.operands[1]? = some (.frameIndex index)) (henabled : m.inst.Enabled c.state) :
    ∃ o v front before after back, (t.lower p).proc.frame.object? index = some o ∧ v.line = m ∧
      t.Expanded p c.block v front before l after back ∧ next = after ++ back ∧
      (∃ s, Reaches (t.lower p).proc (t.LeavesReserved p) entry ⟨c.block, before ++ l :: next, s⟩ ∧
        ExecAll (before.map Line.inst) s c.state) ∧
      (∀ k, m.inst.op.access? = some k → l.inst.op.access? = some k ∧ l.inst.Enabled c.state ∧
        l.inst.address c.state = (t.lower p).proc.home entry o + m.inst.indexValue c.state +
          word m.inst.displacement ∧
        ∀ s, ExecAll (before.map Line.inst) s c.state →
          (m.inst.register 2 = Reg.r12 → after.length ≤ 1) →
          m.inst.indexValue c.state = m.inst.indexValue s) ∧
      (m.inst.op = .addri ∨ m.inst.op = .t2addri → ∀ n, m.inst.register 0 = .core n →
        ∀ s' s'', l.inst.Effect c.state s' → ExecAll (after.map Line.inst) s' s'' →
          s'.read (.core n) = (t.lower p).proc.home entry o + word (m.inst.immediate 2) ∧
          (t.lower p).proc.Settles entry (.core n)
            ((t.lower p).proc.home entry o + word (m.inst.immediate 2))
            (after.map Line.inst) s'') := by
  obtain ⟨w, hw, hlowers⟩ := lowers_of_lower hp hok
  obtain ⟨k, _, s⟩ := c
  obtain rfl : _ = l :: next := hrest
  -- the line is where the walk has put it
  obtain ⟨xs, hlines⟩ := suffix_of_reaches hreach
  obtain ⟨v, front, before, after, back, rfl, hexpanded, rfl, rfl⟩ :=
    exists_expanded hp.toIsFresh hok hlines.symm hm hlabel (by rw [hplace]; rfl)
  obtain ⟨s₀, hstart, hruns⟩ := hreach.exists_runsThrough hexpanded.lines
  have hexec := hruns.execAll
  have hout : (t.lower p).proc.layout.area index = .outside := by
    obtain ⟨b, hb, hline⟩ := List.mem_flatMap.1 hm
    obtain ⟨o, ho⟩ := hp.indices b hb _ hline index (List.mem_of_getElem? hindex)
    exact hlowers.outside index o ho
  have he := hexpanded.expands hw hok
  have hlocated := hexpanded.located hp hok hm hstart
  obtain ⟨o, ho, hforms, hyields⟩ :=
    hlocated.forms hw hlowers.frame.laid he hplace hindex hout (hexpanded.before ▸ hexec)
  rw [← hexpanded.inst] at hforms hyields
  rw [← hexpanded.after] at hyields
  have hon : l.inst.Enabled s := hforms.enabled_iff.2 henabled
  refine ⟨o, v, front, before, after, back, ho, rfl, hexpanded, rfl, ⟨s₀, hstart, hexec⟩,
    fun k hk => ⟨hforms.access.trans hk, hon, ?_, ?_⟩, ?_⟩
  · rw [hforms.address_eq hk hon, Inst.beyond_of_access hk, add_assoc]
  · intro s₁ hs₁ hkeeps
    rw [hexpanded.before] at hs₁
    refine he.indexValue_eq hw hplace hindex (fun h12 => ?_) hs₁
    rw [← hexpanded.after, List.length_map]
    exact hkeeps h12
  · intro hop n hn s' s'' heff hexec
    have hadds : (v.line.inst.op.addend? 0).isSome := by rcases hop with h | h <;> rw [h] <;> rfl
    have hbeyond : v.line.inst.beyond s = word (v.line.inst.immediate 2) := by
      rcases hop with h | h <;> rw [Inst.beyond, h] <;> rfl
    have hread := hforms.read_addend hadds hn hon heff
    rw [hbeyond] at hread
    refine ⟨hread, ?_⟩
    have hzero : l.inst.register 0 = .core n := hforms.register_zero.trans hn
    rw [← hread]
    exact hyields n s' s'' (hforms.addend.trans hadds) hzero hon heff hexec

/-- Takes the address of an object, in `r12`. -/
def sumLine : Line :=
  ⟨10, .make .addri [.use (.core 12), .frameIndex 0, .imm 0, .cond .al, .use .noreg]⟩

/-- Stores `r12` in the object. -/
def storeLine : Line :=
  ⟨12, .make .str [.use (.core 12), .frameIndex 0, .use .noreg, .imm 4, .cond .al, .use .noreg]⟩

/-- A function that needs all registers and takes the address of an object within a call frame
that is not part of its frame. -/
def crowded : Procedure where
  name := "f"
  blocks := [{
    lines := Line.number 0 (
      ([4, 5, 6, 7, 8, 9, 10, 11, 14] : List (Fin 16)).map
        (fun n => .make .movr [.use (.core n), .use (.core 0), .cond .al, .use .noreg]) ++
      [.make .callFrameDown [.imm 8004, .cond .al, .use .noreg], sumLine.inst,
        .make .callFrameUp [.imm 8004, .imm 0, .cond .al, .use .noreg], storeLine.inst] ++
      ([1, 2, 3, 4, 5, 6, 7, 8, 9, 10, 11, 14] : List (Fin 16)).map
        (fun n => .make .addrr
          [.use (.core 0), .use (.core 0), .use (.core n), .cond .al, .use .noreg]) ++
      [.make .bxRet [.cond .al, .use .noreg]]) }]
  frame := { objects := [{ size := 5000, align := 4 }], maxCallFrameSize := 8004 }
  fresh := 26

/-- The addition with a borrowed register for its base, and the two lines that load that register
again: its slot is out of reach from the stack pointer. -/
def loweredSum : List Line := [
  ⟨10, .make .addri [.use (.core 12), .reg (.core 14) false true, .imm 844, .cond .al, .use .noreg]⟩,
  ⟨55, .make .addri [.use (.core 12), .use (.core 13), .imm 4096, .cond .al, .use .noreg]⟩,
  ⟨56, .make .ldr [.use (.core 14), .reg (.core 12) false true, .use .noreg, .imm 3912, .cond .al,
    .use .noreg]⟩]

/-- What there is to know of the lowered function. -/
theorem lowered_crowded :
    (plainDefault.lower crowded).failure = none ∧
      (∀ l ∈ ((plainDefault.lower crowded).proc.lines 0).take 31, plainDefault.Passes crowded l) ∧
      ((plainDefault.lower crowded).proc.lines 0).drop 26 =
        loweredSum ++ ((plainDefault.lower crowded).proc.lines 0).drop 29 ∧
      ((plainDefault.lower crowded).proc.lines 0).drop 31 =
        ⟨12, .make .str
          [.use (.core 12), .use (.core 13), .use .noreg, .imm 8, .cond .al, .use .noreg]⟩ ::
          ((plainDefault.lower crowded).proc.lines 0).drop 32 ∧
      (plainDefault.lower crowded).proc.frame.object? 0 =
        some { size := 5000, align := 4, offset := -5036 } := by
  decide +kernel

theorem reaches_crowded (n : Nat) {rest : List Line} (hn : n ≤ 31)
    (hrest : ((plainDefault.lower crowded).proc.lines 0).drop n = rest) :
    Reaches (plainDefault.lower crowded).proc (plainDefault.LeavesReserved crowded) counted
      ⟨0, rest, runLines (((plainDefault.lower crowded).proc.lines 0).take n) counted⟩ := by
  refine reaches_mono (reaches_of_take counted n (fun l hl => ?_) hrest) fun _ _ _ h hold => (h hold).1
  exact lowered_crowded.2.1 l ((List.take_prefix_take_left hn).subset hl)

/-- The address is in its register after the addition, and lost two lines later. -/
theorem sum_lost_crowded :
    sumLine ∈ crowded.allLines ∧ ∃ next s o, Reaches (plainDefault.lower crowded).proc
        (plainDefault.LeavesReserved crowded) counted ⟨0, loweredSum ++ next, s⟩ ∧
      (plainDefault.lower crowded).proc.frame.object? 0 = some o ∧
      ∃ s' s'', ExecAll ((loweredSum.take 1).map Line.inst) s s' ∧
        ExecAll ((loweredSum.drop 1).map Line.inst) s' s'' ∧
        s'.read Reg.r12 = (plainDefault.lower crowded).proc.home counted o ∧
        s''.read Reg.r12 ≠ (plainDefault.lower crowded).proc.home counted o := by
  obtain ⟨-, -, hsum, -, hobject⟩ := lowered_crowded
  have hreach := reaches_crowded 26 (by decide) hsum
  have hknown : ∀ l ∈ loweredSum, IsKnown l.inst := by decide
  refine ⟨by decide +kernel, _, _, _, hreach, hobject, _, _, execAll_runLines ?_,
    execAll_runLines ?_, ?_, ?_⟩
  · exact fun l hl => hknown l (List.mem_of_mem_take hl)
  · exact fun l hl => hknown l (List.mem_of_mem_drop hl)
  · decide +kernel
  · decide +kernel

theorem address_of_reaches_crowded :
    (∃ l next s o v front before after back, Reaches (plainDefault.lower crowded).proc
        (plainDefault.LeavesReserved crowded) counted ⟨0, l :: next, s⟩ ∧
      l.label = storeLine.label ∧ (plainDefault.lower crowded).proc.frame.object? 0 = some o ∧
      v.line = storeLine ∧ plainDefault.Expanded crowded 0 v front before l after back ∧
      next = after ++ back ∧
      l.inst.address s = (plainDefault.lower crowded).proc.home counted o +
        storeLine.inst.indexValue s + word storeLine.inst.displacement ∧
      ∀ s₀, ExecAll (before.map Line.inst) s₀ s →
        storeLine.inst.indexValue s = storeLine.inst.indexValue s₀) ∧
    ∃ l next s o v front before after back, Reaches (plainDefault.lower crowded).proc
        (plainDefault.LeavesReserved crowded) counted ⟨0, l :: next, s⟩ ∧
      l.label = sumLine.label ∧ (plainDefault.lower crowded).proc.frame.object? 0 = some o ∧
      v.line = sumLine ∧ plainDefault.Expanded crowded 0 v front before l after back ∧
      next = after ++ back ∧
      ∀ s' s'', l.inst.Effect s s' → ExecAll (after.map Line.inst) s' s'' →
        s'.read (.core 12) = (plainDefault.lower crowded).proc.home counted o +
          word (sumLine.inst.immediate 2) ∧
        (plainDefault.lower crowded).proc.Settles counted (.core 12)
          ((plainDefault.lower crowded).proc.home counted o + word (sumLine.inst.immediate 2))
          (after.map Line.inst) s'' := by
  have hp : crowded.IsBuilt := by decide +kernel
  obtain ⟨hok, -, hsum, hstore, -⟩ := lowered_crowded
  constructor
  · have hreach := reaches_crowded 31 (by decide) hstore
    generalize runLines _ _ = s at hreach
    obtain ⟨o, v, front, before, after, back, ho, hv, hexpanded, hnext, -, haccess, -⟩ :=
      address_of_reaches (m := storeLine) hp hok hreach rfl (by decide) rfl rfl rfl (.inl rfl)
    obtain ⟨-, -, haddress, hindex⟩ := haccess _ rfl
    refine ⟨_, _, s, o, v, front, before, after, back, hreach, rfl, ho, hv, hexpanded, hnext,
      haddress, fun s₀ hs₀ => ?_⟩
    exact hindex s₀ hs₀ (absurd · (by decide))
  · have hreach := reaches_crowded 26 (by decide) hsum
    generalize runLines _ _ = s at hreach
    obtain ⟨o, v, front, before, after, back, ho, hv, hexpanded, hnext, -, -, hadds⟩ :=
      address_of_reaches (m := sumLine) hp hok hreach rfl (by decide) rfl rfl rfl (.inl rfl)
    exact ⟨_, _, s, o, v, front, before, after, back, hreach, rfl, ho, hv, hexpanded, hnext,
      hadds (.inl rfl) 12 rfl⟩

end Target

end FrameLowering
