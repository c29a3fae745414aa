import FrameLowering.Code.Procedure
import Mathlib.Data.BitVec
import Mathlib.Data.List.Basic
import Mathlib.Logic.Relation

/-!
# Execution of machine code

A machine has words of register storage, byte-addressed memory and condition flags. Core
registers hold one word each and double-precision registers two, which they share with
single-precision registers. `Inst.Acts` says what an instruction does when its condition
holds, `Inst.Effect` what it does in any case, and `Step` moves through the lines of a
block and along its successors. Calls, assembly text and constants are not determined:
they do anything to what they can reach.
-/

namespace FrameLowering

open Relation

/-! ## Registers -/

/-- A word of register storage. -/
inductive Cell where
  | core (n : Fin 16)
  | float (n : Fin 64)
  | virtual (n : Fin 32768)
deriving DecidableEq

/-- The words that a register consists of, the lowest first. -/
def Reg.cells : Reg → List Cell
  | .core n => [.core n]
  | .single n => [.float ⟨n, by omega⟩]
  | .double n => [.float ⟨2 * n, by omega⟩, .float ⟨2 * n + 1, by omega⟩]
  | .virtual n => [.virtual n]
  | .noreg => []
  | .unknown _ => []

/-- Bytes of memory, by address. -/
abbrev Memory := Word → BitVec 8

/-- The state of a machine. -/
structure State where
  cells : Cell → Word
  mem : Memory
  /-- Conditions that hold. -/
  flags : Cond → Bool

/-- Registers that have a word in common share storage. -/
theorem Reg.overlaps_of_mem_cells {a b : Reg} {c : Cell} (ha : c ∈ a.cells) (hb : c ∈ b.cells) :
    a.overlaps b := by
  cases a <;> cases b <;> simp only [cells, List.mem_cons, List.not_mem_nil, or_false] at ha hb
  case core.core n m =>
    obtain rfl : n = m := by simpa using ha.symm.trans hb
    simp [overlaps]
  case virtual.virtual n m =>
    obtain rfl : n = m := by simpa using ha.symm.trans hb
    simp [overlaps]
  case single.single n m =>
    obtain rfl : n = m := by simpa [Fin.ext_iff] using ha.symm.trans hb
    simp [overlaps]
  case single.double n m =>
    have h : n.val / 2 = m.val := by
      subst ha
      simp only [Cell.float.injEq, Fin.mk.injEq] at hb
      omega
    simp [overlaps, aliases, h]
  case double.single n m =>
    subst hb
    simp only [Cell.float.injEq, Fin.mk.injEq] at ha
    have hn : n.val < 16 := by omega
    simp only [overlaps, aliases, dif_pos hn]
    simpa [Fin.ext_iff] using ha
  case double.double n m =>
    obtain rfl : n = m := by
      rcases ha with rfl | rfl
      all_goals
        simp only [Cell.float.injEq, Fin.mk.injEq] at hb
        omega
    simp [overlaps]
  -- Registers of different files have no word in common.
  all_goals simp_all

namespace State

/-- The words of a register. -/
def value (s : State) (r : Reg) : List Word :=
  r.cells.map s.cells

/-- The lowest word of a register; zero where there is no register. -/
def read (s : State) (r : Reg) : Word :=
  (s.value r).headD 0

/-- The state with new words in a register. -/
def assign (s : State) (r : Reg) (ws : List Word) : State :=
  { s with cells := fun c => ((r.cells.zip ws).lookup c).getD (s.cells c) }

/-- The state with one new word in a register. -/
def write (s : State) (r : Reg) (w : Word) : State :=
  s.assign r [w]

/-- The stack pointer. -/
def sp (s : State) : Word :=
  s.read Reg.sp

/-- Two states have the same register storage outside of some registers. -/
def AgreesOff (rs : List Reg) (s s' : State) : Prop :=
  ∀ c, (∀ r ∈ rs, c ∉ r.cells) → s'.cells c = s.cells c

@[simp] theorem assign_mem (s : State) (r : Reg) (ws : List Word) :
    (s.assign r ws).mem = s.mem := rfl

@[simp] theorem assign_flags (s : State) (r : Reg) (ws : List Word) :
    (s.assign r ws).flags = s.flags := rfl

@[simp] theorem write_mem (s : State) (r : Reg) (w : Word) : (s.write r w).mem = s.mem := rfl

@[simp] theorem write_flags (s : State) (r : Reg) (w : Word) :
    (s.write r w).flags = s.flags := rfl

theorem cells_assign_of_notMem {s : State} {r : Reg} {ws : List Word} {c : Cell}
    (h : c ∉ r.cells) : (s.assign r ws).cells c = s.cells c := by
  have hnone : (r.cells.zip ws).lookup c = none := by
    rw [List.lookup_eq_none_iff]
    rintro ⟨d, w⟩ hmem
    have hd : d ∈ r.cells := (List.of_mem_zip hmem).1
    simp only [bne_iff_ne, ne_eq]
    rintro rfl
    exact h hd
  simp only [assign, hnone, Option.getD_none]

theorem agreesOff_assign (s : State) (r : Reg) (ws : List Word) :
    AgreesOff [r] s (s.assign r ws) := by
  intro c hc
  exact cells_assign_of_notMem (hc r List.mem_cons_self)

theorem AgreesOff.value_eq {rs : List Reg} {s s' : State} {r : Reg} (h : AgreesOff rs s s')
    (hr : ∀ a ∈ rs, ¬ a.overlaps r) : s'.value r = s.value r := by
  refine List.map_congr_left fun c hc => h c fun a ha hca => ?_
  exact hr a ha (Reg.overlaps_of_mem_cells hca hc)

theorem AgreesOff.read_eq {rs : List Reg} {s s' : State} {r : Reg} (h : AgreesOff rs s s')
    (hr : ∀ a ∈ rs, ¬ a.overlaps r) : s'.read r = s.read r := by
  rw [read, read, h.value_eq hr]

theorem value_assign {s : State} {r : Reg} {ws : List Word} (h : ws.length = r.cells.length) :
    (s.assign r ws).value r = ws := by
  cases r with
  | noreg => exact (List.length_eq_zero_iff.1 h).symm
  | unknown n => exact (List.length_eq_zero_iff.1 h).symm
  | core n =>
    obtain ⟨w, rfl⟩ := List.length_eq_one_iff.1 h
    simp [value, assign, Reg.cells, List.lookup_cons]
  | single n =>
    obtain ⟨w, rfl⟩ := List.length_eq_one_iff.1 h
    simp [value, assign, Reg.cells, List.lookup_cons]
  | virtual n =>
    obtain ⟨w, rfl⟩ := List.length_eq_one_iff.1 h
    simp [value, assign, Reg.cells, List.lookup_cons]
  | double n =>
    obtain ⟨w, v, rfl⟩ := List.length_eq_two.1 h
    have hne : (Cell.float ⟨2 * n + 1, by omega⟩ == Cell.float ⟨2 * n, by omega⟩) = false := by
      simp
    simp [value, assign, Reg.cells, List.lookup_cons, hne]

theorem value_assign_of_ne {s : State} {r a : Reg} {ws : List Word} (h : ¬ a.overlaps r) :
    (s.assign a ws).value r = s.value r :=
  (agreesOff_assign s a ws).value_eq (by simpa using h)

@[simp] theorem read_write_core (s : State) (n : Fin 16) (w : Word) :
    (s.write (.core n) w).read (.core n) = w := by
  have h : (s.assign (.core n) [w]).value (.core n) = [w] := value_assign rfl
  rw [write, read, h]
  rfl

theorem read_write_of_ne {s : State} {r a : Reg} {w : Word} (h : ¬ a.overlaps r) :
    (s.write a w).read r = s.read r := by
  rw [read, write, value_assign_of_ne h, read]

end State

/-- Core registers share storage with themselves only. -/
theorem Reg.overlaps_core_iff {a : Reg} {n : Fin 16} : a.overlaps (.core n) ↔ a = .core n := by
  cases a with
  | double m =>
    simp only [overlaps, aliases]
    split <;> simp
  | _ => simp [overlaps, aliases]

/-! ## Memory -/

namespace Memory

/-- The little-endian integer in some bytes. -/
def load (m : Memory) (a : Word) : Nat → Word
  | 0 => 0
  | n + 1 => load m (a + 1) n <<< 8 ||| (m a).setWidth 32

/-- Memory with the low bytes of a word stored. -/
def store (m : Memory) (a : Word) (n : Nat) (w : Word) : Memory := fun b =>
  if (b - a).toNat < n then w.extractLsb' (8 * (b - a).toNat) 8 else m b

/-- Some words in a row. -/
def loadWords (m : Memory) (a : Word) : Nat → List Word
  | 0 => []
  | n + 1 => m.load a 4 :: loadWords m (a + 4) n

/-- Memory with words stored in a row. -/
def storeWords (m : Memory) (a : Word) : List Word → Memory
  | [] => m
  | w :: ws => storeWords (m.store a 4 w) (a + 4) ws

/-- Addresses of a number of bytes from an address on. -/
def Within (a : Word) (n : Nat) (b : Word) : Prop :=
  (b - a).toNat < n

theorem load_congr {m m' : Memory} {a : Word} {n : Nat} (hn : n ≤ 2 ^ 32)
    (h : ∀ b, Within a n b → m' b = m b) : m'.load a n = m.load a n := by
  induction n generalizing a with
  | zero => rfl
  | succ n ih =>
    have hhead : m' a = m a := h a (by simp [Within])
    have htail : m'.load (a + 1) n = m.load (a + 1) n := by
      refine ih (by omega) fun b hb => h b ?_
      simp only [Within] at hb ⊢
      bv_omega
    rw [load, load, hhead, htail]

theorem loadWords_congr {m m' : Memory} {a : Word} {n : Nat} (hn : 4 * n ≤ 2 ^ 32)
    (h : ∀ b, Within a (4 * n) b → m' b = m b) : m'.loadWords a n = m.loadWords a n := by
  induction n generalizing a with
  | zero => rfl
  | succ n ih =>
    have hhead : m'.load a 4 = m.load a 4 := by
      refine load_congr (by omega) fun b hb => h b ?_
      simp only [Within] at hb ⊢
      omega
    have htail : m'.loadWords (a + 4) n = m.loadWords (a + 4) n := by
      refine ih (by omega) fun b hb => h b ?_
      simp only [Within] at hb ⊢
      bv_omega
    rw [loadWords, loadWords, hhead, htail]

theorem store_of_not_within {m : Memory} {a b w : Word} {n : Nat} (h : ¬ Within a n b) :
    m.store a n w b = m b :=
  if_neg h

theorem storeWords_of_not_within {m : Memory} {a b : Word} {ws : List Word}
    (h : ¬ Within a (4 * ws.length) b) (hn : 4 * ws.length ≤ 2 ^ 32) :
    m.storeWords a ws b = m b := by
  induction ws generalizing m a with
  | nil => rfl
  | cons w ws ih =>
    simp only [Within, List.length_cons] at h hn
    have hhead : ¬ Within a 4 b := by
      simp only [Within]
      omega
    have htail : ¬ Within (a + 4) (4 * ws.length) b := by
      simp only [Within]
      bv_omega
    rw [storeWords, ih htail (by omega), store_of_not_within hhead]

theorem load_store (m : Memory) (a w : Word) : (m.store a 4 w).load a 4 = w := by
  have h1 : (a + 1 - a).toNat = 1 := by bv_omega
  have h2 : (a + 1 + 1 - a).toNat = 2 := by bv_omega
  have h3 : (a + 1 + 1 + 1 - a).toNat = 3 := by bv_omega
  simp only [load, store, BitVec.sub_self, h1, h2, h3]
  ext i hi
  simp [BitVec.getElem_or, BitVec.getElem_shiftLeft, BitVec.getElem_setWidth]
  grind

theorem loadWords_storeWords {m : Memory} {a : Word} {ws : List Word}
    (hn : 4 * ws.length ≤ 2 ^ 32) : (m.storeWords a ws).loadWords a ws.length = ws := by
  induction ws generalizing m a with
  | nil => rfl
  | cons w ws ih =>
    simp only [List.length_cons] at hn
    have hhead : (m.storeWords a (w :: ws)).load a 4 = w := by
      rw [storeWords, load_congr (m := m.store a 4 w) (by omega), load_store]
      intro b hb
      refine storeWords_of_not_within ?_ (by omega)
      simp only [Within] at hb ⊢
      bv_omega
    rw [List.length_cons, loadWords, hhead, storeWords, ih (by omega)]

end Memory

/-! ## Instructions -/

namespace Inst

/-- The register in an operand; `noreg` if there is none. -/
def register (i : Inst) (n : Nat) : Reg :=
  (i.operands[n]?.map Operand.register).getD .noreg

/-- The integer in an operand; zero if there is none. -/
def immediate (i : Inst) (n : Nat) : Int64 :=
  (i.operands[n]?.map Operand.value).getD 0

/-- The byte offset in the immediate field of a load or store, after its base register. -/
def displacement (i : Inst) : Int64 :=
  match i.info.family.field.position with
  | some k => i.info.family.field.decode (i.immediate (1 + k))
  | none => 0

end Inst

/-- What a load or store does at its address. -/
inductive Access where
  /-- Loads some bytes into a register. -/
  | load (bytes : Nat)
  /-- Loads two bytes with their sign. -/
  | loadSigned
  /-- Loads all words of a register. -/
  | loadWords (count : Nat)
  /-- Stores the low bytes of a register. -/
  | store (bytes : Nat)
  /-- Stores all words of a register. -/
  | storeWords

namespace Access

/-- The state after an access to a register and an address. -/
def result (k : Access) (a : Word) (r : Reg) (s : State) : State :=
  match k with
  | .load n => s.write r (s.mem.load a n)
  | .loadSigned => s.write r (((s.mem.load a 2).setWidth 16).signExtend 32)
  | .loadWords n => s.assign r (s.mem.loadWords a n)
  | .store n => { s with mem := s.mem.store a n (s.read r) }
  | .storeWords => { s with mem := s.mem.storeWords a (s.value r) }

end Access

/-- The access that an opcode makes, if it is a load or store. What a load of a constant
finds is left open. -/
def Opcode.access? : Opcode → Option Access
  | .ldr | .t2ldri12 | .t2ldri8 | .t2ldrs | .tldrspi => some (.load 4)
  | .ldrb => some (.load 1)
  | .ldrh => some (.load 2)
  | .ldrsh => some .loadSigned
  | .flds => some (.loadWords 1)
  | .fldd => some (.loadWords 2)
  | .str | .t2stri12 | .t2stri8 | .t2strs | .tstrspi => some (.store 4)
  | .strb => some (.store 1)
  | .strh => some (.store 2)
  | .fsts | .fstd => some .storeWords
  | _ => none

/-- Families whose addresses have an index register after the base. -/
def Family.isIndexed : Family → Bool
  | .mode2 | .mode3 | .t2so => true
  | _ => false

namespace Inst

/-- The value of the index register of a load or store; zero without one. -/
def indexValue (i : Inst) (s : State) : Word :=
  if i.info.family.isIndexed then s.read (i.register 2) else 0

/-- The address that a load or store accesses: the sum of base, index and offset. -/
def address (i : Inst) (s : State) : Word :=
  s.read (i.register 1) + i.indexValue s + ImmediateField.word i.displacement

/-- Whether the condition of an instruction holds. -/
def Enabled (i : Inst) (s : State) : Prop :=
  i.predicate.1 = Cond.al ∨ s.flags i.predicate.1

/-- Registers that an instruction can change: those it names, and those that a call
destroys. -/
def reach (i : Inst) : List Reg :=
  i.operands.map Operand.register ++ if i.info.flags.isCall then Opcode.clobbers else []

/-- What an instruction whose condition holds can do. Code after a return is not reached. -/
def Acts (i : Inst) (s s' : State) : Prop :=
  let dst := i.register 0
  match i.op.access? with
  | some k => s' = k.result (i.address s) dst s
  | none =>
    match i.op with
    | .addri | .t2addri =>
      s' = s.write dst (s.read (i.register 1) + ImmediateField.word (i.immediate 2))
    | .subri | .t2subri =>
      s' = s.write dst (s.read (i.register 1) - ImmediateField.word (i.immediate 2))
    | .addrr => s' = s.write dst (s.read (i.register 1) + s.read (i.register 2))
    | .movr | .t2movr | .tmovr => s' = s.write dst (s.read (i.register 1))
    | .movi => s' = s.write dst (ImmediateField.word (i.immediate 1))
    | .ldrcp => ∃ w, s' = s.write dst w
    | .bl | .t2bl | .tbl => s.AgreesOff Opcode.clobbers s'
    | .inlineAsm => s.AgreesOff (i.operands.map Operand.register) s'
    | .bxRet | .tbxRet => False
    | _ => s' = s

/-- What an instruction can do: nothing if its condition does not hold. -/
def Effect (i : Inst) (s s' : State) : Prop :=
  (i.Enabled s ∧ i.Acts s s') ∨ (¬ i.Enabled s ∧ s' = s)

theorem effect_iff_acts {i : Inst} {s s' : State} (h : i.predicate.1 = Cond.al) :
    i.Effect s s' ↔ i.Acts s s' := by
  have he : i.Enabled s := .inl h
  simp [Effect, he]

theorem agreesOff_reach_assign (i : Inst) (s : State) (ws : List Word) :
    s.AgreesOff i.reach (s.assign (i.register 0) ws) := by
  intro c hc
  refine State.cells_assign_of_notMem ?_
  cases hop : i.operands[0]? with
  | none => simp [register, hop, Reg.cells]
  | some o =>
    have hmem : o.register ∈ i.reach :=
      List.mem_append_left _ (List.mem_map_of_mem (List.mem_of_getElem? hop))
    simpa [register, hop] using hc _ hmem

theorem agreesOff_reach_result (i : Inst) (k : Access) (a : Word) (s : State) :
    s.AgreesOff i.reach (k.result a (i.register 0) s) := by
  cases k with
  | load n => exact agreesOff_reach_assign i s _
  | loadSigned => exact agreesOff_reach_assign i s _
  | loadWords n => exact agreesOff_reach_assign i s _
  | store n => exact fun _ _ => rfl
  | storeWords => exact fun _ _ => rfl

/-- An instruction changes only the registers in its reach. -/
theorem Effect.agreesOff {i : Inst} {s s' : State} (h : i.Effect s s') :
    s.AgreesOff i.reach s' := by
  rcases h with ⟨-, h⟩ | ⟨-, rfl⟩
  · rw [Acts] at h
    cases hk : i.op.access? with
    | some k =>
      simp only [hk] at h
      subst h
      exact agreesOff_reach_result i k _ s
    | none =>
      obtain ⟨op, os⟩ := i
      cases op
      case bl | t2bl | tbl =>
        exact fun c hc => h c fun r hr => hc r (List.mem_append_right _ hr)
      case inlineAsm => exact fun c hc => h c fun r hr => hc r (List.mem_append_left _ hr)
      case ldrcp =>
        obtain ⟨w, rfl⟩ := h
        exact agreesOff_reach_assign _ s _
      case bxRet | tbxRet => exact h.elim
      case addri | t2addri | subri | t2subri | addrr | movr | t2movr | tmovr | movi =>
        subst h
        exact agreesOff_reach_assign _ s _
      case callFrameDown | callFrameUp =>
        subst h
        exact fun _ _ => rfl
      all_goals exact absurd hk (by simp [Opcode.access?])
  · exact fun _ _ => rfl

end Inst

/-! ## Runs -/

/-- A place in the execution of a function: the lines that are left of a block. -/
structure Point where
  block : Nat
  rest : List Line
  state : State

/-- One step of a function, where steps of lines are restricted to those allowed: a line is
executed, or control passes from the end of a block to a successor. -/
inductive Step (p : Procedure) (allowed : Line → State → State → Prop) : Point → Point → Prop
  | line {b : Nat} {l : Line} {ls : List Line} {s s' : State} (heff : l.inst.Effect s s')
      (hallowed : allowed l s s') : Step p allowed ⟨b, l :: ls, s⟩ ⟨b, ls, s'⟩
  | jump {b c : Nat} {k m : Block} {s : State} (hb : p.blocks[b]? = some k)
      (hc : c ∈ k.successors) (hm : p.blocks[c]? = some m) :
      Step p allowed ⟨b, [], s⟩ ⟨c, m.lines, s⟩

/-- A place that a function reaches from its entry. -/
def Reaches (p : Procedure) (allowed : Line → State → State → Prop) (entry : State) (c : Point) :
    Prop :=
  ReflTransGen (Step p allowed) ⟨0, p.lines 0, entry⟩ c

/-- A place that a function reaches by way of some blocks. They are in `path`, the last one first,
as often as the run has gone into them. -/
inductive ReachesBy (p : Procedure) (allowed : Line → State → State → Prop) (entry : State) :
    List Nat → Point → Prop
  | start : ReachesBy p allowed entry [0] ⟨0, p.lines 0, entry⟩
  | line {path : List Nat} {c d : Point} (h : ReachesBy p allowed entry path c)
      (hstep : Step p allowed c d) (hrest : c.rest ≠ []) : ReachesBy p allowed entry path d
  | jump {path : List Nat} {c d : Point} (h : ReachesBy p allowed entry path c)
      (hstep : Step p allowed c d) (hrest : c.rest = []) :
      ReachesBy p allowed entry (d.block :: path) d

theorem reaches_iff_exists_path {p : Procedure} {allowed : Line → State → State → Prop}
    {entry : State} {c : Point} :
    Reaches p allowed entry c ↔ ∃ path, ReachesBy p allowed entry path c := by
  constructor
  · intro h
    induction h with
    | refl => exact ⟨[0], .start⟩
    | @tail c _ _ hstep ih =>
      obtain ⟨path, hpath⟩ := ih
      by_cases hrest : c.rest = []
      · exact ⟨_, .jump hpath hstep hrest⟩
      · exact ⟨_, .line hpath hstep hrest⟩
  · rintro ⟨path, h⟩
    induction h with
    | start => exact .refl
    | line _ hstep _ ih => exact ih.tail hstep
    | jump _ hstep _ ih => exact ih.tail hstep

/-- A run begins in the entry block. -/
theorem ReachesBy.count_pos {p : Procedure} {allowed : Line → State → State → Prop} {entry : State}
    {path : List Nat} {c : Point} (h : ReachesBy p allowed entry path c) : 0 < path.count 0 := by
  induction h with
  | start => exact Nat.one_pos
  | line _ _ _ ih => exact ih
  | jump _ _ _ ih => exact ih.trans_le List.count_le_count_cons

/-- It does not come there again if no block leads there. -/
theorem ReachesBy.count_eq_one {p : Procedure} {allowed : Line → State → State → Prop}
    {entry : State} {path : List Nat} {c : Point} (h : ReachesBy p allowed entry path c)
    (hnobody : ∀ b ∈ p.blocks, 0 ∉ b.successors) : path.count 0 = 1 := by
  induction h with
  | start => rfl
  | line _ _ _ ih => exact ih
  | jump _ hstep hrest ih =>
    cases hstep with
    | line => cases hrest
    | jump hb hc _ =>
      rw [List.count_cons_of_ne, ih]
      rintro rfl
      exact hnobody _ (List.mem_of_getElem? hb) hc

end FrameLowering
