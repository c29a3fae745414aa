import FrameLowering.Proofs.BuiltFunction
import FrameLowering.Proofs.InstructionText

/-!
# Faults of descriptions

What a description can do wrong is meant to be reported as an error. The operations that put a
function together have contracts of their own, and a part that breaks one is met as a fault. Each
check in front of them is one of two kinds. A check of the first kind never leads to a fault: it
passes if a property of the description holds, and reports an error if not (`Checks`). That is so
for the convention, the used registers, the objects and the successors. The texts of instructions
are of the second kind, since the number of a virtual register has no upper bound in a text
(`Operand.parse_eq_fault_iff`). A fault ends the work, so it is met only if everything that comes
before it is right (`Meets`). The main statement says which descriptions end in which fault
(`FunctionDesc.fault?_eq_some_iff`).
-/

namespace FrameLowering

/-- The fault that a computation ends in, where `fault?` is the one behind an error. -/
def faultOf {ε α : Type} (fault? : ε → Option Fault) : Except ε α → Option Fault
  | .ok _ => none
  | .error e => fault? e

/-- Along a list there is an element with `q`, and those before it have `p`. -/
def Meets {α : Type} (p q : α → Prop) (xs : List α) : Prop :=
  ∃ before x after, xs = before ++ x :: after ∧ (∀ y ∈ before, p y) ∧ q x

section Meets

variable {α : Type} {p q : α → Prop}

theorem not_meets_nil : ¬ Meets p q [] := by
  rintro ⟨before, x, after, heq, -⟩
  exact List.append_ne_nil_of_right_ne_nil before (List.cons_ne_nil x after) heq.symm

theorem meets_cons {x : α} {xs : List α} : Meets p q (x :: xs) ↔ q x ∨ p x ∧ Meets p q xs := by
  constructor
  · rintro ⟨before, y, after, heq, hp, hq⟩
    cases before with
    | nil =>
      obtain ⟨rfl, rfl⟩ := List.cons.inj heq
      exact .inl hq
    | cons z before =>
      obtain ⟨rfl, rfl⟩ := List.cons.inj heq
      obtain ⟨hx, hp⟩ := List.forall_mem_cons.1 hp
      exact .inr ⟨hx, before, y, after, rfl, hp, hq⟩
  · rintro (hq | ⟨hx, before, y, after, rfl, hp, hq⟩)
    · exact ⟨[], x, xs, rfl, fun y hy => absurd hy List.not_mem_nil, hq⟩
    · exact ⟨x :: before, y, after, rfl, List.forall_mem_cons.2 ⟨hx, hp⟩, hq⟩

/-- What is met can be named before it is looked for. -/
theorem meets_exists {β : Type} {q : α → β → Prop} {r : β → Prop} {xs : List α} :
    Meets p (fun x => ∃ b, q x b ∧ r b) xs ↔ ∃ b, Meets p (fun x => q x b) xs ∧ r b := by
  constructor
  · rintro ⟨before, x, after, heq, hp, b, hq, hr⟩
    exact ⟨b, ⟨before, x, after, heq, hp, hq⟩, hr⟩
  · rintro ⟨b, ⟨before, x, after, heq, hp, hq⟩, hr⟩
    exact ⟨before, x, after, heq, hp, b, hq, hr⟩

end Meets

/-! ## Texts of instructions -/

namespace Operand

/-- The text of a virtual register whose number is past the last one. -/
def IsVirtualPast (cs : List Char) (n : Int) : Prop :=
  ∃ ds v, cs = '%' :: ds ∧ Text.readInt ds = .ok v ∧ n = v.toInt ∧ Reg.virtualCount ≤ n

theorem isVirtualPast_cons_iff {ds : List Char} {n : Int} :
    IsVirtualPast ('%' :: ds) n ↔
      ∃ v, Text.readInt ds = .ok v ∧ n = v.toInt ∧ Reg.virtualCount ≤ n := by
  constructor
  · rintro ⟨es, v, heq, hv⟩
    obtain ⟨-, rfl⟩ := List.cons.inj heq
    exact ⟨v, hv⟩
  · rintro ⟨v, hv⟩
    exact ⟨ds, v, rfl, hv⟩

/-- Numbers below zero are refused before the contract of `Reg.ofVirtual` is at stake; those past
the last register are not. -/
theorem parseVirtual_eq_fault_iff {cs ds : List Char} {f : Fault} :
    parseVirtual cs ds = .error (.fault f) ↔
      ∃ n, IsVirtualPast ('%' :: ds) n ∧ f = .virtualOutOfRange n := by
  simp only [isVirtualPast_cons_iff]
  rw [parseVirtual]
  cases hread : Text.readInt ds with
  | error e => simp
  | ok v =>
    have hneg : v < 0 ↔ v.toInt < 0 := Int64.lt_iff_toInt_lt
    by_cases hv : v < 0
    · have hlow : ¬ ((Reg.virtualCount : Int) ≤ v.toInt) := by
        have := hneg.1 hv
        omega
      simp [hv, hlow]
    · have hnonneg : 0 ≤ v.toInt := by
        have := mt hneg.2 hv
        omega
      by_cases hlast : v.toInt < Reg.virtualCount
      · have hok : ¬ ((Reg.virtualCount : Int) ≤ v.toInt) := by omega
        simp [hv, Reg.ofVirtual, hnonneg, hlast, hok]
      · have hpast : (Reg.virtualCount : Int) ≤ v.toInt := by omega
        simp [hv, Reg.ofVirtual, hlast, hpast, eq_comm]

/-- No other kind of operand has a contract that its text could break. -/
theorem parse_eq_fault_iff {cs : List Char} {f : Fault} :
    parse cs = .error (.fault f) ↔ ∃ n, IsVirtualPast cs n ∧ f = .virtualOutOfRange n := by
  -- a text of another kind starts with another character
  have hother (hhead : ∀ ds, cs ≠ '%' :: ds) :
      ¬ ∃ n, IsVirtualPast cs n ∧ f = .virtualOutOfRange n := by
    rintro ⟨n, ⟨ds, v, heq, -⟩, -⟩
    exact hhead ds heq
  unfold parse
  split
  · next hnone =>
    subst hnone
    exact iff_of_false (by simp) (hother (by simp [Reg.chars]))
  split
  · exact iff_of_false (by simp) (hother (by simp))
  · refine iff_of_false ?_ (hother (by simp))
    rw [parseImmediate]
    split <;> simp
  · refine iff_of_false ?_ (hother (by simp))
    rw [parseFrameIndex]
    split <;> simp
  · refine iff_of_false ?_ (hother (by simp))
    rw [parseConstPool]
    split
    · split <;> simp
    · simp
  · refine iff_of_false ?_ (hother (by simp))
    rw [parseCondition]
    split <;> simp
  · exact parseVirtual_eq_fault_iff
  · next hhead =>
    refine iff_of_false ?_ (hother hhead)
    rw [parseRegister]
    split <;> simp

end Operand

namespace Inst

/-- A text whose opcode is known, in which the first operand that cannot be read is a virtual
register past the last one. -/
def NamesVirtualPast (cs : List Char) (n : Int) : Prop :=
  (Opcode.ofName? (Text.cut ' ' (Text.trim cs)).1).isSome ∧
    Meets (fun t => (Operand.parse (Text.trim t)).isOk)
      (fun t => Operand.IsVirtualPast (Text.trim t) n)
      (operandTexts (Text.cut ' ' (Text.trim cs)).2)

theorem faultOf_parseOperands (op : Opcode) {ts : List (List Char)} {f : Fault} :
    faultOf InstError.fault? (parseOperands op ts) = some f ↔
      Meets (fun t => (Operand.parse (Text.trim t)).isOk)
        (fun t => Operand.parse (Text.trim t) = .error (.fault f)) ts := by
  induction ts with
  | nil => exact iff_of_false (by simp [parseOperands, faultOf]) not_meets_nil
  | cons t ts ih =>
    rw [meets_cons, ← ih, parseOperands]
    cases hparse : Operand.parse (Text.trim t) with
    | error e => cases e <;> simp [faultOf, InstError.fault?, Except.isOk, Except.toBool]
    | ok o => cases parseOperands op ts <;> simp [faultOf, Except.isOk, Except.toBool]

theorem faultOf_parse {cs : List Char} {f : Fault} :
    faultOf InstError.fault? (parse cs) = some f ↔
      ∃ n, NamesVirtualPast cs n ∧ f = .virtualOutOfRange n := by
  simp only [NamesVirtualPast, and_assoc, exists_and_left]
  rw [← meets_exists]
  simp only [← Operand.parse_eq_fault_iff]
  rw [parse]
  cases hop : Opcode.ofName? (Text.cut ' ' (Text.trim cs)).1 with
  | none => simp [hop, faultOf, InstError.fault?]
  | some op =>
    simp only [hop, Option.isSome_some, true_and]
    rw [← faultOf_parseOperands op]
    cases parseOperands op (operandTexts (Text.cut ' ' (Text.trim cs)).2) with
    | error e => rfl
    | ok os =>
      -- a wrong number of operands is an error, and no fault
      simp only
      split <;> simp [faultOf, InstError.fault?]

end Inst

/-! ## Checks -/

/-- A check of `p` that leads to no fault. -/
inductive Checks {α : Type} (p : Prop) : Except BuildError α → Prop
  | pass (a : α) (h : p) : Checks p (.ok a)
  | fail (e : BuildError) (h : ¬ p) (hfault : e.fault? = none) : Checks p (.error e)

namespace Checks

variable {α β : Type} {p q : Prop} {x : Except BuildError α} {f : Fault}

theorem congr (h : Checks p x) (hpq : p ↔ q) : Checks q x := by
  rwa [← propext hpq]

/-- After a check, faults are those of what follows, as long as it passes. -/
theorem faultOf_bind (h : Checks p x) {k : α → Except BuildError β}
    (hk : ∀ a, faultOf BuildError.fault? (k a) = some f ↔ q) :
    faultOf BuildError.fault? (x.bind k) = some f ↔ p ∧ q := by
  cases h with
  | pass a h => exact (hk a).trans (iff_and_self.2 fun _ => h)
  | fail e h hfault =>
    refine iff_of_false ?_ fun hpq => h hpq.1
    show e.fault? ≠ some f
    rw [hfault]
    exact Option.some_ne_none f ∘ Eq.symm

end Checks

/-- An error that is no fault keeps what follows from being reached. -/
theorem faultOf_guard {α : Type} {c : Prop} [Decidable c] {e : BuildError}
    {x : Except BuildError α} {f : Fault} (he : e.fault? = none) :
    faultOf BuildError.fault? (if c then .error e else x) = some f ↔
      ¬ c ∧ faultOf BuildError.fault? x = some f := by
  by_cases hc : c <;> simp [hc, faultOf, he]

/-- An object that a frame can hold. -/
def ObjectDesc.IsPossible (o : ObjectDesc) : Prop :=
  0 ≤ o.size ∧ (o.fixed ∨ FunctionDesc.isAlignment (FunctionDesc.alignOf o))

namespace FunctionDesc

theorem checks_findAbi (d : FunctionDesc) :
    Checks (d.abi = "" ∨ (Abi.ofName? d.abi).isSome) d.findAbi := by
  rw [findAbi]
  split
  · next hnone => exact .pass _ (.inl hnone)
  next hnamed =>
  cases hfind : Abi.ofName? d.abi with
  | some abi => exact .pass _ (.inr rfl)
  | none => exact .fail _ (by simp [hnamed]) rfl

/-- Every register that has a name is physical, so a known name can be recorded as used. -/
theorem checks_buildUsed (name : String) (t : RegTable) (rs : List String) :
    Checks (∀ r ∈ rs, (Reg.ofName? r.toList).isSome) (buildUsed name t rs) := by
  induction rs generalizing t with
  | nil => exact .pass _ fun r hr => absurd hr List.not_mem_nil
  | cons r rs ih =>
    rw [buildUsed]
    cases hname : Reg.ofName? r.toList with
    | none => exact .fail _ (by simp [hname]) rfl
    | some reg =>
      have hphysical : ∀ q ∈ Reg.physical, q.isPhysical := by decide
      have hreg := hphysical reg (Reg.mem_physical_of_ofName? hname)
      simp only [hreg, RegTable.useChecked, if_true]
      exact (ih (t.use reg)).congr (by simp [hname])

theorem checks_buildObjects (name : String) (index : Nat) (f : Frame) (os : List ObjectDesc) :
    Checks (∀ o ∈ os, o.IsPossible) (buildObjects name index f os) := by
  induction os generalizing index f with
  | nil => exact .pass _ fun o ho => absurd ho List.not_mem_nil
  | cons o os ih =>
    rw [buildObjects_cons]
    by_cases hsize : o.size < 0
    · rw [if_pos hsize]
      refine .fail _ (fun h => ?_) rfl
      exact Int64.not_lt.2 (h o List.mem_cons_self).1 hsize
    have hnonneg := Int64.not_lt.1 hsize
    simp only [if_neg hsize, isShape_iff_isAlignment hsize]
    by_cases hfixed : o.fixed
    · rw [if_pos hfixed]
      refine (ih _ _).congr ?_
      simp [ObjectDesc.IsPossible, hnonneg, hfixed]
    rw [if_neg hfixed]
    by_cases halign : isAlignment (alignOf o)
    · rw [if_pos halign]
      refine (ih _ _).congr ?_
      simp [ObjectDesc.IsPossible, hnonneg, halign]
    · rw [if_neg halign]
      refine .fail _ (fun h => ?_) rfl
      rcases (h o List.mem_cons_self).2 with h | h
      · exact hfixed h
      · exact halign h

theorem checks_buildSuccessors (name : String) (count block : Nat) (ss : List Int64) :
    Checks (∀ s ∈ ss, 0 ≤ s ∧ s < Int64.ofNat count) (buildSuccessors name count block ss) := by
  induction ss with
  | nil => exact .pass _ fun s hs => absurd hs List.not_mem_nil
  | cons s ss ih =>
    rw [buildSuccessors]
    by_cases hs : s < 0 ∨ Int64.ofNat count ≤ s
    · rw [if_pos hs]
      refine .fail _ (fun h => ?_) rfl
      obtain ⟨hlow, hhigh⟩ := h s List.mem_cons_self
      rcases hs with hs | hs
      · exact Int64.not_lt.2 hlow hs
      · exact Int64.not_lt.2 hs hhigh
    · rw [if_neg hs]
      rw [not_or, Int64.not_lt, Int64.not_le] at hs
      generalize buildSuccessors name count block ss = x at ih
      cases ih with
      | pass a h => exact .pass _ (List.forall_mem_cons.2 ⟨hs, h⟩)
      | fail e h hfault => exact .fail e (fun h' => h (List.forall_mem_cons.1 h').2) hfault

end FunctionDesc

/-! ## Blocks -/

/-- A block whose instructions can be read and whose successors exist. -/
structure BlockDesc.IsRight (count : Nat) (b : BlockDesc) : Prop where
  insts : ∀ t ∈ b.insts, (Inst.parse t.toList).isOk
  successors : ∀ s ∈ b.successors, 0 ≤ s ∧ s < Int64.ofNat count

/-- A block in which the first instruction that cannot be read has a virtual register past the last
one. -/
def BlockDesc.NamesVirtualPast (b : BlockDesc) (n : Int) : Prop :=
  Meets (fun t => (Inst.parse t.toList).isOk) (fun t => Inst.NamesVirtualPast t.toList n) b.insts

namespace FunctionDesc

theorem isOk_buildInsts (name : String) (block index : Nat) {ts : List String} :
    (buildInsts name block index ts).isOk ↔ ∀ t ∈ ts, (Inst.parse t.toList).isOk := by
  induction ts generalizing index with
  | nil => simp [buildInsts, Except.isOk, Except.toBool]
  | cons t ts ih =>
    rw [List.forall_mem_cons, ← ih (index + 1), buildInsts]
    cases Inst.parse t.toList with
    | error e => simp [Except.isOk, Except.toBool]
    | ok i => cases buildInsts name block (index + 1) ts <;> simp [Except.isOk, Except.toBool]

theorem faultOf_buildInsts (name : String) (block index : Nat) {ts : List String} {f : Fault} :
    faultOf BuildError.fault? (buildInsts name block index ts) = some f ↔
      Meets (fun t => (Inst.parse t.toList).isOk)
        (fun t => faultOf InstError.fault? (Inst.parse t.toList) = some f) ts := by
  induction ts generalizing index with
  | nil => exact iff_of_false (by simp [buildInsts, faultOf]) not_meets_nil
  | cons t ts ih =>
    rw [meets_cons, ← ih (index + 1), buildInsts]
    cases Inst.parse t.toList with
    | error e => simp [faultOf, BuildError.fault?, Except.isOk, Except.toBool]
    | ok i =>
      cases buildInsts name block (index + 1) ts <;> simp [faultOf, Except.isOk, Except.toBool]

/-- Blocks are made in turn, each with its instructions before its successors. -/
theorem faultOf_buildBlocks (name : String) (count block fresh : Nat) {bs : List BlockDesc}
    {f : Fault} :
    faultOf BuildError.fault? (buildBlocks name count block fresh bs) = some f ↔
      ∃ n, Meets (BlockDesc.IsRight count) (fun b => b.NamesVirtualPast n) bs ∧
        f = .virtualOutOfRange n := by
  rw [← meets_exists]
  simp only [BlockDesc.NamesVirtualPast, ← meets_exists, ← Inst.faultOf_parse]
  induction bs generalizing block fresh with
  | nil => exact iff_of_false (by simp [buildBlocks, faultOf]) not_meets_nil
  | cons b bs ih =>
    rw [meets_cons, buildBlocks, ← faultOf_buildInsts name block 0]
    have hinsts : (buildInsts name block 0 b.insts).isOk ↔ _ := isOk_buildInsts name block 0
    cases hmade : buildInsts name block 0 b.insts with
    | error e =>
      rw [hmade] at hinsts
      have hwrong : ¬ b.IsRight count := fun h => Bool.false_ne_true (hinsts.2 h.insts)
      exact (or_iff_left fun h => hwrong h.1).symm
    | ok is =>
      rw [hmade] at hinsts
      have hright : (∀ s ∈ b.successors, 0 ≤ s ∧ s < Int64.ofNat count) ↔ b.IsRight count :=
        ⟨fun h => ⟨hinsts.1 rfl, h⟩, BlockDesc.IsRight.successors⟩
      have hchecks := (checks_buildSuccessors name count block b.successors).congr hright
      rw [or_iff_right (by simp [faultOf])]
      simp only
      generalize buildSuccessors name count block b.successors = made at hchecks
      cases hchecks with
      | fail e h hfault => exact iff_of_false (by simp [faultOf, hfault]) fun hmeets => h hmeets.1
      | pass successors h =>
        rw [and_iff_right h, ← ih (block + 1) (fresh + is.length)]
        cases buildBlocks name count (block + 1) (fresh + is.length) bs <;> rfl

/-! ## Functions -/

/-- A description that is right up to its blocks, of which it has some. -/
structure HeadIsRight (d : FunctionDesc) : Prop where
  name : d.name ≠ ""
  abi : d.abi = "" ∨ (Abi.ofName? d.abi).isSome
  sizes : d.hasFrameSizes
  used : ∀ r ∈ d.used, (Reg.ofName? r.toList).isSome
  objects : ∀ o ∈ d.objects, o.IsPossible
  blocks : d.blocks ≠ []

/-- The blocks of a description are right up to a virtual register that is past the last one. -/
def NamesVirtualPast (d : FunctionDesc) (n : Int) : Prop :=
  Meets (BlockDesc.IsRight d.blocks.length) (fun b => b.NamesVirtualPast n) d.blocks

/-- The fault that making the function of a description ends in. -/
def fault? (d : FunctionDesc) : Option Fault :=
  faultOf BuildError.fault? d.build

/-- What comes before the blocks leads to no fault, and neither does what comes after them. -/
theorem fault?_eq_some_iff_blocks {d : FunctionDesc} {f : Fault} :
    d.fault? = some f ↔ d.HeadIsRight ∧
      faultOf BuildError.fault? (if maxBlocks < d.blocks.length then .error (.fault .tooManyBlocks)
        else buildBlocks d.name d.blocks.length 0 0 d.blocks) = some f := by
  have hthrow {ε α : Type} (e : ε) : (throw e : Except ε α) = .error e := rfl
  have hbind {ε α β : Type} (e : ε) (k : α → Except ε β) :
    Except.bind (.error e) k = .error e := rfl
  -- the checks one after the other, in the order of `HeadIsRight`
  have hchecks : d.fault? = some f ↔ d.name ≠ "" ∧ (d.abi = "" ∨ (Abi.ofName? d.abi).isSome) ∧
      ¬ (!d.hasFrameSizes) ∧ (∀ r ∈ d.used, (Reg.ofName? r.toList).isSome) ∧
      (∀ o ∈ d.objects, o.IsPossible) ∧ d.blocks ≠ [] ∧
      faultOf BuildError.fault? (if maxBlocks < d.blocks.length then .error (.fault .tooManyBlocks)
        else buildBlocks d.name d.blocks.length 0 0 d.blocks) = some f := by
    rw [fault?, build]
    simp only [bind, pure, Except.pure, hthrow, hbind]
    refine (faultOf_guard rfl).trans (and_congr_right' ?_)
    refine (checks_findAbi d).faultOf_bind fun abi => ?_
    refine (faultOf_guard rfl).trans (and_congr_right' ?_)
    refine (checks_buildUsed d.name {} d.used).faultOf_bind fun regs => ?_
    refine (checks_buildObjects d.name 0 d.startFrame d.objects).faultOf_bind fun frame => ?_
    refine (faultOf_guard rfl).trans (and_congr_right' ?_)
    split
    · rfl
    · cases buildBlocks d.name d.blocks.length 0 0 d.blocks <;> rfl
  rw [hchecks]
  constructor
  · rintro ⟨hname, habi, hsizes, hused, hobjects, hblocks, hfault⟩
    exact ⟨⟨hname, habi, by simpa using hsizes, hused, hobjects, hblocks⟩, hfault⟩
  · rintro ⟨h, hfault⟩
    exact ⟨h.name, h.abi, by simp [h.sizes], h.used, h.objects, h.blocks, hfault⟩

/-- Two faults are left: more blocks than there are numbers for, and a virtual register past the
last one, where everything before it is right. All other descriptions make a function or end in an
error. -/
theorem fault?_eq_some_iff (d : FunctionDesc) (f : Fault) :
    d.fault? = some f ↔ d.HeadIsRight ∧
      ((maxBlocks < d.blocks.length ∧ f = .tooManyBlocks) ∨
        (d.blocks.length ≤ maxBlocks ∧ ∃ n, d.NamesVirtualPast n ∧ f = .virtualOutOfRange n)) := by
  rw [fault?_eq_some_iff_blocks]
  refine and_congr_right' ?_
  by_cases hcount : maxBlocks < d.blocks.length
  · rw [if_pos hcount, and_iff_right hcount, or_iff_left fun h => Nat.not_lt.2 h.1 hcount]
    exact Option.some_inj.trans eq_comm
  · rw [if_neg hcount, or_iff_right fun h => hcount h.1, and_iff_right (Nat.not_lt.1 hcount)]
    exact faultOf_buildBlocks d.name d.blocks.length 0 0

/-- The first number past the last virtual register, in a function of one block. -/
theorem fault?_first_past :
    let b : BlockDesc := { insts := ["MOVr %32767, r0, cc:al, noreg", "BX_RET cc:al, noreg"] }
    let d : FunctionDesc := { name := "f", blocks := [b] }
    d.blocks.length < 2147483648 ∧ d.fault? = some (.virtualOutOfRange 32767) := by
  decide +kernel

end FunctionDesc

end FrameLowering
