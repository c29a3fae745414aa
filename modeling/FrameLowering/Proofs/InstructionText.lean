import FrameLowering.Code.Instruction
import Mathlib.Algebra.Group.Nat.Defs
import Mathlib.Tactic.Common

/-!
# Instruction text read back

Names are read in any case and by other spellings, integers in any base, and blanks around
operands do not count; an instruction is written in one way only. The module follows the text
from the inside out. A decimal numeral is read back by both readers of numerals
(`readInt_writeInt`, `readLiteral_writeInt`). The operands that can come from a text are
described by `Operand.IsRead`, and each of them is read back from the way it is written. Written
operands hold neither blanks nor commas, so the text of an instruction falls apart at its commas
into the operands that it was joined from. The main statement is that whatever text an
instruction was read from, reading what is written for it gives the same instruction again
(`Inst.parse_chars_of_parse`).
-/

namespace FrameLowering

namespace Text

/-! ## Numerals -/

theorem digitChar_facts : ∀ d < 10, digitValue? (Nat.digitChar d) = some d ∧
    Nat.digitChar d ∉ [',', '_', '+', '-'] ∧ isBlank (Nat.digitChar d) = false ∧
    (Nat.digitChar d = '0' → d = 0) := by
  decide

theorem readDigits_append (base : Nat) (marks : Bool) (n : Nat) (xs ys : List Char) :
    readDigits base marks n (xs ++ ys) =
      (readDigits base marks n xs).bind fun m => readDigits base marks m ys := by
  induction xs generalizing n with
  | nil => rfl
  | cons x xs ih =>
    rw [List.cons_append, readDigits, readDigits]
    split
    · exact ih n
    · cases digitValue? x with
      | none => rfl
      | some d =>
        simp only
        split
        · rfl
        · split
          · rfl
          · exact ih _

/-- The digits of a number lead to the number. -/
theorem readDigits_writeNat {n : Nat} (marks : Bool) (h : n < 2 ^ 64) :
    readDigits 10 marks 0 (writeNat n) = .ok n := by
  -- a number in decimals is its tenth part with one more digit behind
  have hdigit (m d : Nat) (hd : d < 10) (hm : m * 10 + d < 2 ^ 64) :
      readDigits 10 marks m [Nat.digitChar d] = .ok (m * 10 + d) := by
    obtain ⟨hvalue, hnot, -⟩ := digitChar_facts d hd
    have hmark : ¬ (marks ∧ Nat.digitChar d = '_') := by
      rintro ⟨-, heq⟩
      exact hnot (by simp [heq])
    rw [readDigits, if_neg hmark, hvalue]
    simp only
    rw [if_neg (by omega), if_neg (by omega), readDigits]
  induction n using Nat.strongRecOn with
  | ind n ih =>
    rw [writeNat, Nat.toDigits_eq_if (by decide)]
    split
    · next hlt =>
      rw [hdigit 0 n hlt (by omega)]
      simp
    · next hge =>
      have hrest := ih (n / 10) (by omega) (by omega)
      rw [writeNat] at hrest
      rw [readDigits_append, hrest]
      show readDigits 10 marks (n / 10) _ = _
      rw [hdigit _ _ (by omega) (by omega)]
      congr 1
      omega

theorem mem_writeNat {n : Nat} {c : Char} (h : c ∈ writeNat n) : ∃ d < 10, c = Nat.digitChar d := by
  induction n using Nat.strongRecOn with
  | ind n ih =>
    rw [writeNat, Nat.toDigits_eq_if (by decide)] at h
    split at h
    · next hlt =>
      obtain rfl := List.mem_singleton.1 h
      exact ⟨n, hlt, rfl⟩
    · next hge =>
      rcases List.mem_append.1 h with h | h
      · exact ih (n / 10) (by omega) h
      · obtain rfl := List.mem_singleton.1 h
        exact ⟨n % 10, Nat.mod_lt n (by decide), rfl⟩

/-- A number in decimals starts with a digit, which is zero for zero only. -/
theorem writeNat_cons (n : Nat) :
    ∃ d ds, d < 10 ∧ writeNat n = Nat.digitChar d :: ds ∧ (d = 0 → n = 0 ∧ ds = []) := by
  induction n using Nat.strongRecOn with
  | ind n ih =>
    rw [writeNat, Nat.toDigits_eq_if (by decide)]
    split
    · next hlt => exact ⟨n, [], hlt, rfl, fun h => ⟨h, rfl⟩⟩
    · next hge =>
      obtain ⟨d, ds, hd, hdigits, hzero⟩ := ih (n / 10) (by omega)
      rw [writeNat] at hdigits
      refine ⟨d, _, hd, by rw [hdigits, List.cons_append], fun h => ?_⟩
      have := (hzero h).1
      omega

theorem splitSign_writeNat (n : Nat) : splitSign (writeNat n) = (false, writeNat n) := by
  obtain ⟨d, ds, hd, hdigits, -⟩ := writeNat_cons n
  obtain ⟨-, hnot, -⟩ := digitChar_facts d hd
  simp only [List.mem_cons, not_or] at hnot
  rw [hdigits, splitSign.eq_3]
  · intro cs heq
    exact hnot.2.2.1 (List.cons.inj heq).1
  · intro cs heq
    exact hnot.2.2.2.1 (List.cons.inj heq).1

theorem notMem_writeNat (n : Nat) : '_' ∉ writeNat n := by
  intro h
  obtain ⟨d, hd, heq⟩ := mem_writeNat h
  exact (digitChar_facts d hd).2.1 (heq ▸ by simp)

/-- Only zero is written with a zero in front, and there it marks a base without digits. -/
theorem readUnsignedLiteral_writeNat {n : Nat} (h : n < 2 ^ 64) :
    readUnsignedLiteral (writeNat n) = .ok n := by
  obtain ⟨d, ds, hd, hdigits, hzero⟩ := writeNat_cons n
  by_cases hd0 : d = 0
  · obtain ⟨rfl, -⟩ := hzero hd0
    rfl
  · have hbase : baseMark (writeNat n) = (10, writeNat n) := by
      have hne : Nat.digitChar d ≠ '0' := fun heq => hd0 ((digitChar_facts d hd).2.2.2 heq)
      rw [hdigits, baseMark.eq_3]
      · intro m c cs heq
        exact hne (List.cons.inj heq).1
      · intro cs heq
        exact hne (List.cons.inj heq).1
    have hnil : writeNat n ≠ [] := by
      rw [hdigits]
      exact List.cons_ne_nil _ _
    rw [readUnsignedLiteral, if_neg hnil, hbase]
    simp only [readDigits_writeNat true h]
    rw [if_neg fun hmark => notMem_writeNat n hmark.1]

theorem readUnsigned_writeNat {n : Nat} (h : n < 2 ^ 64) : readUnsigned (writeNat n) = .ok n := by
  obtain ⟨d, ds, -, hdigits, -⟩ := writeNat_cons n
  have hnil : writeNat n ≠ [] := by
    rw [hdigits]
    exact List.cons_ne_nil _ _
  rw [readUnsigned, if_neg hnil]
  exact readDigits_writeNat false h

/-- An integer is written as a sign and a magnitude that make it up again. -/
theorem writeInt_facts (v : Int64) : ∃ negative n, n < 2 ^ 64 ∧
    splitSign (writeInt v.toInt) = (negative, writeNat n) ∧ signedValue negative n = .ok v := by
  have hlo := v.le_toInt
  have hhi := v.toInt_lt
  have hback := Int64.ofInt_toInt v
  generalize v.toInt = n at hlo hhi hback
  cases n with
  | ofNat m =>
    rw [Int.ofNat_eq_natCast] at hlo hhi hback
    refine ⟨false, m, by omega, splitSign_writeNat m, ?_⟩
    rw [signedValue, if_neg (by decide), if_neg (by omega), hback]
  | negSucc m =>
    rw [Int.negSucc_eq] at hlo hhi hback
    refine ⟨true, m + 1, by omega, rfl, ?_⟩
    rw [signedValue, if_pos rfl, if_neg (by omega), Int.natCast_add, Int.natCast_one, hback]

theorem readInt_writeInt (v : Int64) : readInt (writeInt v.toInt) = .ok v := by
  obtain ⟨negative, n, hn, hsplit, hvalue⟩ := writeInt_facts v
  rw [readInt, hsplit]
  simp only [readUnsigned_writeNat hn, hvalue]

theorem readLiteral_writeInt (v : Int64) : readLiteral (writeInt v.toInt) = .ok v := by
  obtain ⟨negative, n, hn, hsplit, hvalue⟩ := writeInt_facts v
  rw [readLiteral, hsplit]
  simp only [readUnsignedLiteral_writeNat hn, hvalue]

/-! ## Blanks and commas -/

/-- A text that can stand as an operand: it is not empty, and no blank and no comma is in it. -/
structure IsToken (cs : List Char) : Prop where
  ne_nil : cs ≠ []
  plain : ∀ c ∈ cs, c ≠ ',' ∧ isBlank c = false

-- Decided along the text, not over all characters.
instance : DecidablePred IsToken := fun cs =>
  decidable_of_iff (cs ≠ [] ∧ cs.all (fun c => c != ',' && !isBlank c) = true) <| by
    simp only [List.all_eq_true, Bool.and_eq_true, bne_iff_ne, Bool.not_eq_true']
    exact ⟨fun h => ⟨h.1, h.2⟩, fun h => ⟨h.ne_nil, h.plain⟩⟩

/-- A text with no blank at either end, and with ends. -/
structure IsTrimmed (cs : List Char) : Prop where
  first : ∃ c rest, cs = c :: rest ∧ isBlank c = false
  last : ∃ front c, cs = front ++ [c] ∧ isBlank c = false

theorem isToken_cons {c : Char} {cs : List Char} (hc : c ≠ ',' ∧ isBlank c = false)
    (hcs : ∀ x ∈ cs, x ≠ ',' ∧ isBlank x = false) : IsToken (c :: cs) :=
  ⟨List.cons_ne_nil _ _, List.forall_mem_cons.2 ⟨hc, hcs⟩⟩

theorem plain_of_mem_writeNat {n : Nat} : ∀ c ∈ writeNat n, c ≠ ',' ∧ isBlank c = false := by
  intro c hc
  obtain ⟨d, hd, rfl⟩ := mem_writeNat hc
  obtain ⟨-, hnot, hblank, -⟩ := digitChar_facts d hd
  exact ⟨fun heq => hnot (heq ▸ by simp), hblank⟩

theorem plain_of_mem_writeInt {v : Int} : ∀ c ∈ writeInt v, c ≠ ',' ∧ isBlank c = false := by
  cases v with
  | ofNat m => exact plain_of_mem_writeNat
  | negSucc m => exact List.forall_mem_cons.2 ⟨by decide, plain_of_mem_writeNat⟩

theorem IsToken.isTrimmed {cs : List Char} (h : IsToken cs) : IsTrimmed cs := by
  constructor
  · obtain ⟨c, rest, rfl⟩ := List.exists_cons_of_ne_nil h.ne_nil
    exact ⟨c, rest, rfl, (h.plain c List.mem_cons_self).2⟩
  · have hlast := List.dropLast_concat_getLast h.ne_nil
    exact ⟨_, _, hlast.symm, (h.plain _ (List.getLast_mem h.ne_nil)).2⟩

theorem IsTrimmed.append {xs ys : List Char} (hx : IsTrimmed xs) (m : List Char)
    (hy : IsTrimmed ys) : IsTrimmed (xs ++ m ++ ys) := by
  obtain ⟨c, rest, rfl, hc⟩ := hx.first
  obtain ⟨front, d, rfl, hd⟩ := hy.last
  constructor
  · exact ⟨c, rest ++ m ++ (front ++ [d]), by simp only [List.cons_append], hc⟩
  · exact ⟨c :: rest ++ m ++ front, d, by simp only [List.append_assoc], hd⟩

theorem isTrimmed_joinWith {sep p : List Char} {ps : List (List Char)}
    (h : ∀ x ∈ p :: ps, IsTrimmed x) : IsTrimmed (joinWith sep (p :: ps)) := by
  induction ps generalizing p with
  | nil => exact h p List.mem_cons_self
  | cons q ps ih =>
    obtain ⟨hp, hrest⟩ := List.forall_mem_cons.1 h
    exact hp.append sep (ih hrest)

theorem trimEnd_append_singleton (cs : List Char) {c : Char} (hc : isBlank c = false) :
    trimEnd (cs ++ [c]) = cs ++ [c] := by
  induction cs with
  | nil =>
    rw [List.nil_append, trimEnd, trimEnd]
    simp [hc]
  | cons d cs ih =>
    rw [List.cons_append, trimEnd, ih]
    cases cs <;> rfl

theorem IsTrimmed.trim_eq {cs : List Char} (h : IsTrimmed cs) : trim cs = cs := by
  obtain ⟨c, rest, hfirst, hc⟩ := h.first
  obtain ⟨front, d, hlast, hd⟩ := h.last
  have hdrop : cs.dropWhile isBlank = cs := by
    rw [hfirst, List.dropWhile_cons, hc]
    rfl
  rw [trim, hdrop, hlast]
  exact trimEnd_append_singleton front hd

theorem IsTrimmed.trim_space {cs : List Char} (h : IsTrimmed cs) : trim (' ' :: cs) = cs := by
  have hdrop : (' ' :: cs).dropWhile isBlank = cs.dropWhile isBlank := by
    rw [List.dropWhile_cons]
    rfl
  rw [trim, hdrop]
  exact h.trim_eq

theorem cut_append {sep : Char} {xs : List Char} (h : sep ∉ xs) (ys : List Char) :
    cut sep (xs ++ sep :: ys) = (xs, ys) := by
  induction xs with
  | nil => simp [cut]
  | cons x xs ih =>
    obtain ⟨hx, hxs⟩ := not_or.1 (fun hor => h (List.mem_cons.2 hor))
    rw [List.cons_append, cut, if_neg (fun heq => hx heq.symm), ih hxs]

theorem cut_of_notMem {sep : Char} {xs : List Char} (h : sep ∉ xs) : cut sep xs = (xs, []) := by
  induction xs with
  | nil => rfl
  | cons x xs ih =>
    obtain ⟨hx, hxs⟩ := not_or.1 (fun hor => h (List.mem_cons.2 hor))
    rw [cut, if_neg (fun heq => hx heq.symm), ih hxs]

theorem splitOn_of_notMem {sep : Char} {xs : List Char} (h : sep ∉ xs) :
    splitOn sep xs = [xs] := by
  induction xs with
  | nil => rfl
  | cons x xs ih =>
    obtain ⟨hx, hxs⟩ := not_or.1 (fun hor => h (List.mem_cons.2 hor))
    rw [splitOn, if_neg (fun heq => hx heq.symm), ih hxs]

theorem splitOn_append {sep : Char} {xs : List Char} (h : sep ∉ xs) (ys : List Char) :
    splitOn sep (xs ++ sep :: ys) = xs :: splitOn sep ys := by
  induction xs with
  | nil => rw [List.nil_append, splitOn, if_pos rfl]
  | cons x xs ih =>
    obtain ⟨hx, hxs⟩ := not_or.1 (fun hor => h (List.mem_cons.2 hor))
    rw [List.cons_append, splitOn, if_neg (fun heq => hx heq.symm), ih hxs]

/-- Parts without a comma that were joined by commas and spaces come apart again, each but
the first after its space. -/
theorem splitOn_joinWith {p : List Char} {ps : List (List Char)} (h : ∀ x ∈ p :: ps, ',' ∉ x) :
    splitOn ',' (joinWith [',', ' '] (p :: ps)) = p :: ps.map (' ' :: ·) := by
  induction ps generalizing p with
  | nil => exact splitOn_of_notMem (h p List.mem_cons_self)
  | cons q ps ih =>
    obtain ⟨hp, hrest⟩ := List.forall_mem_cons.1 h
    rw [joinWith, List.append_assoc]
    on_goal 2 => exact List.cons_ne_nil q ps
    show splitOn ',' (p ++ ',' :: (' ' :: joinWith [',', ' '] (q :: ps))) = _
    rw [splitOn_append hp, splitOn, if_neg (by decide), ih hrest]
    rfl

end Text

/-! ## Operands -/

namespace Reg

theorem mem_physical_of_ofName? {cs : List Char} {r : Reg} (h : ofName? cs = some r) :
    r ∈ physical := by
  rw [ofName?] at h
  split at h
  · next found hfind =>
    obtain rfl := Option.some.inj h
    exact List.mem_of_find?_eq_some hfind
  · -- other spellings are those of core registers
    have hspelled : ∀ e ∈ spellings, e.2 ∈ physical := by decide
    obtain ⟨front, back, heq, -⟩ := List.lookup_eq_some_iff.1 h
    refine hspelled (Text.lower cs, r) ?_
    rw [heq]
    exact List.mem_append_right _ List.mem_cons_self

end Reg

namespace Cond

theorem eq_of_ofName? {cs : List Char} {c : Cond} (h : ofName? cs = some c) :
    ∃ k < names.length, c = ⟨UInt8.ofNat k⟩ := by
  rw [ofName?] at h
  split at h
  · next k hfind =>
    obtain rfl := Option.some.inj h
    exact ⟨k, (List.findIdx?_eq_some_iff_getElem.1 hfind).1, rfl⟩
  · have hspelled : ∀ e ∈ spellings, ∃ k < names.length, e.2 = ⟨UInt8.ofNat k⟩ := by decide
    obtain ⟨front, back, heq, -⟩ := List.lookup_eq_some_iff.1 h
    refine hspelled (Text.lower cs, c) ?_
    rw [heq]
    exact List.mem_append_right _ List.mem_cons_self

end Cond

namespace Operand

open Text

/-- The operands that some text is read as. -/
def IsRead : Operand → Prop
  | .reg r isDef isKill => isDef = false ∧ isKill = false ∧
      (r = .noreg ∨ r ∈ Reg.physical ∨ ∃ n, r = .virtual n ∧ n.val < Reg.virtualCount)
  | .imm _ => True
  | .frameIndex _ => True
  | .constPool i => ¬ i < 0
  | .cond c => ∃ k < Cond.names.length, c = ⟨UInt8.ofNat k⟩

theorem isRead_of_parseVirtual {cs ds : List Char} {o : Operand}
    (h : parseVirtual cs ds = .ok o) : o.IsRead := by
  rw [parseVirtual] at h
  split at h
  · cases h
  next n _ =>
  split at h
  · cases h
  split at h
  · next r hr =>
    obtain rfl := Except.ok.inj h
    rw [Reg.ofVirtual] at hr
    split at hr
    · next hrange =>
      obtain rfl := Except.ok.inj hr
      refine ⟨rfl, rfl, .inr (.inr ⟨_, rfl, ?_⟩)⟩
      show n.toInt.toNat < Reg.virtualCount
      omega
    · cases hr
  · cases h

theorem isRead_of_parse {cs : List Char} {o : Operand} (h : parse cs = .ok o) : o.IsRead := by
  unfold parse at h
  split at h
  · obtain rfl := Except.ok.inj h
    exact ⟨rfl, rfl, .inl rfl⟩
  split at h
  · cases h
  · rw [parseImmediate] at h
    split at h
    · obtain rfl := Except.ok.inj h
      trivial
    · cases h
  · rw [parseFrameIndex] at h
    split at h
    · obtain rfl := Except.ok.inj h
      trivial
    · cases h
  · rw [parseConstPool] at h
    split at h
    · split at h
      · cases h
      · next hnonneg =>
        obtain rfl := Except.ok.inj h
        exact hnonneg
    · cases h
  · rw [parseCondition] at h
    split at h
    · next hname =>
      obtain rfl := Except.ok.inj h
      exact Cond.eq_of_ofName? hname
    · cases h
  · exact isRead_of_parseVirtual h
  · rw [parseRegister] at h
    split at h
    · next hname =>
      obtain rfl := Except.ok.inj h
      exact ⟨rfl, rfl, .inr (.inl (Reg.mem_physical_of_ofName? hname))⟩
    · cases h

/-- Names of physical registers are read back, and none looks like another kind of operand. -/
theorem parse_chars_physical : ∀ r ∈ Reg.physical,
    parse r.chars = .ok (use r) ∧ IsToken r.chars := by
  decide +kernel

theorem parse_chars_cond : ∀ k < Cond.names.length,
    parse (cond ⟨UInt8.ofNat k⟩).chars = .ok (cond ⟨UInt8.ofNat k⟩) ∧
      IsToken (⟨UInt8.ofNat k⟩ : Cond).chars := by
  decide

theorem parse_chars_virtual {n : Fin 32768} (h : n.val < Reg.virtualCount) :
    parse (Reg.virtual n).chars = .ok (use (.virtual n)) := by
  have hn : n.val < 32767 := h
  have hint : (Int64.ofNat n.val).toInt = n.val := Int64.toInt_ofNat_of_lt (by omega)
  have hread : readInt (writeNat n.val) = .ok (Int64.ofNat n.val) := by
    have := readInt_writeInt (Int64.ofNat n.val)
    rwa [hint] at this
  have hnonneg : ¬ Int64.ofNat n.val < 0 := by
    rw [Int64.lt_iff_toInt_lt, hint]
    exact Int.not_lt.2 (Int.natCast_nonneg _)
  have hrange : 0 ≤ (n.val : Int) ∧ (n.val : Int) < Reg.virtualCount := by
    simp only [Reg.virtualCount]
    omega
  show parseVirtual _ (writeNat n.val) = _
  simp only [parseVirtual, hread, if_neg hnonneg, Reg.ofVirtual, hint, dif_pos hrange]
  rfl

/-- An operand that was read is read again from what is written for it. -/
theorem parse_chars {o : Operand} (h : o.IsRead) : parse o.chars = .ok o := by
  cases o with
  | reg r isDef isKill =>
    obtain ⟨rfl, rfl, rfl | hr | ⟨n, rfl, hn⟩⟩ := h
    · rfl
    · exact (parse_chars_physical r hr).1
    · exact parse_chars_virtual hn
  | imm v =>
    show parseImmediate _ (writeInt v.toInt) = _
    rw [parseImmediate, readLiteral_writeInt]
  | frameIndex i =>
    show parseFrameIndex _ (writeInt i.toInt) = _
    rw [parseFrameIndex, readInt_writeInt]
  | constPool i =>
    show parseConstPool _ (writeInt i.toInt) = _
    rw [parseConstPool, readInt_writeInt]
    exact if_neg h
  | cond c =>
    obtain ⟨k, hk, rfl⟩ := h
    exact (parse_chars_cond k hk).1

theorem isToken_chars {o : Operand} (h : o.IsRead) : IsToken o.chars := by
  cases o with
  | reg r isDef isKill =>
    obtain ⟨-, -, rfl | hr | ⟨n, rfl, -⟩⟩ := h
    · show IsToken Reg.noreg.chars
      decide
    · exact (parse_chars_physical r hr).2
    · exact isToken_cons (by decide) plain_of_mem_writeNat
  | imm v => exact isToken_cons (by decide) plain_of_mem_writeInt
  | frameIndex i =>
    refine isToken_cons (by decide) ?_
    exact List.forall_mem_cons.2 ⟨by decide, List.forall_mem_cons.2 ⟨by decide, plain_of_mem_writeInt⟩⟩
  | constPool i =>
    refine isToken_cons (by decide) ?_
    exact List.forall_mem_cons.2 ⟨by decide, List.forall_mem_cons.2 ⟨by decide, plain_of_mem_writeInt⟩⟩
  | cond c =>
    obtain ⟨k, hk, rfl⟩ := h
    refine isToken_cons (by decide) ?_
    exact List.forall_mem_cons.2
      ⟨by decide, List.forall_mem_cons.2 ⟨by decide, (parse_chars_cond k hk).2.plain⟩⟩

theorem chars_define (o : Operand) : o.define.chars = o.chars := by
  cases o <;> rfl

end Operand

/-! ## Instructions -/

namespace Opcode

theorem mem_all (op : Opcode) : op ∈ all := by
  cases op <;> decide

/-- Names of opcodes are read back, whatever the case of their letters, and hold no blank. -/
theorem ofName?_chars : ∀ op ∈ all,
    ofName? op.chars = some op ∧ Text.IsToken op.chars := by
  decide +kernel

end Opcode

namespace Inst

open Text

theorem map_chars_defineFirst (n : Nat) (os : List Operand) :
    (defineFirst n os).map Operand.chars = os.map Operand.chars := by
  induction os generalizing n with
  | nil => cases n <;> rfl
  | cons o os ih =>
    cases n with
    | zero => rfl
    | succ n => rw [defineFirst, List.map_cons, List.map_cons, Operand.chars_define, ih]

theorem isRead_of_parseOperands {op : Opcode} {ts : List (List Char)} {os : List Operand}
    (h : parseOperands op ts = .ok os) : ∀ o ∈ os, o.IsRead := by
  induction ts generalizing os with
  | nil =>
    obtain rfl := Except.ok.inj h
    exact fun o ho => absurd ho List.not_mem_nil
  | cons t ts ih =>
    rw [parseOperands] at h
    split at h
    · cases h
    next o ho =>
    split at h
    · cases h
    next os' hos =>
    obtain rfl := Except.ok.inj h
    exact List.forall_mem_cons.2 ⟨Operand.isRead_of_parse ho, ih hos⟩

theorem parseOperands_map {op : Opcode} {f : Operand → List Char} {os : List Operand}
    (h : ∀ o ∈ os, Operand.parse (trim (f o)) = .ok o) : parseOperands op (os.map f) = .ok os := by
  induction os with
  | nil => rfl
  | cons o os ih =>
    obtain ⟨ho, hos⟩ := List.forall_mem_cons.1 h
    simp only [List.map_cons, parseOperands, ho, ih hos]

theorem isTrimmed_joinWith_chars {o : Operand} {os : List Operand} (h : ∀ x ∈ o :: os, x.IsRead) :
    IsTrimmed (joinWith [',', ' '] ((o :: os).map Operand.chars)) :=
  isTrimmed_joinWith (List.forall_mem_map.2 fun x hx => (Operand.isToken_chars (h x hx)).isTrimmed)

/-- The written operands of an instruction are read back. -/
theorem parseOperands_joinWith {op : Opcode} {o : Operand} {os : List Operand}
    (h : ∀ x ∈ o :: os, x.IsRead) :
    parseOperands op (operandTexts (joinWith [',', ' '] ((o :: os).map Operand.chars))) =
      .ok (o :: os) := by
  have htoken : ∀ x ∈ o :: os, IsToken x.chars := fun x hx => Operand.isToken_chars (h x hx)
  obtain ⟨ho, hos⟩ := List.forall_mem_cons.1 htoken
  have htrimmed := isTrimmed_joinWith_chars h
  have hsplit : splitOn ',' (joinWith [',', ' '] ((o :: os).map Operand.chars)) =
      o.chars :: (os.map Operand.chars).map (' ' :: ·) := by
    have hcommas : ∀ x ∈ (o :: os).map Operand.chars, ',' ∉ x :=
      List.forall_mem_map.2 fun x hx hcomma => ((htoken x hx).plain _ hcomma).1 rfl
    exact splitOn_joinWith hcommas
  have hne : joinWith [',', ' '] ((o :: os).map Operand.chars) ≠ [] := by
    obtain ⟨c, rest, heq, -⟩ := htrimmed.first
    rw [heq]
    exact List.cons_ne_nil c rest
  -- the space after a comma is trimmed off before its operand is read
  have hrest : parseOperands op ((os.map Operand.chars).map (' ' :: ·)) = .ok os := by
    rw [List.map_map]
    refine parseOperands_map fun x hx => ?_
    show Operand.parse (trim (' ' :: x.chars)) = .ok x
    rw [(hos x hx).isTrimmed.trim_space]
    exact Operand.parse_chars (h x (List.mem_cons_of_mem o hx))
  simp only [operandTexts, htrimmed.trim_eq, if_neg hne, hsplit, parseOperands,
    ho.isTrimmed.trim_eq, Operand.parse_chars (h o List.mem_cons_self), hrest]

/-- What an instruction that was read is made of. -/
theorem parse_facts {cs : List Char} {i : Inst} (h : parse cs = .ok i) :
    ∃ op os, i = make op os ∧ (∀ o ∈ os, o.IsRead) ∧
      ¬ (!op.info.flags.isVariadic ∧ os.length ≠ op.info.operands) := by
  rw [parse] at h
  simp only at h
  split at h
  · cases h
  next op _ =>
  split at h
  · cases h
  next os hos =>
  split at h
  · cases h
  next hcount =>
  exact ⟨op, os, (Except.ok.inj h).symm, isRead_of_parseOperands hos, hcount⟩

/-- The text of an instruction comes apart into its opcode and the text of its operands. -/
theorem parse_chars_make {op : Opcode} {os : List Operand} (h : ∀ o ∈ os, o.IsRead)
    (hcount : ¬ (!op.info.flags.isVariadic ∧ os.length ≠ op.info.operands)) :
    parse (make op os).chars = .ok (make op os) := by
  obtain ⟨hname, htoken⟩ := Opcode.ofName?_chars op (Opcode.mem_all op)
  have hspace : ' ' ∉ op.chars := by
    intro hmem
    have hblank := (htoken.plain _ hmem).2
    revert hblank
    decide
  -- in both cases the opcode is what stands before the first space
  have hcut : ∃ rest, cut ' ' (trim (make op os).chars) = (op.chars, rest) ∧
      parseOperands op (operandTexts rest) = .ok os := by
    cases os with
    | nil =>
      refine ⟨[], ?_, rfl⟩
      have hchars : (make op []).chars = op.chars := by
        rw [make, defineFirst, chars]
      rw [hchars, htoken.isTrimmed.trim_eq, cut_of_notMem hspace]
    | cons o os =>
      refine ⟨joinWith [',', ' '] ((o :: os).map Operand.chars), ?_, parseOperands_joinWith h⟩
      have hchars : (make op (o :: os)).chars =
          op.chars ++ [' '] ++ joinWith [',', ' '] ((o :: os).map Operand.chars) := by
        rw [← map_chars_defineFirst op.info.defs, List.append_assoc, make]
        cases op.info.defs <;> rfl
      have htrimmed : IsTrimmed (make op (o :: os)).chars := by
        rw [hchars]
        exact htoken.isTrimmed.append _ (isTrimmed_joinWith_chars h)
      rw [htrimmed.trim_eq, hchars, List.append_assoc]
      exact cut_append hspace _
  obtain ⟨rest, hcut, hoperands⟩ := hcut
  simp only [parse, hcut, hname, hoperands, if_neg hcount]

/-- An instruction that was read from some text is read again, the same in every part, from
what is written for it. -/
theorem parse_chars_of_parse (cs : List Char) (i : Inst) (h : parse cs = .ok i) :
    parse i.chars = .ok i := by
  obtain ⟨op, os, rfl, hread, hcount⟩ := parse_facts h
  exact parse_chars_make hread hcount

/-- A text with blanks, other cases and spellings, a base mark and signs. -/
theorem parse_chars_of_parse_spelled :
    let cs := "\tldr R3 ,fi:+07, %0,#-0x8000_0000_0000_0000, cc:CS , İp".toList
    let i : Inst := ⟨.ldr, [.reg (.core 3) true false, .frameIndex 7, .use (.virtual 0),
      .imm (-9223372036854775808), .cond ⟨2⟩, .use .r12]⟩
    parse cs = .ok i ∧ i.chars ≠ cs ∧ parse i.chars = .ok i := by
  intro cs i
  have hparse : parse cs = .ok i := by decide +kernel
  exact ⟨hparse, by decide +kernel, parse_chars_of_parse cs i hparse⟩

end Inst

end FrameLowering
