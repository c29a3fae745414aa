import FrameLowering.Text.Letter
import FrameLowering.Text.Numeral

/-!
# Condition codes

An instruction can be predicated on a condition. A condition is the byte that an
instruction carries for it; fifteen of the codes have names, and the last of those,
`al`, always holds.
-/

namespace FrameLowering

/-- A condition code. -/
structure Cond where
  code : UInt8
deriving DecidableEq, Repr, Inhabited

namespace Cond

/-- The condition that always holds. -/
def al : Cond := ⟨14⟩

/-- Names of the conditions, in the order of their codes. -/
def names : List (List Char) := [
  ['e', 'q'], ['n', 'e'], ['h', 's'], ['l', 'o'], ['m', 'i'], ['p', 'l'], ['v', 's'], ['v', 'c'],
  ['h', 'i'], ['l', 's'], ['g', 'e'], ['l', 't'], ['g', 't'], ['l', 'e'], ['a', 'l']]

/-- Name of a condition. -/
def chars (c : Cond) : List Char :=
  match names[c.code.toNat]? with
  | some cs => cs
  | none => ['C', 'o', 'n', 'd', '('] ++ Text.writeNat c.code.toNat ++ [')']

/-- Name of a condition. -/
def name (c : Cond) : String :=
  String.ofList c.chars

/-- Other spellings of conditions. -/
def spellings : List (List Char × Cond) := [
  (['c', 's'], ⟨2⟩),
  (['c', 'c'], ⟨3⟩)]

/-- The condition with a given name, in any case. -/
def ofName? (cs : List Char) : Option Cond :=
  let key := Text.lower cs
  match names.findIdx? fun n => n = key with
  | some i => some ⟨UInt8.ofNat i⟩
  | none => spellings.lookup key

end Cond

end FrameLowering
