import FrameLowering.Text.Letter
import FrameLowering.Text.Numeral

/-!
# Registers

The registers of the 32-bit ARM architecture: sixteen core registers, thirty-two
single-precision and thirty-two double-precision registers, and the virtual registers
that stand for values before register allocation. Each of the first sixteen
double-precision registers overlaps a pair of single-precision ones.

All registers share one 16-bit number space, in which `noreg` has number zero and the
virtual registers take the upper half. `Reg.number` and `Reg.ofNumber` move between a
register and its number.
-/

namespace FrameLowering

/-- The core register file is not empty, so numerals name its registers. -/
instance neZero_sixteen : @NeZero Nat Zero.ofOfNat0 16 := ⟨by decide⟩

/-- The single and double register files are not empty. -/
instance neZero_thirtyTwo : @NeZero Nat Zero.ofOfNat0 32 := ⟨by decide⟩

/-- A register, or the absence of one. -/
inductive Reg where
  /-- No register. -/
  | noreg
  /-- A core register, `r0` to `r12`, `sp`, `lr` and `pc`. -/
  | core (n : Fin 16)
  /-- A single-precision register. -/
  | single (n : Fin 32)
  /-- A double-precision register. -/
  | double (n : Fin 32)
  /-- A number between the physical and the virtual registers, which names nothing. -/
  | unknown (n : Fin 32687)
  /-- A register that has not been allocated yet. -/
  | virtual (n : Fin 32768)
deriving DecidableEq, Repr, Inhabited

/-- Register files. -/
inductive RegFile where
  | core
  | single
  | double
deriving DecidableEq, Repr

namespace Reg

/-- The scratch register of the procedure call standard. -/
def r12 : Reg := .core 12

/-- The stack pointer. -/
def sp : Reg := .core 13

/-- The link register. -/
def lr : Reg := .core 14

/-- The program counter. -/
def pc : Reg := .core 15

/-- Position of a register in the number space. -/
def number : Reg → Nat
  | .noreg => 0
  | .core n => 1 + n.val
  | .single n => 17 + n.val
  | .double n => 49 + n.val
  | .unknown n => 81 + n.val
  | .virtual n => 32768 + n.val

/-- The register at a position of the number space. -/
def ofNumber (k : UInt16) : Reg :=
  if k.toNat = 0 then .noreg
  else if h : k.toNat < 17 then .core ⟨k.toNat - 1, by omega⟩
  else if h : k.toNat < 49 then .single ⟨k.toNat - 17, by omega⟩
  else if h : k.toNat < 81 then .double ⟨k.toNat - 49, by omega⟩
  else if h : k.toNat < 32768 then .unknown ⟨k.toNat - 81, by omega⟩
  else .virtual ⟨k.toNat - 32768, by have := k.toNat_lt; omega⟩

/-- Core registers in register order. -/
def cores : List Reg := (List.finRange 16).map .core

/-- Single-precision registers in register order. -/
def singles : List Reg := (List.finRange 32).map .single

/-- Double-precision registers in register order. -/
def doubles : List Reg := (List.finRange 32).map .double

/-- Physical registers in register order. -/
def physical : List Reg := cores ++ singles ++ doubles

/-- The register file that holds a register. -/
def file? : Reg → Option RegFile
  | .core _ => some .core
  | .single _ => some .single
  | .double _ => some .double
  | _ => none

/-- Physical registers. -/
def isPhysical (r : Reg) : Bool :=
  r.file?.isSome

/-- Virtual registers. -/
def isVirtual : Reg → Bool
  | .virtual _ => true
  | _ => false

/-- Core registers that every 16-bit Thumb instruction can address, `r0` to `r7`. -/
def isLow : Reg → Bool
  | .core n => n.val < 8
  | _ => false

/-- The stack pointer and the program counter, which are never allocated. -/
def isSpecial (r : Reg) : Bool :=
  r = sp || r = pc

/-- Name of a register. -/
def chars : Reg → List Char
  | .noreg => ['n', 'o', 'r', 'e', 'g']
  | .core n =>
    match n.val with
    | 13 => ['s', 'p']
    | 14 => ['l', 'r']
    | 15 => ['p', 'c']
    | k => 'r' :: Text.writeNat k
  | .single n => 's' :: Text.writeNat n.val
  | .double n => 'd' :: Text.writeNat n.val
  | .unknown n => ['R', 'e', 'g', '('] ++ Text.writeNat (81 + n.val) ++ [')']
  | .virtual n => '%' :: Text.writeNat n.val

/-- Name of a register. -/
def name (r : Reg) : String :=
  String.ofList r.chars

/-- Name of a register in upper case. -/
def upperName (r : Reg) : String :=
  String.ofList (Text.upperAscii r.chars)

/-- Other spellings of core registers. -/
def spellings : List (List Char × Reg) := [
  (['r', '1', '3'], sp),
  (['r', '1', '4'], lr),
  (['r', '1', '5'], pc),
  (['i', 'p'], r12),
  (['f', 'p'], .core 11)]

/-- The physical register with a given name, in any case. -/
def ofName? (cs : List Char) : Option Reg :=
  let key := Text.lower cs
  match physical.find? fun r => r.chars = key with
  | some r => some r
  | none => spellings.lookup key

/-- Registers that share storage with a register, other than itself. -/
def aliases : Reg → List Reg
  | .single n => [.double ⟨n.val / 2, by omega⟩]
  | .double n =>
    if h : n.val < 16 then
      [.single ⟨2 * n.val, by omega⟩, .single ⟨2 * n.val + 1, by omega⟩]
    else []
  | _ => []

/-- Whether a write of one register changes the contents of another. -/
def overlaps (a b : Reg) : Bool :=
  a = b || b ∈ a.aliases

/-- Number of a physical register in debug information. -/
def dwarf? : Reg → Option Nat
  | .core n => some n.val
  | .single n => some (64 + n.val)
  | .double n => some (256 + n.val)
  | _ => none

/-- The register with a given number in debug information. -/
def ofDwarf? (k : Int) : Option Reg :=
  physical.find? fun r => r.dwarf?.map Int.ofNat = some k

/-- Number of a physical register in instruction encodings. -/
def encoding? : Reg → Option Nat
  | .core n => some n.val
  | .single n => some n.val
  | .double n => some n.val
  | _ => none

end Reg

end FrameLowering
