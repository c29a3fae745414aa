import FrameLowering.Convention.Area
import FrameLowering.Machine.Register

/-!
# Faults

A fault is a request that breaks the contract of an operation: a register without a
number where one is needed, an index past the end of a table, a size that no object can
have. Operations that check their arguments return `Except Fault`, or a failure that
can be a fault, and leave the reporting of errors in the input to their own error types.
-/

namespace FrameLowering

/-- A broken precondition. -/
inductive Fault where
  /-- A virtual register past the end of the number space. -/
  | virtualOutOfRange (n : Int)
  /-- A register that no instruction can encode. -/
  | noEncoding (r : Reg)
  /-- A register without a number in debug information. -/
  | noDwarf (r : Reg)
  /-- The number of no register class. -/
  | invalidClass (n : Nat)
  /-- The number of no addressing-mode family. -/
  | invalidFamily (n : Nat)
  /-- The number of no opcode. -/
  | invalidOpcode (n : Nat)
  /-- A register that is not physical recorded as used. -/
  | unusable (r : Reg)
  /-- A register that is not physical recorded as spilled. -/
  | unspillable (r : Reg)
  /-- A frame object that cannot exist. -/
  | invalidObject (size align : Int)
  /-- The index of no frame object. -/
  | invalidIndex (index : Int)
  /-- An area without an extent. -/
  | invalidArea (a : Area)
  /-- A function with more blocks than there are numbers for. -/
  | tooManyBlocks
  /-- A place outside of a block. -/
  | invalidPlace (place : Int) (block : String) (size : Nat)
  /-- A borrowed register whose instruction is gone. -/
  | instructionRemoved
  /-- A place of a function that holds no instruction. -/
  | nothingThere
deriving DecidableEq, Repr

/-- Wording of a fault. -/
def Fault.message : Fault → String
  | .virtualOutOfRange n => "virtual register " ++ toString n ++ " out of range"
  | .noEncoding r => "register " ++ r.name ++ " has no encoding"
  | .noDwarf r => "register " ++ r.name ++ " has no DWARF number"
  | .invalidClass n => "invalid register class " ++ toString n
  | .invalidFamily n => "invalid addressing mode family " ++ toString n
  | .invalidOpcode n => "invalid opcode " ++ toString n
  | .unusable r => "cannot mark non-physical register " ++ r.name ++ " used"
  | .unspillable r => "cannot spill non-physical register " ++ r.name
  | .invalidObject size align =>
    "invalid frame object size " ++ toString size ++ ", alignment " ++ toString align
  | .invalidIndex index => "invalid frame index " ++ toString index
  | .invalidArea a => "invalid area " ++ a.name
  | .tooManyBlocks => "function has too many blocks"
  | .invalidPlace place block size =>
    "invalid insertion point " ++ toString place ++ " in " ++ block ++ " with " ++
      toString size ++ " instructions"
  | .instructionRemoved => "scavenged register's instruction has been removed"
  | .nothingThere => "index out of range"

namespace Reg

/-- Number of virtual registers that can be handed out. -/
def virtualCount : Nat := 32767

/-- The `n`-th virtual register. -/
def ofVirtual (n : Int) : Except Fault Reg :=
  if h : 0 ≤ n ∧ n < virtualCount then
    .ok (.virtual ⟨n.toNat, by have := h.2; simp only [virtualCount] at this; omega⟩)
  else
    .error (.virtualOutOfRange n)

/-- Number of a register in instruction encodings, and whether it is split as the
five-bit numbers of single-precision registers are. -/
def encoding (r : Reg) : Except Fault (Nat × Bool) :=
  match r.encoding? with
  | some n => .ok (n, r.file? = some .single)
  | none => .error (.noEncoding r)

/-- Number of a register in debug information. -/
def dwarf (r : Reg) : Except Fault Nat :=
  match r.dwarf? with
  | some n => .ok n
  | none => .error (.noDwarf r)

end Reg

end FrameLowering
