import FrameLowering.Fault
import FrameLowering.Machine.Condition
import FrameLowering.Text.Blank
import FrameLowering.Text.Quoted

/-!
# Operands

An operand of a machine instruction is a register, an immediate, the index of a frame
object or of a constant, or a condition. `Operand.chars` writes an operand and
`Operand.parse` reads one; names are read in any case and integers in any base, and
each operand is written in one way only.
-/

namespace FrameLowering

/-- An operand of a machine instruction. -/
inductive Operand where
  /-- A register: whether the instruction writes it, and whether its value is read for
  the last time. -/
  | reg (r : Reg) (isDef isKill : Bool)
  /-- An immediate value. -/
  | imm (v : Int64)
  /-- A frame object, by its index. -/
  | frameIndex (index : Int64)
  /-- An entry of the constant pool, by its index. -/
  | constPool (index : Int64)
  /-- A condition. -/
  | cond (c : Cond)
deriving DecidableEq, Repr, Inhabited

/-- Why a text is not an operand. -/
inductive OperandError where
  | empty
  | immediate (text : List Char) (cause : Text.NumeralError)
  | frameIndex (text : List Char) (cause : Text.NumeralError)
  | constPool (text : List Char)
  | condition (text : List Char)
  | virtualRegister (text : List Char)
  | unrecognised (text : List Char)
  /-- A virtual register that cannot exist. -/
  | fault (f : Fault)
deriving DecidableEq, Repr

/-- A character list in quotes. -/
def Text.quoteChars (cs : List Char) : String :=
  Text.quote (String.ofList cs)

/-- Wording of a number that could not be read by the reader called `reader`. -/
def Text.NumeralError.describe (reader : String) (cs : List Char) (e : Text.NumeralError) :
    String :=
  "strconv." ++ reader ++ ": parsing " ++ Text.quoteChars cs ++ ": " ++ e.message

/-- Wording of the cause. -/
def OperandError.message : OperandError → String
  | .empty => "empty operand"
  | .immediate cs e =>
    "invalid immediate " ++ Text.quoteChars cs ++ ": " ++ e.describe "ParseInt" (cs.drop 1)
  | .frameIndex cs e =>
    "invalid frame index " ++ Text.quoteChars cs ++ ": " ++ e.describe "Atoi" (cs.drop 3)
  | .constPool cs => "invalid constant pool index " ++ Text.quoteChars cs
  | .condition cs => "invalid condition code " ++ Text.quoteChars cs
  | .virtualRegister cs => "invalid virtual register " ++ Text.quoteChars cs
  | .unrecognised cs => "invalid operand " ++ Text.quoteChars cs
  | .fault f => f.message

namespace Operand

/-- A register that is read. -/
def use (r : Reg) : Operand :=
  .reg r false false

/-- The two operands that predicate an instruction. -/
def predicate (c : Cond) (r : Reg) : List Operand :=
  [.cond c, use r]

/-- The register of an operand; `noreg` for other operands. -/
def register : Operand → Reg
  | .reg r _ _ => r
  | _ => .noreg

/-- The integer of an operand: an immediate, an index or the code of a condition. -/
def value : Operand → Int64
  | .reg _ _ _ => 0
  | .imm v => v
  | .frameIndex i => i
  | .constPool i => i
  | .cond c => Int64.ofNat c.code.toNat

/-- The condition with the low eight bits of the operand's integer as its code. -/
def condition (o : Operand) : Cond :=
  ⟨UInt8.ofBitVec (o.value.toBitVec.setWidth 8)⟩

/-- Operands that name a register. -/
def isReg : Operand → Bool
  | .reg r _ _ => r ≠ .noreg
  | _ => false

/-- Frame indices. -/
def isFrameIndex : Operand → Bool
  | .frameIndex _ => true
  | _ => false

/-- Immediates. -/
def isImm : Operand → Bool
  | .imm _ => true
  | _ => false

/-- Whether the operand is a register that the instruction writes. -/
def isDef : Operand → Bool
  | .reg _ d _ => d
  | _ => false

/-- Whether the operand is a register that is read for the last time. -/
def isKill : Operand → Bool
  | .reg _ _ k => k
  | _ => false

/-- The operand as a definition, if it is a register. -/
def define : Operand → Operand
  | .reg r _ k => .reg r true k
  | o => o

/-- Number of the operand's kind, from one. -/
def kind : Operand → Nat
  | .reg _ _ _ => 1
  | .imm _ => 2
  | .frameIndex _ => 3
  | .constPool _ => 4
  | .cond _ => 5

/-- Text of an operand. -/
def chars : Operand → List Char
  | .reg r _ _ => r.chars
  | .imm v => '#' :: Text.writeInt v.toInt
  | .frameIndex i => 'f' :: 'i' :: ':' :: Text.writeInt i.toInt
  | .constPool i => 'c' :: 'p' :: ':' :: Text.writeInt i.toInt
  | .cond c => 'c' :: 'c' :: ':' :: c.chars

/-- Text of an operand. -/
def text (o : Operand) : String :=
  String.ofList o.chars

/-- Text of the operand with a kind given by number, from the register or the integer
that its kind calls for. -/
def textOfKind (kind : UInt8) (r : Reg) (v : Int64) : String :=
  match kind.toNat with
  | 1 => (use r).text
  | 2 => (imm v).text
  | 3 => (frameIndex v).text
  | 4 => (constPool v).text
  | 5 => (cond (imm v).condition).text
  | k => "Operand(" ++ toString k ++ ")"

/-- Reads the immediate `cs`, whose digits are `ds`. -/
def parseImmediate (cs ds : List Char) : Except OperandError Operand :=
  match Text.readLiteral ds with
  | .ok v => .ok (.imm v)
  | .error e => .error (.immediate cs e)

/-- Reads the frame index `cs`, whose digits are `ds`. -/
def parseFrameIndex (cs ds : List Char) : Except OperandError Operand :=
  match Text.readInt ds with
  | .ok i => .ok (.frameIndex i)
  | .error e => .error (.frameIndex cs e)

/-- Reads the constant `cs`, whose digits are `ds`. -/
def parseConstPool (cs ds : List Char) : Except OperandError Operand :=
  match Text.readInt ds with
  | .ok i => if i < 0 then .error (.constPool cs) else .ok (.constPool i)
  | .error _ => .error (.constPool cs)

/-- Reads the condition `cs`, whose name is `ns`. -/
def parseCondition (cs ns : List Char) : Except OperandError Operand :=
  match Cond.ofName? ns with
  | some c => .ok (.cond c)
  | none => .error (.condition cs)

/-- Reads the virtual register `cs`, whose digits are `ds`. -/
def parseVirtual (cs ds : List Char) : Except OperandError Operand :=
  match Text.readInt ds with
  | .error _ => .error (.virtualRegister cs)
  | .ok n =>
    if n < 0 then
      .error (.virtualRegister cs)
    else
      match Reg.ofVirtual n.toInt with
      | .ok r => .ok (use r)
      | .error f => .error (.fault f)

/-- Reads a physical register. -/
def parseRegister (cs : List Char) : Except OperandError Operand :=
  match Reg.ofName? cs with
  | some r => .ok (use r)
  | none => .error (.unrecognised cs)

/-- Reads an operand. Its first characters say which kind it is. -/
def parse (cs : List Char) : Except OperandError Operand :=
  if cs = Reg.noreg.chars then
    .ok (use .noreg)
  else
    match cs with
    | [] => .error .empty
    | '#' :: ds => parseImmediate cs ds
    | 'f' :: 'i' :: ':' :: ds => parseFrameIndex cs ds
    | 'c' :: 'p' :: ':' :: ds => parseConstPool cs ds
    | 'c' :: 'c' :: ':' :: ns => parseCondition cs ns
    | '%' :: ds => parseVirtual cs ds
    | _ => parseRegister cs

end Operand

end FrameLowering
