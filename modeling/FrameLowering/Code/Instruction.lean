import FrameLowering.Code.Operand
import FrameLowering.Machine.Opcode

/-!
# Instructions

A machine instruction is an opcode and its operands. `Inst.reads` and `Inst.writes` say
which registers it uses and changes, storage shared with other registers included.
`Inst.chars` writes an instruction and `Inst.parse` reads one.
-/

namespace FrameLowering

/-- A machine instruction. -/
structure Inst where
  op : Opcode
  operands : List Operand
deriving DecidableEq, Repr, Inhabited

/-- Why a text is not an instruction. -/
inductive InstError where
  | opcode (name : List Char)
  | operand (op : Opcode) (cause : OperandError)
  | operandCount (op : Opcode) (given wanted : Nat)
deriving DecidableEq, Repr

/-- The fault behind an error, if it is one. -/
def InstError.fault? : InstError → Option Fault
  | .operand _ (.fault f) => some f
  | _ => none

/-- Wording of the cause. -/
def InstError.message : InstError → String
  | .opcode cs => "invalid opcode " ++ Text.quoteChars cs
  | .operand op e => "invalid " ++ op.name ++ " instruction: " ++ e.message
  | .operandCount op given wanted =>
    "invalid " ++ op.name ++ " instruction: got " ++ toString given ++ " operands, want " ++
      toString wanted

namespace Inst

/-- The first `n` operands as definitions, as far as they are registers. -/
def defineFirst : Nat → List Operand → List Operand
  | _, [] => []
  | 0, os => os
  | n + 1, o :: os => o.define :: defineFirst n os

/-- The instruction with an opcode and operands, the leading ones marked as definitions
where the opcode says so. -/
def make (op : Opcode) (operands : List Operand) : Inst :=
  ⟨op, defineFirst op.info.defs operands⟩

/-- Descriptor of the instruction. -/
def info (i : Inst) : OpcodeInfo :=
  i.op.info

/-- Position of the first frame index. -/
def frameIndexAt (i : Inst) : Option Nat :=
  i.operands.findIdx? Operand.isFrameIndex

/-- The condition and the predicate register. An instruction without them always
executes. -/
def predicate (i : Inst) : Cond × Reg :=
  match i.info.predicate with
  | none => (Cond.al, .noreg)
  | some p =>
    match i.operands[p]?, i.operands[p + 1]? with
    | some c, some r => (c.condition, r.register)
    | _, _ => (Cond.al, .noreg)

/-- Whether the instruction returns from the function. -/
def isReturn (i : Inst) : Bool :=
  i.info.flags.isReturn

/-- Whether the instruction reads `r` or a register that shares its storage. -/
def reads (i : Inst) (r : Reg) : Bool :=
  (i.operands.any fun o =>
      o.isReg && (!o.isDef || i.info.flags.isAsm) && o.register.overlaps r) ||
    (i.isReturn && r ∈ Opcode.returnUses)

/-- Whether the instruction writes `r` or a register that shares its storage. -/
def writes (i : Inst) (r : Reg) : Bool :=
  (i.operands.any fun o =>
      o.isReg && (o.isDef || i.info.flags.isAsm) && o.register.overlaps r) ||
    (i.info.flags.isCall && Opcode.clobbers.any fun c => c.overlaps r)

/-- Whether the instruction reads or writes `r`. -/
def refers (i : Inst) (r : Reg) : Bool :=
  i.reads r || i.writes r

/-- Text of an instruction. -/
def chars (i : Inst) : List Char :=
  match i.operands with
  | [] => i.op.chars
  | os => i.op.chars ++ ' ' :: Text.joinWith [',', ' '] (os.map Operand.chars)

/-- Text of an instruction. -/
def text (i : Inst) : String :=
  String.ofList i.chars

/-- Reads operands one by one. -/
def parseOperands (op : Opcode) : List (List Char) → Except InstError (List Operand)
  | [] => .ok []
  | cs :: rest =>
    match Operand.parse (Text.trim cs) with
    | .error e => .error (.operand op e)
    | .ok o =>
      match parseOperands op rest with
      | .error e => .error e
      | .ok os => .ok (o :: os)

/-- The operands in the text after the opcode. -/
def operandTexts (cs : List Char) : List (List Char) :=
  let rest := Text.trim cs
  if rest = [] then [] else Text.splitOn ',' rest

/-- Reads an instruction. The opcode ends at the first space, and commas divide the
operands. -/
def parse (cs : List Char) : Except InstError Inst :=
  let (name, rest) := Text.cut ' ' (Text.trim cs)
  match Opcode.ofName? name with
  | none => .error (.opcode name)
  | some op =>
    match parseOperands op (operandTexts rest) with
    | .error e => .error e
    | .ok os =>
      if !op.info.flags.isVariadic ∧ os.length ≠ op.info.operands then
        .error (.operandCount op os.length op.info.operands)
      else
        .ok (make op os)

end Inst

end FrameLowering
