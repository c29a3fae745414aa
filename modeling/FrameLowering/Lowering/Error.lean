import FrameLowering.Code.Procedure
import FrameLowering.Machine.RegisterClass

/-!
# Lowering errors

What can stop the lowering of a function: an inconsistency in the function, reported as
a `LowerError`, or a fault. The errors about one instruction show it as it was when
lowering gave up, with one of four reasons and a detail.
-/

namespace FrameLowering

/-- Why an instruction cannot be lowered. -/
inductive Reason where
  | noFrameIndex
  | unsupportedMode
  | unencodable
  | noScratch
deriving DecidableEq, Repr

/-- Wording of a reason. -/
def Reason.message : Reason → String
  | .noFrameIndex => "no frame index operand"
  | .unsupportedMode => "unsupported addressing mode"
  | .unencodable => "offset cannot be encoded"
  | .noScratch => "no scratch register available"

/-- What is wrong with an immediate. -/
inductive ImmediateError where
  | notRotated (v : Int64)
  | tooWide (v : Int64) (bits : Nat)
  | notMode2 (v : Int64)
deriving DecidableEq, Repr

/-- Wording of the cause. -/
def ImmediateError.message : ImmediateError → String
  | .notRotated v => "immediate " ++ toString v.toInt ++ " is not a modified immediate"
  | .tooWide v bits =>
    "immediate " ++ toString v.toInt ++ " does not fit in " ++ toString bits ++ " bits"
  | .notMode2 v => "invalid addressing mode 2 operand " ++ Text.hexInt v.toInt

/-- What exactly stopped the lowering of an instruction. -/
inductive Detail where
  | thumb1FrameIndices
  | thumb1CallFrames
  | operandMissing
  | noObject (index : Int64)
  | missingImmediate
  | offset (n : Int64)
  | addressing (family : Family) (offset : Int64)
  | notMultiple (offset scale : Int64)
  | remainder (n : Int64)
  | scratchInUse (remainder : Int64)
  | noSlot
  | noCandidate (c : RegClass)
  | notMarker
  | callFrameSize
  | markerRemains
  | frameIndexRemains (index : Int64)
  | immediate (e : ImmediateError)
deriving DecidableEq, Repr

/-- Wording of a detail. -/
def Detail.message : Detail → String
  | .thumb1FrameIndices => "Thumb-1 frame indices"
  | .thumb1CallFrames => "Thumb-1 call frames"
  | .operandMissing => "operand missing"
  | .noObject index => "frame index " ++ toString index.toInt ++ " does not exist"
  | .missingImmediate => "missing immediate operand"
  | .offset n => "offset " ++ toString n.toInt
  | .addressing family n =>
    family.name ++ " addressing with offset " ++ toString n.toInt
  | .notMultiple n scale =>
    "offset " ++ toString n.toInt ++ " is not a multiple of " ++ toString scale.toInt
  | .remainder n => "offset remainder " ++ toString n.toInt
  | .scratchInUse n => "r12 is in use for offset remainder " ++ toString n.toInt
  | .noSlot => "no scavenging slot"
  | .noCandidate c => "no register in " ++ c.name ++ " can be scavenged"
  | .notMarker => "not a call frame marker"
  | .callFrameSize => "invalid call frame size"
  | .markerRemains => "call frame marker remains"
  | .frameIndexRemains index => "frame index " ++ toString index.toInt ++ " remains"
  | .immediate e => e.message

/-- Parts of lowering that the Thumb-1 instruction set cannot express. -/
inductive Thumb1Part where
  | functions
  | prologue
  | epilogue
deriving DecidableEq, Repr

/-- Wording of the part. -/
def Thumb1Part.message : Thumb1Part → String
  | .functions => "Thumb-1 functions"
  | .prologue => "Thumb-1 prologue"
  | .epilogue => "Thumb-1 epilogue"

/-- Why a function cannot be lowered. -/
inductive LowerError where
  /-- An instruction of the block at a position cannot be lowered. -/
  | inst (function : String) (block : Nat) (inst : Inst) (reason : Reason) (detail : Detail)
  | thumb1 (function : String) (part : Thumb1Part)
  | noBlocks (function : String)
  | noSpillArea (function : String) (r : Reg)
  | areasTooLarge (function : String) (total stackSize : Int64)
  | pointerNotSpilled (function : String) (r : Reg)
  | notReturning (function : String) (block : Nat)
deriving DecidableEq, Repr

namespace LowerError

/-- The reason behind an error that has one. -/
def reason? : LowerError → Option Reason
  | .inst _ _ _ r _ => some r
  | .thumb1 _ _ => some .unsupportedMode
  | _ => none

/-- Wording of the cause. -/
def message : LowerError → String
  | .inst function block i reason detail =>
    function ++ ": " ++ Block.nameAt block ++ ": " ++ i.text ++ ": " ++ reason.message ++ ": " ++
      detail.message
  | .thumb1 function part =>
    function ++ ": " ++ Reason.unsupportedMode.message ++ ": " ++ part.message
  | .noBlocks function => function ++ ": function has no blocks"
  | .noSpillArea function r =>
    function ++ ": callee-saved register " ++ r.name ++ " has no spill area"
  | .areasTooLarge function total stackSize =>
    function ++ ": callee-saved areas (" ++ toString total.toInt ++ " bytes) do not fit in the " ++
      toString stackSize.toInt ++ "-byte frame"
  | .pointerNotSpilled function r =>
    function ++ ": frame pointer " ++ r.name ++ " is not spilled"
  | .notReturning function block =>
    function ++ ": " ++ Block.nameAt block ++
      ": epilogue inserted into a block that does not return"

end LowerError

/-- What can stop an operation on a function. -/
inductive Failure where
  | error (e : LowerError)
  | fault (f : Fault)
deriving DecidableEq, Repr

/-- An operation on a function. When it fails it leaves behind what it had changed. -/
abbrev Lowering (α : Type) := EStateM Failure Procedure α

end FrameLowering
