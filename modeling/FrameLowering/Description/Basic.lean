import FrameLowering.Code.Procedure
import FrameLowering.Convention.Basic

/-!
# Descriptions of functions

A description gives a function in plain values: names, numbers and instruction texts.
`FunctionDesc.build` makes the function, or names the first thing that is wrong.
-/

namespace FrameLowering

/-- A frame object. Fixed ones have an offset, the others an alignment. -/
structure ObjectDesc where
  size : Int64 := 0
  align : Int64 := 0
  fixed : Bool := false
  offset : Int64 := 0
deriving DecidableEq, Repr, Inhabited

/-- A basic block, with its successors by position. -/
structure BlockDesc where
  successors : List Int64 := []
  insts : List String := []
deriving DecidableEq, Repr, Inhabited

/-- A function. -/
structure FunctionDesc where
  name : String := ""
  /-- Name of a calling convention; empty for none. -/
  abi : String := ""
  frameAddressTaken : Bool := false
  varSized : Bool := false
  hasCalls : Bool := false
  maxCallFrameSize : Int64 := 0
  varArgsSaveSize : Int64 := 0
  /-- Registers in use beyond those of the instructions. -/
  used : List String := []
  objects : List ObjectDesc := []
  blocks : List BlockDesc := []
deriving DecidableEq, Repr, Inhabited

/-- A function with the convention that its description names, if it names one. -/
structure Described where
  abi : Option Abi
  proc : Procedure
deriving DecidableEq, Repr

/-- Why a description makes no function. -/
inductive BuildError where
  | noName
  | unknownAbi (function abi : String)
  | frameSizes (function : String) (maxCallFrameSize varArgsSaveSize : Int64)
  | usedRegister (function register : String)
  | objectSize (function : String) (index : Nat) (size : Int64)
  | objectAlign (function : String) (index : Nat) (align : Int64)
  | noBlocks (function : String)
  | inst (function : String) (block index : Nat) (cause : InstError)
  | successor (function : String) (block : Nat) (successor : Int64)
  /-- A part that was refused by what puts the function together. -/
  | fault (f : Fault)
deriving DecidableEq, Repr

namespace BuildError

/-- The fault behind an error, if it is one. -/
def fault? : BuildError → Option Fault
  | .inst _ _ _ e => e.fault?
  | .fault f => some f
  | _ => none

/-- Wording of the cause. -/
def message : BuildError → String
  | .noName => "function has no name"
  | .unknownAbi function abi =>
    function ++ ": unknown ABI " ++ Text.quote abi ++ " (want one of " ++
      String.intercalate ", " Abi.names ++ ")"
  | .frameSizes function maxCallFrameSize varArgsSaveSize =>
    function ++ ": invalid call frame size " ++ toString maxCallFrameSize.toInt ++
      " or variadic save size " ++ toString varArgsSaveSize.toInt
  | .usedRegister function register =>
    function ++ ": invalid used register " ++ Text.quote register
  | .objectSize function index size =>
    function ++ ": object " ++ toString index ++ " has negative size " ++ toString size.toInt
  | .objectAlign function index align =>
    function ++ ": object " ++ toString index ++ " has invalid alignment " ++
      toString align.toInt
  | .noBlocks function => function ++ ": function has no blocks"
  | .inst function block index e =>
    function ++ ": block " ++ toString block ++ ", instruction " ++ toString index ++ ": " ++
      e.message
  | .successor function block succ =>
    function ++ ": block " ++ toString block ++ " has invalid successor " ++ toString succ.toInt
  | .fault f => f.message

end BuildError

namespace FunctionDesc

/-- The convention that a description names. -/
def findAbi (d : FunctionDesc) : Except BuildError (Option Abi) :=
  if d.abi = "" then .ok none
  else
    match Abi.ofName? d.abi with
    | some abi => .ok (some abi)
    | none => .error (.unknownAbi d.name d.abi)

/-- Whether the sizes of outgoing and variadic arguments make sense. -/
def hasFrameSizes (d : FunctionDesc) : Bool :=
  0 ≤ d.maxCallFrameSize && 0 ≤ d.varArgsSaveSize && d.varArgsSaveSize % 4 = 0

/-- The register table with registers recorded as used. -/
def buildUsed (name : String) : RegTable → List String → Except BuildError RegTable
  | t, [] => .ok t
  | t, r :: rest =>
    match Reg.ofName? r.toList with
    | some reg =>
      if reg.isPhysical then
        match t.useChecked reg with
        | .ok t => buildUsed name t rest
        | .error f => .error (.fault f)
      else .error (.usedRegister name r)
    | none => .error (.usedRegister name r)

/-- The alignment of an object, which is four if none is given. -/
def alignOf (o : ObjectDesc) : Int64 :=
  if o.align = 0 then 4 else o.align

/-- Alignments that a description can ask for. -/
def isAlignment (align : Int64) : Bool :=
  0 ≤ align && align &&& (align - 1) = 0

/-- The frame with objects added, the first of which has a position in the
description. -/
def buildObjects (name : String) : (index : Nat) → Frame → List ObjectDesc → Except BuildError Frame
  | _, f, [] => .ok f
  | index, f, o :: rest =>
    if o.size < 0 then .error (.objectSize name index o.size)
    else if o.fixed then buildObjects name (index + 1) (f.createFixed o.size o.offset).2 rest
    else if isAlignment (alignOf o) then
      match f.createObject o.size (alignOf o) false with
      | .ok (_, f) => buildObjects name (index + 1) f rest
      | .error fault => .error (.fault fault)
    else .error (.objectAlign name index o.align)

/-- The instructions with given texts, the first of which has a position in its
block. -/
def buildInsts (name : String) (block : Nat) :
    (index : Nat) → List String → Except BuildError (List Inst)
  | _, [] => .ok []
  | index, text :: rest =>
    match Inst.parse text.toList with
    | .error e => .error (.inst name block index e)
    | .ok i =>
      match buildInsts name block (index + 1) rest with
      | .error e => .error e
      | .ok is => .ok (i :: is)

/-- The successors of a block, in a function with a number of blocks. -/
def buildSuccessors (name : String) (count block : Nat) :
    List Int64 → Except BuildError (List Nat)
  | [] => .ok []
  | s :: rest =>
    if s < 0 ∨ Int64.ofNat count ≤ s then .error (.successor name block s)
    else
      match buildSuccessors name count block rest with
      | .error e => .error e
      | .ok ss => .ok (s.toInt.toNat :: ss)

/-- The blocks with given descriptions, the first of which has a position in the function
and the next unused label; and the label after them. -/
def buildBlocks (name : String) (count : Nat) :
    (block fresh : Nat) → List BlockDesc → Except BuildError (List Block × Nat)
  | _, fresh, [] => .ok ([], fresh)
  | block, fresh, d :: rest =>
    match buildInsts name block 0 d.insts with
    | .error e => .error e
    | .ok is =>
      match buildSuccessors name count block d.successors with
      | .error e => .error e
      | .ok successors =>
        match buildBlocks name count (block + 1) (fresh + is.length) rest with
        | .error e => .error e
        | .ok (bs, next) => .ok (⟨Line.number fresh is, successors⟩ :: bs, next)

/-- Number of blocks that a function can have. -/
def maxBlocks : Nat := 2147483646

/-- The frame that the properties of a description start from. -/
def startFrame (d : FunctionDesc) : Frame :=
  { addressTaken := d.frameAddressTaken
    hasVarSized := d.varSized
    hasCalls := d.hasCalls
    maxCallFrameSize := d.maxCallFrameSize
    varArgsSaveSize := d.varArgsSaveSize }

/-- The function of a description. -/
def build (d : FunctionDesc) : Except BuildError Described := do
  if d.name = "" then throw .noName
  let abi ← d.findAbi
  if !d.hasFrameSizes then
    throw (.frameSizes d.name d.maxCallFrameSize d.varArgsSaveSize)
  let regs ← buildUsed d.name {} d.used
  let frame ← buildObjects d.name 0 d.startFrame d.objects
  if d.blocks = [] then throw (.noBlocks d.name)
  if maxBlocks < d.blocks.length then throw (.fault .tooManyBlocks)
  let (blocks, fresh) ← buildBlocks d.name d.blocks.length 0 0 d.blocks
  return ⟨abi, { name := d.name, blocks, frame, regs, fresh }⟩

end FunctionDesc

end FrameLowering
