import FrameLowering.Command.Flag
import FrameLowering.Lowering.Pairs
import FrameLowering.Lowering.Target

/-!
# Options of the tools

The options of all tools, the flags that set them, and their defaults from the
environment.
-/

namespace FrameLowering.Command

/-- Options of a tool. -/
structure Options where
  help : Bool := false
  /-- Convention for all functions. -/
  abi : Option Abi := none
  config : Config := {}
  /-- Show the frames of the functions. -/
  debug : Bool := false
  /-- Show the stages of lowering. -/
  trace : Bool := false
  /-- Start again when the file changes. -/
  watch : Bool := false
  /-- File for the frame records, or nothing. -/
  output : String := ""
  /-- Number of functions at a time. The result does not depend on it. -/
  workers : Int64 := 1
  hint : HintKind := .same
  regClass : RegClass := .gpr
deriving DecidableEq, Repr

/-- Words for true in the environment. -/
def trueWords : List String := [
  "1", "ABSOLUTELY", "AFFIRMATIVE", "Absolutely", "Affirmative", "ENABLE", "ENABLED", "Enable",
  "Enabled", "POSITIVE", "Positive", "T", "TRUE", "True", "Y", "YES", "Yes", "absolutely",
  "affirmative", "enable", "enabled", "positive", "t", "true", "y", "yes"]

/-- Variables of the environment by name. -/
abbrev Environment := String → Option String

/-- The truth value of a variable, if it is set and not empty. -/
def Environment.truth? (env : Environment) (name : String) : Option Bool :=
  (env name).bind fun v => if v = "" then none else some (trueWords.contains v)

/-- The variable that asks for frame pointers. -/
def pointerVariable : String := "ARMFRAME_DISABLE_FP_ELIM"

/-- The variable that turns scavenging off. -/
def scavengingVariable : String := "ARMFRAME_NO_SCAVENGING"

/-- The options of lowering in an environment. -/
def Environment.config (env : Environment) : Config where
  alwaysPointer := (env.truth? pointerVariable).getD false
  scavenging := !(env.truth? scavengingVariable).getD false

/-- The truth value with a given text. -/
def truthOf? (s : String) : Option Bool :=
  if s ∈ ["1", "t", "T", "true", "TRUE", "True"] then some true
  else if s ∈ ["0", "f", "F", "false", "FALSE", "False"] then some false
  else none

/-- A switch for a truth value. -/
def switchFlag (name brief : String) (set : Bool → Options → Options) : Flag Options where
  name
  brief
  isSwitch := true
  apply v o :=
    match truthOf? v with
    | some b => .ok (set b o)
    | none => .error "parse error"

/-- A flag for one of some values. -/
def choiceFlag {α : Type} (name brief noun : String) (find? : String → Option α)
    (set : α → Options → Options) : Flag Options where
  name
  brief
  placeholder := "value"
  apply v o :=
    match find? v with
    | some a => .ok (set a o)
    | none => .error ("unknown " ++ noun ++ " " ++ Text.quote v)

/-- The switch for help. -/
def helpFlag : Flag Options :=
  switchFlag "h" "Show this message and exit." fun b o => { o with help := b }

/-- Flags of all tools, with the options of the environment. -/
def commonFlags (c : Config) : List (Flag Options) := [
  helpFlag,
  choiceFlag "abi" ("The ABI to lower for (" ++ String.intercalate ", " Abi.names ++ ").") "ABI"
    Abi.ofName? fun a o => { o with abi := some a },
  { switchFlag "fp" "Always establish a frame pointer." fun b o =>
      { o with config := { o.config with alwaysPointer := b } } with
    shown := if c.alwaysPointer then "true" else "" },
  { name := "no-scavenge"
    brief := "Use r12 for large offsets instead of scavenging a register."
    isSwitch := true
    apply := fun v o =>
      if v = "true" ∨ v = "1" then .ok { o with config := { o.config with scavenging := false } }
      else .error ("invalid value " ++ Text.quote v) }]

/-- Flags of the tool that lowers functions. -/
def lowerFlags : List (Flag Options) := [
  switchFlag "debug" "Print the frame objects and layout of each function." fun b o =>
    { o with debug := b },
  switchFlag "trace" "Print each stage of lowering to stderr." fun b o => { o with trace := b },
  switchFlag "watch" "Lower the functions again each time the file changes." fun b o =>
    { o with watch := b },
  { name := "o"
    brief := "Write the frame records to this file."
    placeholder := "string"
    apply := fun v o => .ok { o with output := v } },
  { name := "j"
    brief := "The number of functions to lower in parallel."
    placeholder := "int"
    shown := "1"
    apply := fun v o =>
      match Text.readLiteral v.toList with
      | .ok n => .ok { o with workers := n }
      | .error .malformed => .error "parse error"
      | .error .outOfRange => .error "value out of range" }]

/-- Flags of the tool that shows orders of allocation. -/
def orderFlags : List (Flag Options) := [
  choiceFlag "hint" "The kind of pair hint (none, even, odd)." "hint kind" HintKind.ofName?
    fun k o => { o with hint := k },
  choiceFlag "class" "The register class (GPR, tGPR, SPR, DPR)." "register class"
    (fun s => RegClass.ofName? s.toList) fun c o => { o with regClass := c }]

end FrameLowering.Command
