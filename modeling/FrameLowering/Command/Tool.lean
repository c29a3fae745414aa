import FrameLowering.Command.Options
import FrameLowering.Command.Program
import FrameLowering.Description.File
import FrameLowering.Lowering.Batch
import FrameLowering.Record.Codec
import FrameLowering.Report.AllocationOrder
import FrameLowering.Report.FrameMap
import FrameLowering.Report.Listing

/-!
# The tools

Each tool turns its arguments into a program. `command` chooses the tool. Wrong arguments
end with the code 2 and the list of flags, and other errors with the code 1.
-/

namespace FrameLowering.Command

/-- Name of the command. -/
def commandName : String := "armframe"

/-- A tool of the command. -/
inductive Tool where
  | lower
  | layout
  | order
deriving DecidableEq, Repr

namespace Tool

/-- The tools, in the order of the list of tools. -/
def all : List Tool := [.lower, .layout, .order]

/-- Name of a tool. -/
def name : Tool → String
  | .lower => "lower"
  | .layout => "layout"
  | .order => "order"

/-- The tool with a name. -/
def ofName? (s : String) : Option Tool :=
  all.find? (·.name = s)

/-- Summary of the arguments. -/
def summary : Tool → String
  | .lower => "[-abi NAME] [-fp] [-o FILE] [-watch] FILE"
  | .layout => "[-abi NAME] [-fp] FILE"
  | .order => "[-abi NAME] [-class CLASS] [-hint KIND] [REG]"

/-- What a tool does. -/
def brief : Tool → String
  | .lower => "lower each described function and print its listing"
  | .layout => "print the frame layout of each described function"
  | .order => "print the allocation order of a register class"

/-- What follows the flags. -/
def operands : Tool → String
  | .order => "[REG]"
  | _ => "FILE"

/-- Flags of a tool, with the options of the environment. -/
def flags (c : Config) : Tool → List (Flag Options)
  | .lower => lowerFlags ++ commonFlags c
  | .layout => commonFlags c
  | .order => orderFlags ++ commonFlags c

/-- Prints a message of a tool. -/
def log (t : Tool) (message : String) (next : Program) : Program :=
  let ending := if message.toList.getLast? = some '\n' then "" else "\n"
  .print .err (t.name ++ ": " ++ message ++ ending) next

/-- Ends with an error. -/
def fail (t : Tool) (message : String) : Program :=
  t.log message (.finish 1)

/-- Ends with the list of flags. -/
def usage (t : Tool) (c : Config) : Program :=
  let head := "Usage:\n  " ++ commandName ++ " " ++ t.name ++ " [OPTIONS] " ++ t.operands ++ "\n\n"
  t.log head (.print .err (Flag.describeAll (t.flags c)) (.finish 2))

/-- Lowers the functions of a file and goes on with them. -/
def withLowered (t : Tool) (o : Options) (file : String) (next : List Job → Program) : Program :=
  .load file fun
    | .error e => t.fail e.message
    | .ok data =>
      match Description.decodeBytes file data with
      | .error e => t.fail (e.message file)
      | .ok ds =>
        let batch := Batch.lower o.abi o.config ds
        .print .err (if o.trace then String.join batch.trace else "")
          (match batch.failure with
          | some e => t.fail e.message
          | none => next batch.jobs)

/-- Texts with an empty line between them. -/
def separated (texts : List String) : String :=
  String.intercalate "\n" texts

end Tool

/-- Frame records of functions up to the first that has none: how many have one, and the
records or the error. -/
def recordsOf : List Job → Nat × Except RecordError (List Record)
  | [] => (0, .ok [])
  | j :: js =>
    match Record.ofProcedure j.target j.proc with
    | .error e => (0, .error e)
    | .ok r =>
      let (n, rs) := recordsOf js
      (n + 1, rs.map (r :: ·))

namespace Tool

/-- Prints the listings of lowered functions and writes their records. A function without
a record is the last to be listed. -/
def writeListings (o : Options) (jobs : List Job) : Program :=
  let listings := jobs.map fun j => j.proc.listing o.debug
  if o.output = "" then .print .out (separated listings) (.finish 0)
  else
    let (n, records) := recordsOf jobs
    .print .out (separated (listings.take (n + 1)))
      (match records with
      | .error e => lower.fail e.message
      | .ok rs =>
        match Record.encodeFile Checksum.sha256 rs with
        | .error e => lower.fail e.message
        | .ok data =>
          .store o.output data fun
            | none => .finish 0
            | some e => lower.fail ("failed to write frame records: " ++ e.message))

/-- Lowers the functions of a file, and watches the file if that is asked for. -/
def runLower (o : Options) (file : String) : Program :=
  let job := lower.withLowered o file (writeListings o)
  if o.watch then
    .watch file job fun cause => lower.fail ("failed to watch " ++ file ++ ": " ++ cause.message)
  else job

/-- Shows the frames of the functions of a file. -/
def runLayout (o : Options) (file : String) : Program :=
  layout.withLowered { o with trace := false } file fun jobs =>
    .print .out (separated (jobs.map fun j => j.proc.describeMap j.target)) (.finish 0)

/-- The register that an argument names. -/
def registerOf? (arg : String) : Option Reg :=
  match Operand.parse arg.toList with
  | .ok (.reg r _ _) => if r = .noreg then none else some r
  | _ => none

/-- Shows the order of allocation for a register. -/
def showOrder (o : Options) (r : Reg) : Program :=
  match Target.ofAbi (o.abi.getD Target.defaultAbi) o.config with
  | .error e => order.fail e.message
  | .ok t =>
    match t.describeOrder o.regClass ⟨o.hint, r⟩ with
    | .error f => order.fail f.message
    | .ok text => .print .out text (.finish 0)

/-- Runs a tool after its flags. -/
def runWith (t : Tool) (c : Config) (o : Options) (args : List String) : Program :=
  match t, args with
  | .lower, [file] => runLower o file
  | .layout, [file] => runLayout o file
  | .order, [] => showOrder o .noreg
  | .order, [arg] =>
    match registerOf? arg with
    | some r => showOrder o r
    | none => order.fail ("invalid register " ++ Text.quote arg)
  | t, _ => t.usage c

/-- Runs a tool. -/
def run (t : Tool) (env : Environment) (args : List String) : Program :=
  let c := env.config
  match Flag.parseAll (t.flags c) { config := c } args with
  | .error e =>
    match e.message? with
    | some message => .print .err (message ++ "\n") (t.usage c)
    | none => t.usage c
  | .ok (o, args) => if o.help then t.usage c else t.runWith c o args

end Tool

/-- The list of tools. -/
def usageText : String :=
  "Usage:\n  " ++ commandName ++ " TOOL [OPTIONS] [ARGS]\n\nTools:\n" ++
    String.join (Tool.all.map fun t =>
      "  " ++ t.name ++ " " ++ t.summary ++ "\n        " ++ t.brief ++ "\n") ++
    "\nFunction descriptions are read from .toml, .yaml, or .yml files.\n" ++
    "Run '" ++ commandName ++ " TOOL -h' for a tool's options.\n"

/-- Ends with the list of tools. -/
def usage : Program :=
  .print .err usageText (.finish 2)

/-- What the command does with its arguments. -/
def command (env : Environment) (args : List String) : Program :=
  match Flag.parseAll [helpFlag] {} args with
  | .error e =>
    match e.message? with
    | some message => .print .err (message ++ "\n") usage
    | none => usage
  | .ok (o, args) =>
    match o.help, args with
    | true, _ | _, [] => usage
    | false, name :: args =>
      match Tool.ofName? name with
      | some t => t.run env args
      | none => .print .err ("unknown tool " ++ Text.quote name ++ "\n\n") usage

end FrameLowering.Command
