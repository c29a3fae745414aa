import FrameLowering.Command.Tool

/-!
# The command

Runs the program of the command line in the world outside.
-/

namespace FrameLowering.Command

/-- The cause of an error of the system. -/
def causeOf : IO.Error → PathCause
  | .noFileOrDirectory .. => .missing
  | .inappropriateType _ code _ => if code = 20 then .notDirectory else .directory
  | .invalidArgument _ code details => if code = 36 then .tooLong else .other details
  | e => .other (toString e)

/-- Reads a file. -/
def readFile (path : String) : IO (Except PathError (List UInt8)) := do
  try
    return .ok (← IO.FS.readBinFile path).toList
  catch e =>
    let cause := causeOf e
    return .error ⟨if cause = .directory then "read" else "open", path, cause⟩

/-- Writes a file, and says what went wrong. -/
def writeFile (path : String) (data : List UInt8) : IO (Option PathError) := do
  try
    IO.FS.writeBinFile path ⟨data.toArray⟩
    return none
  catch e =>
    return some ⟨"open", path, causeOf e⟩

/-- Does a job again whenever the content of a file is a new one. -/
partial def repeatOnChange (path : String) (last : Option (List UInt8)) (job : IO Unit) :
    IO Unit := do
  IO.sleep 200
  let content := (← readFile path).toOption
  if content.isSome && content != last then
    IO.println ("\n" ++ path ++ " changed")
    job
  repeatOnChange path (content.or last) job

/-- Runs a program, and gives the code it ends with. -/
def Program.perform : Program → IO UInt32
  | .finish code => return UInt32.ofNat code
  | .print .out text next => do
    let stream ← IO.getStdout
    stream.putStr text
    stream.flush
    next.perform
  | .print .err text next => do
    IO.eprint text
    next.perform
  | .load path next => do
    (next (← readFile path)).perform
  | .store path data next => do
    (next (← writeFile path data)).perform
  | .watch path job failed => do
    let repeatedly : IO UInt32 := do
      let last := (← readFile path).toOption
      let once : IO Unit := do
        let _ ← job.perform
      once
      repeatOnChange path last once
      return 0
    match ← readFile (directoryOf path) with
    | .ok _ | .error ⟨_, _, .directory⟩ => repeatedly
    | .error e => (failed e.cause).perform

end FrameLowering.Command

/-- Runs the command. -/
def main (args : List String) : IO UInt32 := do
  let pointer ← IO.getEnv FrameLowering.Command.pointerVariable
  let scavenging ← IO.getEnv FrameLowering.Command.scavengingVariable
  let env : FrameLowering.Command.Environment := fun name =>
    if name = FrameLowering.Command.pointerVariable then pointer
    else if name = FrameLowering.Command.scavengingVariable then scavenging
    else none
  (FrameLowering.Command.command env args).perform
