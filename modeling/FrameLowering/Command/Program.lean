import FrameLowering.Text.Blank

/-!
# Programs

A `Program` is what a command does to the world around it: it prints, reads and writes
files, and ends with a code. `Program.run` runs one in a directory that is held as a
value.
-/

namespace FrameLowering.Command

/-- Where text is printed. -/
inductive Channel where
  | out
  | err
deriving DecidableEq, Repr

/-- Why a path cannot be used. -/
inductive PathCause where
  | missing
  | directory
  | notDirectory
  | tooLong
  | other (text : String)
deriving DecidableEq, Repr

/-- Wording of the cause. -/
def PathCause.message : PathCause → String
  | .missing => "no such file or directory"
  | .directory => "is a directory"
  | .notDirectory => "not a directory"
  | .tooLong => "file name too long"
  | .other text => text

/-- What cannot be done with a path. -/
structure PathError where
  action : String
  path : String
  cause : PathCause
deriving DecidableEq, Repr

/-- Wording of the error. -/
def PathError.message (e : PathError) : String :=
  e.action ++ " " ++ e.path ++ ": " ++ e.cause.message

/-- What a command does. -/
inductive Program where
  | finish (code : Nat)
  | print (channel : Channel) (text : String) (next : Program)
  | load (path : String) (next : Except PathError (List UInt8) → Program)
  | store (path : String) (data : List UInt8) (next : Option PathError → Program)
  /-- Does a job now, and again whenever a file changes. Its directory has to exist. -/
  | watch (path : String) (job : Program) (failed : PathCause → Program)

/-- The directory of a path: what stands before its last slash. -/
def directoryOf (path : String) : String :=
  match path.toList.reverse.dropWhile (· ≠ '/') with
  | [] => "."
  | ['/'] => "/"
  | _ :: parent => String.ofList parent.reverse

/-- A directory without others in it. -/
structure Directory where
  files : List (String × List UInt8) := []

/-- Where a path has led to so far. -/
inductive Spot where
  /-- The directory itself. -/
  | here
  | root
  /-- The directory of devices. -/
  | devices
  /-- Another directory, with unknown files. -/
  | elsewhere
deriving DecidableEq, Repr

/-- What a path leads to. -/
inductive Destination where
  | directory
  /-- A file that is there or can be. -/
  | file (name : String)
  /-- The device that takes everything and gives nothing. -/
  | null
  /-- A file of another directory, which is not there yet. -/
  | unknown
  /-- A name with a slash after it that is no directory, for a given cause. -/
  | slashed (cause : PathCause)
  | blocked (cause : PathCause)
deriving DecidableEq, Repr

/-- Directories at the root. -/
def rootDirectories : List String :=
  ["bin", "boot", "dev", "etc", "home", "lib", "media", "mnt", "opt", "proc", "root", "run",
    "sbin", "srv", "sys", "tmp", "usr", "var"]

/-- Largest number of bytes of a name. -/
def nameLimit : Nat := 255

/-- Largest number of bytes of a path. -/
def pathLimit : Nat := 4095

namespace Directory

/-- The content of a file. -/
def find? (d : Directory) (name : String) : Option (List UInt8) :=
  d.files.lookup name

/-- Why a name is no directory. -/
def barrier (d : Directory) (spot : Spot) (name : String) : PathCause :=
  if nameLimit < name.utf8ByteSize then .tooLong
  else if (spot = .here ∧ (d.find? name).isSome) ∨ (spot = .devices ∧ name = "null") then
    .notDirectory
  else .missing

/-- What the parts of a path lead to, from a spot on. -/
def lead (d : Directory) : Spot → List (List Char) → Destination
  | _, [] => .directory
  | spot, part :: rest =>
    let name := String.ofList part
    if name = "" ∨ name = "." then d.lead spot rest
    else if name = ".." then
      d.lead (if spot = .root ∨ spot = .devices then .root else .elsewhere) rest
    else if spot = .root ∧ name ∈ rootDirectories then
      d.lead (if name = "dev" then .devices else .elsewhere) rest
    else if rest ≠ [] then
      if rest.all (· = []) then .slashed (d.barrier spot name) else .blocked (d.barrier spot name)
    else if nameLimit < name.utf8ByteSize then .blocked .tooLong
    else if spot = .here then .file name
    else if spot = .devices ∧ name = "null" then .null
    else .unknown

/-- What a path leads to. -/
def destination (d : Directory) (path : String) : Destination :=
  if path = "" then .blocked .missing
  else if pathLimit < path.utf8ByteSize then .blocked .tooLong
  else
    d.lead (if path.toList.head? = some '/' then .root else .here)
      (Text.splitOn '/' path.toList)

/-- Reads a file. -/
def load (d : Directory) (path : String) : Except PathError (List UInt8) :=
  match d.destination path with
  | .directory => .error ⟨"read", path, .directory⟩
  | .file name =>
    match d.find? name with
    | some data => .ok data
    | none => .error ⟨"open", path, .missing⟩
  | .null => .ok []
  | .unknown => .error ⟨"open", path, .missing⟩
  | .slashed cause | .blocked cause => .error ⟨"open", path, cause⟩

/-- Writes a file. -/
def store (d : Directory) (path : String) (data : List UInt8) : Except PathError Directory :=
  match d.destination path with
  | .directory | .slashed _ => .error ⟨"open", path, .directory⟩
  | .file name => .ok ⟨(name, data) :: d.files.filter (·.1 ≠ name)⟩
  | .null | .unknown => .ok d
  | .blocked cause => .error ⟨"open", path, cause⟩

end Directory

/-- The parts of a path without detours: each pair of a name and two dots is left out.
`before` are the parts before, from the last. -/
def straight : (before : List (List Char)) → List (List Char) → List (List Char)
  | before, [] => before.reverse
  | before, part :: rest =>
    if part = [] ∨ part = ['.'] then straight before rest
    else if part ≠ ['.', '.'] then straight (part :: before) rest
    else
      match before with
      | name :: names =>
        if name = ['.', '.'] then straight (part :: before) rest else straight names rest
      | [] => straight [part] rest

/-- Why the directory of a file cannot be watched, if it cannot. What stands in its place
may also be a file. -/
def Directory.watchCause? (d : Directory) (path : String) : Option PathCause :=
  let start := if path.toList.head? = some '/' then Spot.root else .here
  let parts := (straight [] (Text.splitOn '/' path.toList)).dropLast
  match d.lead start parts with
  | .directory | .null => none
  | .file name => if (d.find? name).isSome then none else some .missing
  | .unknown => some .missing
  | .slashed cause | .blocked cause => some cause

/-- What a program has done. -/
structure Session where
  directory : Directory := {}
  out : String := ""
  err : String := ""

/-- Prints a text. -/
def Session.print (channel : Channel) (text : String) (s : Session) : Session :=
  match channel with
  | .out => { s with out := s.out ++ text }
  | .err => { s with err := s.err ++ text }

/-- Runs a program, and gives the code it ends with. A file that is watched does not
change, so that its job is done once. -/
def Program.run : Program → Session → Nat × Session
  | .finish code, s => (code, s)
  | .print channel text next, s => next.run (s.print channel text)
  | .load path next, s => (next (s.directory.load path)).run s
  | .store path data next, s =>
    match s.directory.store path data with
    | .ok directory => (next none).run { s with directory }
    | .error e => (next (some e)).run s
  | .watch path job failed, s =>
    match s.directory.watchCause? path with
    | none => (0, (job.run s).2)
    | some cause => (failed cause).run s

end FrameLowering.Command
