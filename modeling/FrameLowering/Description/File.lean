import FrameLowering.Description.Toml
import FrameLowering.Description.Yaml
import FrameLowering.Text.Utf8

/-!
# Description files

A description file is written in TOML or YAML, which shows in the extension of its name.
`decodeFile` builds the functions that it describes, in their order, or names the first
thing that is wrong.
-/

namespace FrameLowering.Description

/-- A notation of description files. -/
inductive Format where
  | toml
  | yaml
deriving DecidableEq, Repr

/-- Why a file has no functions. -/
inductive FileError where
  /-- The extension belongs to no notation. -/
  | format (extension : String)
  /-- The text is not of the notation, or has a value of the wrong kind. -/
  | malformed
  | unknownField (key : Toml.Key)
  | noFunctions
  | build (cause : BuildError)
  | twice (function : String)
deriving DecidableEq, Repr

namespace FileError

/-- The fault behind an error, if it is one. -/
def fault? : FileError → Option Fault
  | .build cause => cause.fault?
  | _ => none

/-- Wording of the cause, after the name of the file. -/
def message (file : String) (e : FileError) : String :=
  file ++ ": " ++
    match e with
    | .format extension => "unrecognised description format " ++ Text.quote extension
    | .malformed => "malformed description"
    | .unknownField key => "unknown field " ++ Text.quote key.render
    | .noFunctions => "no functions"
    | .build cause => cause.message
    | .twice function => "function " ++ Text.quote function ++ " described twice"

end FileError

/-- The extension of a file name in lower case: the last dot and what follows it, after
the last slash. -/
def extensionOf (file : String) : String :=
  let base := file.toList.reverse.takeWhile (· ≠ '/')
  if '.' ∈ base then
    String.ofList (Text.lower ('.' :: (base.takeWhile (· ≠ '.')).reverse))
  else ""

/-- The notation of a file with a given name. -/
def formatOf (file : String) : Except FileError Format :=
  let extension := extensionOf file
  if extension = ".toml" then .ok .toml
  else if extension = ".yaml" ∨ extension = ".yml" then .ok .yaml
  else .error (.format extension)

/-- The descriptions in a text. -/
def readFunctions (format : Format) (text : List Char) : Except FileError (List FunctionDesc) :=
  match format with
  | .toml =>
    match Toml.Document.read? text with
    | none => .error .malformed
    | some doc =>
      match doc.conform? fileShape, doc.unknown? fileShape with
      | none, _ => .error .malformed
      | some _, some key => .error (.unknownField key)
      | some file, none => .ok (functionsOf file)
  | .yaml =>
    match Yaml.Node.read? text with
    | none => .error .malformed
    | some none => .ok []
    | some (some node) =>
      match node.conform? fileShape with
      | none => .error .malformed
      | some none => .ok []
      | some (some file) => .ok (functionsOf file)

/-- Builds functions, the names of which must differ from each other and from those in
`seen`. -/
def buildAll : (seen : List String) → List FunctionDesc → Except FileError (List Described)
  | _, [] => .ok []
  | seen, d :: ds =>
    match d.build with
    | .error e => .error (.build e)
    | .ok f =>
      if seen.contains d.name then .error (.twice d.name)
      else
        match buildAll (d.name :: seen) ds with
        | .error e => .error e
        | .ok fs => .ok (f :: fs)

/-- The functions of a file with a given name and text. -/
def decodeFile (file : String) (text : List Char) : Except FileError (List Described) :=
  match formatOf file with
  | .error e => .error e
  | .ok format =>
    match readFunctions format text with
    | .error e => .error e
    | .ok [] => .error .noFunctions
    | .ok ds => buildAll [] ds

/-- The functions of a file with a given name and content, which is text in UTF-8. -/
def decodeBytes (file : String) (data : List UInt8) : Except FileError (List Described) :=
  match formatOf file with
  | .error e => .error e
  | .ok _ =>
    if Text.Utf8.isValid data then decodeFile file (Text.Utf8.lossy data).toList
    else .error .malformed

end FrameLowering.Description
