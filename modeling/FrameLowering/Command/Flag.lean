import FrameLowering.Text.Quoted

/-!
# Flags of a command line

A flag is a name after one or two dashes. Its value follows an equals sign or is the next
argument. A switch stands alone, and takes a value only after an equals sign. Flags end at
the first argument that is none, or after two dashes alone. `Flag.parseAll` applies the
flags of an argument list to a value.
-/

namespace FrameLowering.Command

/-- A flag that changes a value of type `σ`. -/
structure Flag (σ : Type) where
  name : String
  /-- What the flag does, in the list of flags. -/
  brief : String
  /-- Whether the flag is a switch. -/
  isSwitch : Bool := false
  /-- What stands for the value in the list of flags. -/
  placeholder : String := ""
  /-- The default, if the list of flags shows it. -/
  shown : String := ""
  /-- Applies the flag with a value, or says what is wrong with the value. -/
  apply : String → σ → Except String σ

/-- Why an argument list cannot be applied. -/
inductive FlagError where
  /-- A flag that asks for help, where no flag has its name. -/
  | help
  | malformed (arg : String)
  | unknown (name : String)
  | switchValue (value name cause : String)
  | switch (name cause : String)
  | noValue (name : String)
  | value (value name cause : String)
deriving DecidableEq, Repr

/-- Wording of the cause; help needs none. -/
def FlagError.message? : FlagError → Option String
  | .help => none
  | .malformed arg => some ("bad flag syntax: " ++ arg)
  | .unknown name => some ("flag provided but not defined: -" ++ name)
  | .switchValue v name cause =>
    some ("invalid boolean value " ++ Text.quote v ++ " for -" ++ name ++ ": " ++ cause)
  | .switch name cause => some ("invalid boolean flag " ++ name ++ ": " ++ cause)
  | .noValue name => some ("flag needs an argument: -" ++ name)
  | .value v name cause =>
    some ("invalid value " ++ Text.quote v ++ " for flag -" ++ name ++ ": " ++ cause)

/-- What an argument is. -/
inductive Argument where
  | plain
  /-- Two dashes, which end the flags. -/
  | stop
  | malformed
  | flag (name : String) (value : Option String)
deriving DecidableEq, Repr

/-- A flag without its dashes. An equals sign cannot come first. -/
def Argument.ofFlag : List Char → Argument
  | [] => .malformed
  | c :: cs =>
    if c = '-' ∨ c = '=' then .malformed
    else
      let name := String.ofList (c :: cs.takeWhile (· ≠ '='))
      match cs.dropWhile (· ≠ '=') with
      | [] => .flag name none
      | _ :: value => .flag name (some (String.ofList value))

/-- What an argument with a given text is. -/
def Argument.ofText : List Char → Argument
  | ['-', '-'] => .stop
  | '-' :: '-' :: cs => .ofFlag cs
  | '-' :: c :: cs => .ofFlag (c :: cs)
  | _ => .plain

namespace Flag

variable {σ : Type}

/-- Applies a switch. -/
def applySwitch (f : Flag σ) (value : Option String) (s : σ) : Except FlagError σ :=
  match value with
  | some v =>
    match f.apply v s with
    | .ok s => .ok s
    | .error cause => .error (.switchValue v f.name cause)
  | none =>
    match f.apply "true" s with
    | .ok s => .ok s
    | .error cause => .error (.switch f.name cause)

/-- Applies a flag with a value. -/
def applyValue (f : Flag σ) (v : String) (s : σ) : Except FlagError σ :=
  match f.apply v s with
  | .ok s => .ok s
  | .error cause => .error (.value v f.name cause)

/-- What is wrong with a name that no flag has. -/
def unknown (name : String) : FlagError :=
  if name = "help" ∨ name = "h" then .help else .unknown name

/-- Applies the flags at the front of an argument list, and gives the arguments after
them. -/
def parseAll (flags : List (Flag σ)) : σ → List String → Except FlagError (σ × List String)
  | s, [] => .ok (s, [])
  | s, arg :: rest =>
    match Argument.ofText arg.toList with
    | .plain => .ok (s, arg :: rest)
    | .stop => .ok (s, rest)
    | .malformed => .error (.malformed arg)
    | .flag name value =>
      match flags.find? (·.name = name) with
      | none => .error (unknown name)
      | some f =>
        if f.isSwitch then
          match f.applySwitch value s with
          | .ok s => parseAll flags s rest
          | .error e => .error e
        else
          match value, rest with
          | some v, rest =>
            match f.applyValue v s with
            | .ok s => parseAll flags s rest
            | .error e => .error e
          | none, v :: rest =>
            match f.applyValue v s with
            | .ok s => parseAll flags s rest
            | .error e => .error e
          | none, [] => .error (.noValue name)

/-- Lines about a flag. A switch of one letter has a single line. -/
def describe (f : Flag σ) : String :=
  let head := "  -" ++ f.name ++ (if f.placeholder = "" then "" else " " ++ f.placeholder)
  head ++ (if head.utf8ByteSize ≤ 4 then "\t" else "\n    \t") ++ f.brief ++
    (if f.shown = "" then "" else " (default " ++ f.shown ++ ")") ++ "\n"

/-- The list of flags, by name. -/
def describeAll (flags : List (Flag σ)) : String :=
  String.join ((flags.mergeSort fun a b => decide (a.name ≤ b.name)).map describe)

end Flag

end FrameLowering.Command
