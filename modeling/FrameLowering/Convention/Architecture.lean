import FrameLowering.Convention.Basic

/-!
# The architecture

What holds under every calling convention: the special registers, the registers that an
allocator can hand out under some convention, and when a convention is well formed.
-/

namespace FrameLowering

namespace Arch

/-- Name of the architecture. -/
def name : String := "arm"

/-- Bytes of an address, and of a core register. -/
def wordSize : Nat := 4

/-- Registers that can be handed out under some convention. -/
def allocatable : List Reg := [
  .core 0, .core 1, .core 2, .core 3, .core 4, .core 5, .core 6, .core 7, .core 8, .core 9,
  .core 10, .core 11, .core 12, .core 14] ++ Reg.doubles

/-- Whether a register, or one that shares its storage, can be handed out under some
convention. -/
def isAllocatable (r : Reg) : Bool :=
  allocatable.any fun a => a = r || r ∈ a.aliases

end Arch

/-- Why a calling convention is not well formed. -/
inductive AbiError where
  | alignment (n : Int)
  | thumb1WithoutThumb (abi : String)
  | darwinWithElf (abi : String)
  | nothingSaved (abi : String)
  | notAllocatable (r : Reg)
  | repeated (r : Reg)
  | notSaved (r : Reg)
  | wrongArea (r : Reg) (given wanted : Area)
  | areaOrder (r : Reg) (given last : Area)
  | linkNotSaved (abi : String)
deriving DecidableEq, Repr

/-- Wording of the cause. -/
def AbiError.message : AbiError → String
  | .alignment n =>
    "invalid stack alignment " ++ toString n ++ ": must be a power of two, at least 4"
  | .thumb1WithoutThumb abi => "invalid ABI " ++ abi ++ ": Thumb-1 only, but not Thumb"
  | .darwinWithElf abi => "invalid ABI " ++ abi ++ ": Darwin targets do not use ELF"
  | .nothingSaved abi => "invalid ABI " ++ abi ++ ": no callee-saved registers"
  | .notAllocatable r =>
    "invalid callee-saved register " ++ r.name ++ ": not an ABI register for " ++ Arch.name
  | .repeated r =>
    "invalid callee-saved register " ++ r.name ++ ": repeated in callee-saved registers"
  | .notSaved r => "invalid callee-saved register " ++ r.name ++ ": not saved by " ++ Arch.name
  | .wrongArea r given wanted =>
    "invalid callee-saved register " ++ r.name ++ ": in area " ++ given.name ++ ", want " ++
      wanted.name
  | .areaOrder r given last =>
    "invalid callee-saved register " ++ r.name ++ ": area " ++ given.name ++ " follows area " ++
      last.name
  | .linkNotSaved abi =>
    "invalid ABI " ++ abi ++ ": link register " ++ Reg.lr.name ++ " is not callee-saved"

namespace Abi

/-- Powers of two, as positive integers of 64 bits. -/
def isPowerOfTwo (n : Int64) : Bool :=
  0 < n && n &&& (n - 1) = 0

/-- Checks a list of callee-saved registers after the registers `seen`, the last of
which lies in the area `last`. Each register is allocatable, new, and in the area that
the convention gives it, and the areas come in order. -/
def validateSaved (abi : Abi) :
    (seen : List Reg) → (last : Area) → List CalleeSaved → Except AbiError Unit
  | _, _, [] => .ok ()
  | seen, last, cs :: rest =>
    if !Arch.isAllocatable cs.reg then .error (.notAllocatable cs.reg)
    else if cs.reg ∈ seen then .error (.repeated cs.reg)
    else if abi.area cs.reg = .outside then .error (.notSaved cs.reg)
    else if cs.area ≠ abi.area cs.reg then
      .error (.wrongArea cs.reg cs.area (abi.area cs.reg))
    else if cs.area.code < last.code then .error (.areaOrder cs.reg cs.area last)
    else validateSaved abi (cs.reg :: seen) cs.area rest

/-- Checks that a convention is consistent. -/
def validate (abi : Abi) : Except AbiError Unit :=
  if abi.stackAlignment < 4 || !isPowerOfTwo abi.stackAlignment then
    .error (.alignment abi.stackAlignment.toInt)
  else if abi.thumb1Only && !abi.thumb then .error (.thumb1WithoutThumb abi.name)
  else if abi.darwin && abi.elf then .error (.darwinWithElf abi.name)
  else if abi.calleeSaved = [] then .error (.nothingSaved abi.name)
  else
    match validateSaved abi [] .outside abi.calleeSaved with
    | .error e => .error e
    | .ok _ =>
      if abi.calleeSaved.any fun cs => cs.reg = Reg.lr then .ok ()
      else .error (.linkNotSaved abi.name)

end Abi

end FrameLowering
