/-!
# Callee-saved areas

The spill slots of callee-saved registers lie in up to three areas of a frame. From the
stack pointer on entry downwards these are the two integer areas and the
double-precision area. An area is written as a byte, and most bytes name none.
-/

namespace FrameLowering

/-- An area of a frame that holds callee-saved registers. -/
inductive Area where
  /-- Not in any area. -/
  | outside
  /-- First integer area. -/
  | gpr1
  /-- Second integer area. -/
  | gpr2
  /-- Double-precision area. -/
  | dpr
  /-- A code past the known areas. -/
  | unknown (code : UInt8)
deriving DecidableEq, Repr, Inhabited

namespace Area

/-- The areas that a frame can have, from its top downwards. -/
def all : List Area := [.gpr1, .gpr2, .dpr]

/-- Code of an area. -/
def code : Area → UInt8
  | .outside => 0
  | .gpr1 => 1
  | .gpr2 => 2
  | .dpr => 3
  | .unknown c => c

/-- The area with a given code. -/
def ofCode (c : UInt8) : Area :=
  if c = 0 then .outside
  else if c = 1 then .gpr1
  else if c = 2 then .gpr2
  else if c = 3 then .dpr
  else .unknown c

/-- Name of an area. -/
def name : Area → String
  | .gpr1 => "gpr1"
  | .gpr2 => "gpr2"
  | .dpr => "dpr"
  | a => "Area(" ++ toString a.code.toNat ++ ")"

end Area

end FrameLowering
