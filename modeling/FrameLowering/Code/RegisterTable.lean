import FrameLowering.Fault

/-!
# Register use and hints

The registers that a function uses, and the allocation hints of its registers. A hint
asks for a register in relation to another one: the same register, or the even or odd
half of a pair.
-/

namespace FrameLowering

/-- A set of registers. -/
structure RegSet where
  members : List Reg := []
deriving DecidableEq, Repr, Inhabited

namespace RegSet

/-- Membership. -/
def contains (s : RegSet) (r : Reg) : Bool :=
  r ∈ s.members

/-- The set with one more register. -/
def insert (s : RegSet) (r : Reg) : RegSet :=
  if s.contains r then s else ⟨r :: s.members⟩

/-- The physical registers of the set in register order. -/
def toList (s : RegSet) : List Reg :=
  Reg.physical.filter s.contains

end RegSet

/-- What an allocation hint asks for. -/
inductive HintKind where
  /-- The hint register itself. -/
  | same
  /-- The even register of a pair. -/
  | even
  /-- The odd register of a pair. -/
  | odd
  /-- A code that asks for nothing. -/
  | unknown (code : UInt8)
deriving DecidableEq, Repr, Inhabited

namespace HintKind

/-- The kind with a given code. -/
def ofCode (c : UInt8) : HintKind :=
  if c = 0 then .same
  else if c = 1 then .even
  else if c = 2 then .odd
  else .unknown c

/-- Name of a kind. -/
def name : HintKind → String
  | .same => "none"
  | .even => "even"
  | .odd => "odd"
  | .unknown c => "HintKind(" ++ toString c.toNat ++ ")"

/-- The kind with a given name. -/
def ofName? (s : String) : Option HintKind :=
  [.same, .even, .odd].find? fun k => k.name = s

/-- Kinds that ask for half of a pair. -/
def isPair (k : HintKind) : Bool :=
  k = .even || k = .odd

end HintKind

/-- An allocation hint. -/
structure Hint where
  kind : HintKind := .same
  reg : Reg := .noreg
deriving DecidableEq, Repr, Inhabited

/-- Register use and hints of a function. -/
structure RegTable where
  used : RegSet := {}
  /-- Hints by register, one for each. -/
  hints : List (Reg × Hint) := []
  /-- Virtual registers handed out so far. -/
  virtuals : Nat := 0
deriving DecidableEq, Repr, Inhabited

namespace RegTable

/-- Records a register as used. -/
def use (t : RegTable) (r : Reg) : RegTable :=
  { t with used := t.used.insert r }

/-- Records a register as used; it has to be physical. -/
def useChecked (t : RegTable) (r : Reg) : Except Fault RegTable :=
  if r.isPhysical then .ok (t.use r) else .error (.unusable r)

/-- Whether a register is used. -/
def isUsed (t : RegTable) (r : Reg) : Bool :=
  t.used.contains r

/-- A fresh virtual register. -/
def newVirtual (t : RegTable) : Except Fault (Reg × RegTable) :=
  match Reg.ofVirtual t.virtuals with
  | .ok r => .ok (r, { t with virtuals := t.virtuals + 1 })
  | .error f => .error f

/-- Hint of a register. Registers without a hint have the empty one. -/
def hint (t : RegTable) (r : Reg) : Hint :=
  (t.hints.lookup r).getD {}

/-- Records a hint for a register. The empty hint removes what was recorded. -/
def setHint (t : RegTable) (r : Reg) (h : Hint) : RegTable :=
  let others := t.hints.filter fun e => e.1 ≠ r
  if h = {} then { t with hints := others }
  else { t with hints := (r, h) :: others }

/-- Registers with hints, in register order. -/
def hinted (t : RegTable) : List Reg :=
  (t.hints.map Prod.fst).mergeSort fun a b => a.number ≤ b.number

end RegTable

end FrameLowering
