import FrameLowering.Fault

/-!
# Frame objects

A frame object is an abstract stack slot. Objects with an index from zero up are placed
by frame lowering; fixed objects, with indices from minus one down, already exist when
the function is entered. Offsets are measured from the stack pointer on entry, below
the save area of variadic arguments.

Sizes, offsets and indices are 64-bit integers, and their sums wrap.
-/

namespace FrameLowering

/-- A stack slot. -/
structure FrameObject where
  size : Int64
  align : Int64
  fixed : Bool := false
  /-- Dead objects take up no space. -/
  dead : Bool := false
  spillSlot : Bool := false
  offset : Int64 := 0
deriving DecidableEq, Repr, Inhabited

/-- The slot of a spilled callee-saved register. -/
structure SavedSlot where
  reg : Reg
  index : Int64
  area : Area
deriving DecidableEq, Repr, Inhabited

/-- The index that stands for no object. -/
def noIndex : Int64 := -2147483648

/-- The objects of a function's frame, and the properties of the function that shape
it. Objects are never deleted. -/
structure Frame where
  /-- Objects with indices 0, 1, 2, … -/
  objects : List FrameObject := []
  /-- Objects with indices -1, -2, -3, … -/
  fixed : List FrameObject := []
  /-- Bytes of the frame, without the save area of variadic arguments. -/
  stackSize : Int64 := 0
  /-- Adjustment of frame offsets in debug information. -/
  offsetAdjustment : Int64 := 0
  /-- Bytes of the largest outgoing argument area. -/
  maxCallFrameSize : Int64 := 0
  /-- Bytes of the save area of variadic arguments, which is pushed first. -/
  varArgsSaveSize : Int64 := 0
  /-- Whether the function allocates stack space dynamically. -/
  hasVarSized : Bool := false
  /-- Whether the function takes the address of its own frame. -/
  addressTaken : Bool := false
  hasCalls : Bool := false
  /-- Slots of the spilled callee-saved registers, in spill order. -/
  saved : List SavedSlot := []
  /-- Object reserved for scavenging. -/
  scavengingIndex : Int64 := noIndex
deriving DecidableEq, Repr, Inhabited

namespace FrameObject

/-- Words for the properties of an object. -/
def flagNames (o : FrameObject) : List String :=
  (if o.fixed then ["fixed"] else []) ++ (if o.spillSlot then ["spill"] else []) ++
    (if o.dead then ["dead"] else [])

/-- Description of the object with a given index. -/
def describe (o : FrameObject) (index : Int64) : String :=
  let flags :=
    if o.flagNames = [] then "" else " (" ++ String.intercalate ", " o.flagNames ++ ")"
  "fi:" ++ toString index.toInt ++ " size=" ++ toString o.size.toInt ++ " align=" ++
    toString o.align.toInt ++ " offset=" ++ toString o.offset.toInt ++ flags

end FrameObject

namespace Frame

/-- Position of an index in the table of its sign. -/
def position (index : Int64) : Nat :=
  if 0 ≤ index then index.toInt.toNat else (-1 - index.toInt).toNat

/-- The object with a given index. -/
def object? (f : Frame) (index : Int64) : Option FrameObject :=
  if 0 ≤ index then f.objects[position index]? else f.fixed[position index]?

/-- The frame with one object changed. -/
def modify (f : Frame) (index : Int64) (g : FrameObject → FrameObject) : Frame :=
  if 0 ≤ index then { f with objects := f.objects.modify (position index) g }
  else { f with fixed := f.fixed.modify (position index) g }

/-- Offset of an object, which has to exist. -/
def objectOffset (f : Frame) (index : Int64) : Except Fault Int64 :=
  match f.object? index with
  | some o => .ok o.offset
  | none => .error (.invalidIndex index.toInt)

/-- Appends an object to those that lowering places, and returns its index. -/
def push (f : Frame) (o : FrameObject) : Int64 × Frame :=
  (Int64.ofNat f.objects.length, { f with objects := f.objects ++ [o] })

/-- Sizes and alignments that an object can have. -/
def isShape (size align : Int64) : Bool :=
  0 ≤ size && 0 < align && align &&& (align - 1) = 0

/-- A new object that lowering places. -/
def createObject (f : Frame) (size align : Int64) (spillSlot : Bool) :
    Except Fault (Int64 × Frame) :=
  if isShape size align then .ok (f.push { size, align, spillSlot })
  else .error (.invalidObject size.toInt align.toInt)

/-- A new object at a fixed offset from the stack pointer on entry. -/
def createFixed (f : Frame) (size offset : Int64) : Int64 × Frame :=
  (-1 - Int64.ofNat f.fixed.length,
    { f with fixed := f.fixed ++ [{ size, align := 4, fixed := true, offset }] })

/-- Smallest index. -/
def indexBegin (f : Frame) : Int64 :=
  -Int64.ofNat f.fixed.length

/-- One more than the largest index. -/
def indexEnd (f : Frame) : Int64 :=
  Int64.ofNat f.objects.length

/-- Objects that lowering places, with their indices. -/
def indexed (f : Frame) : List (Int64 × FrameObject) :=
  f.objects.zipIdx.map fun e => (Int64.ofNat e.2, e.1)

/-- Fixed objects with their indices. -/
def indexedFixed (f : Frame) : List (Int64 × FrameObject) :=
  f.fixed.zipIdx.map fun e => (-1 - Int64.ofNat e.2, e.1)

/-- Order by offset, then by index. -/
def before (a b : Int64 × FrameObject) : Bool :=
  a.2.offset < b.2.offset || (a.2.offset = b.2.offset && a.1 ≤ b.1)

/-- Fixed objects and live objects from the lowest address to the highest. -/
def byOffset (f : Frame) : List (Int64 × FrameObject) :=
  (f.indexedFixed ++ f.indexed.filter fun e => !e.2.dead).mergeSort before

/-- Description of the frame's properties. -/
def summary (f : Frame) : String :=
  "frame: stack size " ++ toString f.stackSize.toInt ++
    (if f.maxCallFrameSize ≠ 0 then
      ", max call frame " ++ toString f.maxCallFrameSize.toInt else "") ++
    (if f.varArgsSaveSize ≠ 0 then ", varargs " ++ toString f.varArgsSaveSize.toInt else "") ++
    (if f.hasVarSized then ", var-sized" else "") ++
    (if f.addressTaken then ", frame address taken" else "") ++ "\n"

/-- Description of one object and of what it is for. -/
def describeObject (f : Frame) (e : Int64 × FrameObject) : String :=
  "\t" ++ e.2.describe e.1 ++
    (if e.1 = f.scavengingIndex then " scavenging" else "") ++
    String.join (f.saved.map fun s => if s.index = e.1 then " saves " ++ s.reg.name else "") ++ "\n"

/-- Description of the frame. -/
def describe (f : Frame) : String :=
  f.summary ++ String.join (f.byOffset.map f.describeObject)

end Frame

end FrameLowering
