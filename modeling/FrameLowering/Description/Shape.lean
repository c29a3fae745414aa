import FrameLowering.Description.Basic

/-!
# The shape of a description file

What a description file holds, whatever notation it is written in. A notation gives a
`Datum` of the shape `fileShape`, and `functionsOf` takes the descriptions out of it. A
field that is not there has its default value.
-/

namespace FrameLowering

/-- What kind of value is expected at a place. -/
inductive Shape where
  | text
  | integer
  | boolean
  | list (item : Shape)
  | record (fields : List (String × Shape))

/-- A value of a description file. -/
inductive Datum where
  | text (s : String)
  | integer (n : Int64)
  | boolean (b : Bool)
  | list (items : List Datum)
  | record (entries : List (String × Datum))

namespace Datum

/-- A field of a record. -/
def field? (d : Datum) (name : String) : Option Datum :=
  match d with
  | .record entries => (entries.find? fun e => e.1 = name).map (·.2)
  | _ => none

/-- The text of a field. -/
def textAt (d : Datum) (name : String) : String :=
  match d.field? name with
  | some (.text s) => s
  | _ => ""

/-- The integer of a field. -/
def integerAt (d : Datum) (name : String) : Int64 :=
  match d.field? name with
  | some (.integer n) => n
  | _ => 0

/-- The truth value of a field. -/
def booleanAt (d : Datum) (name : String) : Bool :=
  match d.field? name with
  | some (.boolean b) => b
  | _ => false

/-- The items of a field. -/
def listAt (d : Datum) (name : String) : List Datum :=
  match d.field? name with
  | some (.list items) => items
  | _ => []

/-- The texts among some values. -/
def texts (ds : List Datum) : List String :=
  ds.filterMap fun
    | .text s => some s
    | _ => none

/-- The integers among some values. -/
def integers (ds : List Datum) : List Int64 :=
  ds.filterMap fun
    | .integer n => some n
    | _ => none

mutual

/-- A value laid over another one. Of records the fields are laid over each other, and of
lists the items, unless there are more of them than before. -/
def overlay (old : Datum) : Datum → Datum
  | .list items =>
    match old with
    | .list olds => .list (if items.length ≤ olds.length then overlayItems olds items else items)
    | _ => .list items
  | .record entries =>
    match old with
    | .record olds => .record (overlayEntries olds entries)
    | _ => .record entries
  | d => d

/-- Items laid over others. -/
def overlayItems : (olds : List Datum) → List Datum → List Datum
  | o :: os, d :: ds => overlay o d :: overlayItems os ds
  | _, ds => ds

/-- Fields laid over others, which come last. -/
def overlayEntries (olds : List (String × Datum)) : List (String × Datum) → List (String × Datum)
  | [] => olds
  | (name, d) :: es =>
    (name, match olds.lookup name with | some o => overlay o d | none => d) :: overlayEntries olds es

end

end Datum

/-- Shape of a frame object. -/
def objectShape : Shape := .record [
  ("size", .integer), ("align", .integer), ("fixed", .boolean), ("offset", .integer)]

/-- Shape of a block. -/
def blockShape : Shape := .record [
  ("successors", .list .integer), ("insts", .list .text)]

/-- Shape of a function. -/
def functionShape : Shape := .record [
  ("name", .text), ("abi", .text), ("frame_address_taken", .boolean), ("var_sized", .boolean),
  ("has_calls", .boolean), ("max_call_frame_size", .integer), ("varargs_save_size", .integer),
  ("used", .list .text), ("object", .list objectShape), ("block", .list blockShape)]

/-- Shape of a file. -/
def fileShape : Shape := .record [("function", .list functionShape)]

/-- The object that a value of its shape describes. -/
def ObjectDesc.ofDatum (d : Datum) : ObjectDesc where
  size := d.integerAt "size"
  align := d.integerAt "align"
  fixed := d.booleanAt "fixed"
  offset := d.integerAt "offset"

/-- The block that a value of its shape describes. -/
def BlockDesc.ofDatum (d : Datum) : BlockDesc where
  successors := Datum.integers (d.listAt "successors")
  insts := Datum.texts (d.listAt "insts")

/-- The function that a value of its shape describes. -/
def FunctionDesc.ofDatum (d : Datum) : FunctionDesc where
  name := d.textAt "name"
  abi := d.textAt "abi"
  frameAddressTaken := d.booleanAt "frame_address_taken"
  varSized := d.booleanAt "var_sized"
  hasCalls := d.booleanAt "has_calls"
  maxCallFrameSize := d.integerAt "max_call_frame_size"
  varArgsSaveSize := d.integerAt "varargs_save_size"
  used := Datum.texts (d.listAt "used")
  objects := (d.listAt "object").map ObjectDesc.ofDatum
  blocks := (d.listAt "block").map BlockDesc.ofDatum

/-- The functions of a file. -/
def functionsOf (file : Datum) : List FunctionDesc :=
  (file.listAt "function").map FunctionDesc.ofDatum

end FrameLowering
