import FrameLowering.Description.Shape
import FrameLowering.Text.Letter
import FrameLowering.Toml.Document

/-!
# Descriptions in TOML

`Toml.Value.conform?` fits a value to a shape, and `Toml.Document.unknown?` finds the
first key that the shape does not know. A field is found under its name in any case. If it
is there more than once, the values are laid over each other.
-/

namespace FrameLowering.Toml

/-- The entries for a field: those with a name that differs from its own in case only. -/
def Table.entries (t : Table) (name : String) : List (String × Value) :=
  List.filter (fun e => Text.sameFold e.1.toList name.toList) t

/-- The items of an array, however it is written. -/
def Value.items? : Value → Option (List Value)
  | .array items => some items
  | .tables elements => some (elements.map .table)
  | _ => none

mutual

/-- The value fitted to a shape. -/
def Value.conform? : Shape → Value → Option Datum
  | .text, .scalar (.string s) => some (.text s)
  | .integer, .scalar (.integer n) => some (.integer n)
  | .boolean, .scalar (.boolean b) => some (.boolean b)
  | .list item, v => do
    let items ← v.items?
    return .list (← items.mapM (Value.conform? item))
  | .record fields, .table t => do
    return .record (← Table.conform? fields t)
  | _, _ => none

/-- The fields of a table fitted to their shapes. -/
def Table.conform? : List (String × Shape) → Table → Option (List (String × Datum))
  | [], _ => some []
  | (name, shape) :: fields, t => do
    let rest ← Table.conform? fields t
    match ← (t.entries name).mapM fun e => Value.conform? shape e.2 with
    | d :: ds => return (name, ds.foldl Datum.overlay d) :: rest
    | [] => return rest

end

mutual

/-- Paths within a value that a shape knows, after the path to the value. -/
def Value.known (path : Key) : Shape → Value → List Key
  | .list item, v => ((v.items?).getD []).flatMap (Value.known path item)
  | .record fields, .table t => Table.known path fields t
  | _, _ => []

/-- Paths within a table that are fields, or within fields. -/
def Table.known (path : Key) : List (String × Shape) → Table → List Key
  | [], _ => []
  | (name, shape) :: fields, t =>
    (t.entries name).flatMap (fun e =>
      (path ++ [e.1]) :: Value.known (path ++ [e.1]) shape e.2) ++ Table.known path fields t

end

/-- The document fitted to a shape. -/
def Document.conform? (shape : Shape) (d : Document) : Option Datum :=
  Value.conform? shape (.table d.root)

/-- The first key of a document that a shape does not know. -/
def Document.unknown? (shape : Shape) (d : Document) : Option Key :=
  let known := Value.known [] shape (.table d.root)
  d.order.find? fun key => !known.contains key

end FrameLowering.Toml
