import FrameLowering.Description.Shape
import FrameLowering.Yaml.Resolved

/-!
# Descriptions in YAML

`Yaml.Node.conform?` fits a node to a shape. A node that stands for nothing leaves a field
at its default, and is no item of a list. The entries of a mapping under the key `<<` are
added to those of the mapping around it, which come first.

The nodes are counted, so that a small text cannot stand for too many of them by its
aliases.
-/

namespace FrameLowering.Yaml

/-- Number of nodes that have been fitted, and of those among them that are part of an
alias. -/
structure Tally where
  nodes : Nat := 0
  aliased : Nat := 0
deriving DecidableEq, Repr

namespace Tally

/-- Whether too large a share of the nodes comes from aliases. The share may be 99 percent
for up to 400000 nodes, and falls to 10 percent for 4000000. -/
def isExcessive (t : Tally) : Bool :=
  100 < t.aliased && 1000 < t.nodes &&
    if t.nodes ≤ 400000 then 99 * t.nodes < 100 * t.aliased
    else if 4000000 ≤ t.nodes then t.nodes < 10 * t.aliased
    else t.nodes * (99 * 3600000 - 89 * (t.nodes - 400000)) < 360000000 * t.aliased

/-- One more node. -/
def next (inAlias : Bool) (t : Tally) : Tally :=
  ⟨t.nodes + 1, if inAlias then t.aliased + 1 else t.aliased⟩

end Tally

/-- What is fitted while the nodes are counted. -/
abbrev Fit := StateT Tally Option

/-- Counts a node. -/
def count (inAlias : Bool) : Fit Unit := fun t =>
  if (t.next inAlias).isExcessive then none else some ((), t.next inAlias)

/-- The text of a node as a key; none for a key that stands for nothing. -/
def Node.keyText (inAlias : Bool) : Node → Fit (Option String)
  | .scalar t plain s => do
    count inAlias
    let r ← Resolved.ofScalar? t plain s
    return if r = .null then none else some (r.asText s)
  | .alias _ (.scalar t plain s) => do
    count inAlias
    count true
    let r ← Resolved.ofScalar? t plain s
    return if r = .null then none else some (r.asText s)
  | _ => failure

/-- Whether a key adds the entries of other mappings. -/
def Node.isMerge : Node → Bool
  | .scalar t plain s =>
    s = "<<" &&
      match t.filter (· ≠ "!") with
      | some t => Resolved.shortTag t = "!!merge"
      | none => plain
  | _ => false

/-- Whether two keys are the same. -/
def Node.sameKey : Node → Node → Bool
  | .scalar _ _ s, .scalar _ _ t => s = t
  | .sequence _, .sequence _ => true
  | .mapping _, .mapping _ => true
  | .alias a _, .alias b _ => a = b
  | .alias a _, .cycle b => a = b
  | .cycle a, .alias b _ => a = b
  | .cycle a, .cycle b => a = b
  | _, _ => false

/-- Whether all keys of a mapping are different. -/
def distinctKeys : List (Node × Node) → Bool
  | [] => true
  | (k, _) :: es => !es.any (fun e => k.sameKey e.1) && distinctKeys es

/-- The texts of the keys of a mapping. -/
def keyTexts (inAlias : Bool) (entries : List (Node × Node)) : Fit (List String) := do
  return (← entries.mapM fun e => e.1.keyText inAlias).filterMap id

/-- A scalar fitted to a shape; it may be nothing. -/
def conformScalar? (r : Resolved) (s : String) : Shape → Option (Option Datum)
  | .list _ => if r = .null then some (some (.list [])) else none
  | shape =>
    if r = .null then some none
    else
      match shape with
      | .text => some (some (.text (r.asText s)))
      | .integer => r.integer?.map fun n => some (.integer n)
      | .boolean => r.boolean?.map fun b => some (.boolean b)
      | _ => none

mutual

/-- A node fitted to a shape; it may be nothing. -/
def Node.fit (inAlias : Bool) : Node → Shape → Fit (Option Datum)
  | .scalar t plain s, shape => do
    count inAlias
    conformScalar? (← Resolved.ofScalar? t plain s) s shape
  | .sequence items, .list item => do
    count inAlias
    return some (.list (← fitItems inAlias items item))
  | .mapping entries, .record fields => do
    count inAlias
    if distinctKeys entries then
      return some (.record (← fitEntries inAlias fields (some entries) [] [] entries).1)
    else failure
  | .alias _ target, shape => do
    count inAlias
    target.fit true shape
  | _, _ => failure

/-- Items fitted to a shape. -/
def fitItems (inAlias : Bool) : List Node → Shape → Fit (List Datum)
  | [], _ => return []
  | n :: ns, shape => do
    let d ← n.fit inAlias shape
    return d.toList ++ (← fitItems inAlias ns shape)

/-- Entries of a mapping fitted to the shapes of fields, and the names that are taken after
them. Mappings that are added come last. What has a name in `taken` is left out of an added
mapping, and another one, which has the entries `own`, sets no field in `done` again. -/
def fitEntries (inAlias : Bool) (fields : List (String × Shape))
    (own : Option (List (Node × Node))) :
    (taken done : List String) → List (Node × Node) →
    Fit (List (String × Datum) × List String)
  | taken, _, [] => return ([], taken)
  | taken, done, (key, value) :: es =>
    if key.isMerge then do
      let (ds, taken) ← fitEntries inAlias fields own taken done es
      let taken ← match own with
        | some entries => keyTexts inAlias entries
        | none => pure taken
      let (more, taken) ← value.fitMerge inAlias fields taken
      return (ds ++ more, taken)
    else do
      match ← key.keyText inAlias with
      | none => fitEntries inAlias fields own taken done es
      | some name =>
        if own.isNone && taken.contains name then fitEntries inAlias fields own taken done es
        else if done.contains name then failure
        else
          let d ← value.fit inAlias (← fields.lookup name)
          let (more, taken) ←
            fitEntries inAlias fields own (name :: taken) (name :: done) es
          return ((d.map (name, ·)).toList ++ more, taken)

/-- Entries of the mappings that a node adds, and the names that are taken after them. -/
def Node.fitMerge (inAlias : Bool) (fields : List (String × Shape)) :
    (taken : List String) → Node → Fit (List (String × Datum) × List String)
  | taken, .mapping entries => do
    count inAlias
    if distinctKeys entries then fitEntries inAlias fields none taken [] entries else failure
  | taken, .alias _ (.mapping entries) => do
    count inAlias
    count true
    if distinctKeys entries then fitEntries true fields none taken [] entries else failure
  | taken, .sequence items => fitMerges inAlias fields taken items
  | _, _ => failure

/-- Entries of a list of mappings, and the names that are taken after them. -/
def fitMerges (inAlias : Bool) (fields : List (String × Shape)) :
    (taken : List String) → List Node → Fit (List (String × Datum) × List String)
  | taken, [] => return ([], taken)
  | _, .sequence _ :: _ => failure
  | taken, n :: ns => do
    let (ds, taken) ← n.fitMerge inAlias fields taken
    let (more, taken) ← fitMerges inAlias fields taken ns
    return (ds ++ more, taken)

end

/-- The content of a document fitted to a shape; it may be nothing. The document counts as
a node too. -/
def Node.conform? (n : Node) (shape : Shape) : Option (Option Datum) :=
  ((n.fit false shape).run { nodes := 1 }).map (·.1)

end FrameLowering.Yaml
