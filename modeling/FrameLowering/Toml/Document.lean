import FrameLowering.Toml.Term

/-!
# What a TOML document denotes

The statements of a document build a tree of tables, one after the other. `Draft` is the
tree so far, with the paths that a later statement may still define. `Document.read?`
reads a whole document.
-/

namespace FrameLowering.Toml

/-- A value of a document. -/
inductive Value where
  | scalar (s : Scalar)
  | array (items : List Value)
  | table (entries : List (String × Value))
  /-- An array of tables, from headers or not yet complete. -/
  | tables (elements : List (List (String × Value)))

/-- A table, the entries in the order of their first definition. -/
abbrev Table := List (String × Value)

/-- The value of a key. -/
def Table.find? (t : Table) (name : String) : Option Value :=
  (List.find? (fun e => e.1 = name) t).map (·.2)

/-- The table with a key's value replaced or added. -/
def Table.put (name : String) (v : Value) : Table → Table
  | [] => [(name, v)]
  | e :: t => if e.1 = name then (name, v) :: t else e :: Table.put name v t

/-- Changes the table at the end of a path. An array of tables on the way stands for its
last element. -/
def Table.updateAt (f : Table → Option Table) : Key → Table → Option Table
  | [], t => f t
  | name :: path, t =>
    match t.find? name with
    | some (.table u) => (updateAt f path u).map fun u => t.put name (.table u)
    | some (.tables us) =>
      match us.getLast? with
      | some u => (updateAt f path u).map fun u => t.put name (.tables (us.dropLast ++ [u]))
      | none => none
    | _ => none

/-- The table at the end of a path. -/
def Table.at? : Key → Table → Option Table
  | [], t => some t
  | name :: path, t =>
    match t.find? name with
    | some (.table u) => Table.at? path u
    | some (.tables us) => us.getLast?.bind (Table.at? path)
    | _ => none

/-- A document as far as it has been read. -/
structure Draft where
  root : Table := []
  /-- Paths of tables that may still be defined. -/
  implicit : List Key := []
  /-- Paths of arrays, which may be defined again. -/
  arrays : List Key := []
  /-- Paths of the headers and assignments, in order. -/
  order : List Key := []

namespace Draft

/-- The draft in which a path may still be defined. -/
def allow (path : Key) (d : Draft) : Draft :=
  { d with implicit := path :: d.implicit }

/-- The draft in which a path may no longer be defined. -/
def settle (path : Key) (d : Draft) : Draft :=
  { d with implicit := d.implicit.filter (· ≠ path) }

/-- Records whether a path holds an array. -/
def classify (path : Key) (isArray : Bool) (d : Draft) : Draft :=
  let others := d.arrays.filter (· ≠ path)
  { d with arrays := if isArray then path :: others else others }

/-- Records whether a key of the table at a path holds an array. For a key without a name
that is recorded of the table itself, unless it is the root. -/
def classifyKey (path : Key) (name : String) (isArray : Bool) (d : Draft) : Draft :=
  if name = "" ∧ path ≠ [] then d.classify path isArray
  else d.classify (path ++ [name]) isArray

/-- Records a header or an assignment. -/
def note (path : Key) (d : Draft) : Draft :=
  { d with order := d.order ++ [path] }

/-- Writes a value into the table at a path. -/
def write (path : Key) (name : String) (v : Value) (d : Draft) : Option Draft :=
  (d.root.updateAt (fun t => some (t.put name v)) path).map fun root => { d with root }

/-- Defines a value in the table at a path. A value that is there remains if it may still
be defined; arrays are replaced. -/
def define (path : Key) (name : String) (v : Value) (d : Draft) : Option Draft :=
  match d.root.at? path with
  | none => none
  | some t =>
    let full := path ++ [name]
    if (t.find? name).isNone then d.write path name v
    else if full ∈ d.arrays then (d.settle full).write path name v
    else if full ∈ d.implicit then some (d.settle full)
    else none

/-- Makes sure that there is a table at each step of a path. Those that are new may still
be defined. -/
def openSteps : (path : Key) → (steps : Key) → Draft → Option Draft
  | _, [], d => some d
  | path, name :: steps, d => do
    let t ← d.root.at? path
    let full := path ++ [name]
    match t.find? name with
    | none =>
      let d ← (d.allow full).write path name (.table [])
      openSteps full steps d
    | some (.table _) | some (.tables _) => openSteps full steps d
    | some _ => none

/-- Opens a table, which must be one that may be defined. -/
def openTable (path : Key) (d : Draft) : Option Draft := do
  let name ← path.getLast?
  let d ← d.openSteps [] path.dropLast
  d.define path.dropLast name (.table [])

/-- Opens a new element of an array of tables. -/
def openElement (path : Key) (d : Draft) : Option Draft := do
  let name ← path.getLast?
  let d ← d.openSteps [] path.dropLast
  let t ← d.root.at? path.dropLast
  match t.find? name with
  | none => d.write path.dropLast name (.tables [[]])
  | some (.tables us) => d.write path.dropLast name (.tables (us ++ [[]]))
  | some _ => none

/-- Opens the tables of a key with dots, step by step. They may still be defined. -/
def openDotted : (path : Key) → (steps : Key) → Draft → Option Draft
  | _, [], d => some d
  | path, name :: steps, d => do
    let full := path ++ [name]
    openDotted full steps (← (d.allow full).openTable full)

/-- Begins an assignment in the table at a path: opens the tables of its key. -/
def beginAssign (path key : Key) (d : Draft) : Option Draft :=
  (d.openDotted path key.dropLast).map (note (path ++ key))

/-- Ends an assignment in the table at a path with its value. -/
def endAssign (path key : Key) (name : String) (v : Value) (d : Draft) : Option Draft :=
  (d.define (path ++ key.dropLast) name v).map
    (classifyKey (path ++ key.dropLast) name (match v with | .array _ => true | _ => false))

end Draft

mutual

/-- The value of a term under a key of the table at a path. Inline tables are built in
the draft, where they can clash with what is there. -/
def Term.value? (path : Key) (name : String) (inArray : Bool) :
    Term → Draft → Option (Value × Draft)
  | .scalar s, d => some (.scalar s, d)
  | .array items, d => do
    let (vs, d) ← itemValues? path name items (d.classifyKey path name true)
    return (.array vs, d)
  | .inline entries, d => do
    let full := path ++ [name]
    let d := d.allow full
    let d ← if inArray then d.openElement full else d.openTable full
    let (t, d) ← entryValues? full entries [] d
    return (.table t, d)

/-- The values of the items of an array. -/
def itemValues? (path : Key) (name : String) :
    List Term → Draft → Option (List Value × Draft)
  | [], d => some ([], d)
  | t :: ts, d => do
    let (v, d) ← t.value? path name true d
    let (vs, d) ← itemValues? path name ts d
    return (v :: vs, d)

/-- The entries of an inline table, after those in `t`. Of a key with dots only the last
part names the entry. -/
def entryValues? (path : Key) :
    List (Key × Term) → (t : Table) → Draft → Option (Table × Draft)
  | [], t, d => some (t, d)
  | (key, term) :: es, t, d => do
    let name ← key.getLast?
    let d ← d.beginAssign path key
    let (v, d) ← term.value? (path ++ key.dropLast) name false d
    let d ← d.endAssign path key name v
    entryValues? path es (t.put name v) d

end

/-- Adds a statement to a draft. Assignments go to the table of the last header. -/
def Statement.apply? (header : Key) (d : Draft) : Statement → Option (Key × Draft)
  | .table key => do
    let d ← d.openTable key
    return (key, (d.classify key false).note key)
  | .element key => do
    let d ← d.openElement key
    return (key, (d.classify key false).note key)
  | .assign key term => do
    let name ← key.getLast?
    let d ← d.beginAssign header key
    let (v, d) ← term.value? (header ++ key.dropLast) name false d
    return (header, ← d.endAssign header key name v)

/-- Adds statements to a draft. -/
def Draft.applyAll? : (header : Key) → Draft → List Statement → Option Draft
  | _, d, [] => some d
  | header, d, s :: ss =>
    match s.apply? header d with
    | some (header, d) => applyAll? header d ss
    | none => none

/-- A document: its tree, and the paths of its headers and assignments in order. -/
structure Document where
  root : Table
  order : List Key

/-- The document with a given text. -/
def Document.read? (text : List Char) : Option Document := do
  let statements ← Statement.readAll? text
  let d ← Draft.applyAll? [] {} statements
  return ⟨d.root, d.order⟩

/-- A character within the quotes of a key. -/
def keyChar (c : Char) : List Char :=
  match c with
  | '"' => ['\\', '"']
  | '\\' => ['\\', '\\']
  | '\x08' => ['\\', 'b']
  | '\t' => ['\\', 't']
  | '\n' => ['\\', 'n']
  | '\x0c' => ['\\', 'f']
  | '\r' => ['\\', 'r']
  | c =>
    if c.toNat < 0x20 ∨ c.toNat = 0x7f then
      "\\u00".toList ++ [Nat.digitChar (c.toNat / 16), Nat.digitChar (c.toNat % 16)]
    else [c]

/-- A part of a key as it is written, in quotes if it needs them. -/
def renderPart (part : String) : String :=
  if part ≠ "" ∧ part.toList.all isBare then part
  else "\"" ++ String.ofList (part.toList.flatMap keyChar) ++ "\""

/-- A key as it is written. -/
def Key.render (key : Key) : String :=
  String.intercalate "." (key.map renderPart)

end FrameLowering.Toml
