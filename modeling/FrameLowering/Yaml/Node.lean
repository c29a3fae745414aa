import FrameLowering.Yaml.Token

/-!
# Nodes of a YAML document

`Node.read?` reads the first document of a text. Anchored nodes are remembered while the
document is read, and an alias holds the node that it stands for.
-/

namespace FrameLowering.Yaml

/-- A node of a document. -/
inductive Node where
  /-- A text, with its tag if it has one, and whether it is without quotes. -/
  | scalar (tag : Option String) (plain : Bool) (text : String)
  | sequence (items : List Node)
  | mapping (entries : List (Node × Node))
  | alias (name : String) (target : Node)
  /-- An alias of a node that it is part of. -/
  | cycle (name : String)

/-- The node of a place where nothing is written. -/
def Node.empty : Node :=
  .scalar none true ""

/-- What has been named in a document. -/
structure Names where
  /-- Beginnings of tags by their handle. -/
  handles : List (String × String) := [("!", "!"), ("!!", "tag:yaml.org,2002:")]
  /-- Nodes by their anchor, from the last. Those that are not complete are missing. -/
  anchors : List (String × Option Node) := []

namespace Names

/-- The full tag of a tag as it is written. -/
def tag? (n : Names) (t : Tag) : Option String :=
  if t.handle = "" then some t.suffix
  else
    match n.handles.lookup t.handle with
    | some start => if start ++ t.suffix = "" then none else some (start ++ t.suffix)
    | none => none

/-- The node of an alias. -/
def alias? (n : Names) (name : String) : Option Node :=
  match n.anchors.lookup name with
  | some (some target) => some (.alias name target)
  | some none => some (.cycle name)
  | none => none

/-- Begins a node with an anchor. -/
def begin (anchor : Option String) (n : Names) : Names :=
  match anchor with
  | some name => { n with anchors := (name, none) :: n.anchors }
  | none => n

/-- Completes a node with an anchor, before the beginning of which there were `count`
anchors. -/
def complete (anchor : Option String) (count : Nat) (node : Node) (n : Names) : Names :=
  match anchor with
  | some name =>
    { n with anchors := n.anchors.set (n.anchors.length - count - 1) (name, some node) }
  | none => n

end Names

/-- Properties of a node: its tag and its anchor. -/
structure Properties where
  tag : Option Tag := none
  anchor : Option String := none

/-- Reads the properties of a node, in either order. -/
def Properties.read : List Token → Properties × List Token
  | .anchor a :: .tag t :: ts => (⟨some t, some a⟩, ts)
  | .tag t :: .anchor a :: ts => (⟨some t, some a⟩, ts)
  | .anchor a :: ts => (⟨none, some a⟩, ts)
  | .tag t :: ts => (⟨some t, none⟩, ts)
  | ts => ({}, ts)

/-- Whether a node follows in a block. Between the items of a collection there may be
none. -/
def hasNode (absent : List Token) : List Token → Bool
  | [] => false
  | t :: _ => !absent.contains t

mutual

/-- Reads a node, nested at most `fuel` deep. In a `block` it may be a block collection,
and as a value of one also a sequence that is not indented. -/
def readNode? (block hanging : Bool) :
    (fuel : Nat) → Names → List Token → Option (Node × Names × List Token)
  | 0, _, _ => none
  | _ + 1, n, .alias name :: ts => (n.alias? name).map (·, n, ts)
  | fuel + 1, n, ts => do
    let (props, ts) := Properties.read ts
    let tag ← match props.tag with
      | some t => (n.tag? t).map some
      | none => some none
    let count := n.anchors.length
    let (node, n, ts) ← readContent? block hanging fuel tag props.anchor.isSome
      (n.begin props.anchor) ts
    return (node, n.complete props.anchor count node, ts)

/-- Reads a node after its properties. -/
def readContent? (block hanging : Bool) :
    (fuel : Nat) → (tag : Option String) → (anchored : Bool) → Names → List Token →
    Option (Node × Names × List Token)
  | 0, _, _, _, _ => none
  | fuel + 1, tag, anchored, n, ts =>
    match ts with
    | .scalar plain text :: rest => some (.scalar tag plain text, n, rest)
    | .flowSequence :: rest => do
      let (items, n, rest) ← readFlowItems? true fuel n rest
      return (.sequence items, n, rest)
    | .flowMapping :: rest => do
      let (entries, n, rest) ← readFlowEntries? true fuel n rest
      return (.mapping entries, n, rest)
    | _ =>
      match ts, block, hanging with
      | .entry :: _, _, true => do
        let (items, n, rest) ← readHangingItems? fuel n ts
        return (.sequence items, n, rest)
      | .blockSequence :: rest, true, _ => do
        let (items, n, rest) ← readItems? fuel n rest
        return (.sequence items, n, rest)
      | .blockMapping :: rest, true, _ => do
        let (entries, n, rest) ← readEntries? fuel n rest
        return (.mapping entries, n, rest)
      | _, _, _ => if anchored || tag.isSome then some (.scalar tag true "", n, ts) else none

/-- Reads a node of a block unless one of some tokens follows. -/
def readOptional? (hanging : Bool) (absent : List Token) :
    (fuel : Nat) → Names → List Token → Option (Node × Names × List Token)
  | 0, _, _ => none
  | fuel + 1, n, ts =>
    if hasNode absent ts then readNode? true hanging fuel n ts else some (.empty, n, ts)

/-- Reads a node between brackets unless one of some tokens follows. -/
def readOptionalFlow? (absent : List Token) :
    (fuel : Nat) → Names → List Token → Option (Node × Names × List Token)
  | 0, _, _ => none
  | fuel + 1, n, ts =>
    if hasNode absent ts then readNode? false false fuel n ts else some (.empty, n, ts)

/-- Reads the items of a block sequence and its end. -/
def readItems? : (fuel : Nat) → Names → List Token → Option (List Node × Names × List Token)
  | 0, _, _ => none
  | fuel + 1, n, ts =>
    match ts with
    | .entry :: ts => do
      let (item, n, ts) ← readOptional? false [.entry, .blockEnd] fuel n ts
      let (items, n, ts) ← readItems? fuel n ts
      return (item :: items, n, ts)
    | .blockEnd :: ts => some ([], n, ts)
    | _ => none

/-- Reads the items of a sequence that is not indented. -/
def readHangingItems? : (fuel : Nat) → Names → List Token → Option (List Node × Names × List Token)
  | 0, _, _ => none
  | fuel + 1, n, ts =>
    match ts with
    | .entry :: ts => do
      let (item, n, ts) ← readOptional? false [.entry, .key, .value, .blockEnd] fuel n ts
      let (items, n, ts) ← readHangingItems? fuel n ts
      return (item :: items, n, ts)
    | _ => some ([], n, ts)

/-- Reads the entries of a block mapping and its end. -/
def readEntries? :
    (fuel : Nat) → Names → List Token → Option (List (Node × Node) × Names × List Token)
  | 0, _, _ => none
  | fuel + 1, n, ts =>
    match ts with
    | .key :: ts => do
      let (key, n, ts) ← readOptional? true [.key, .value, .blockEnd] fuel n ts
      let (value, n, ts) ← readValue? fuel n ts
      let (entries, n, ts) ← readEntries? fuel n ts
      return ((key, value) :: entries, n, ts)
    | .blockEnd :: ts => some ([], n, ts)
    | _ => none

/-- Reads the value of an entry of a block mapping. -/
def readValue? : (fuel : Nat) → Names → List Token → Option (Node × Names × List Token)
  | 0, _, _ => none
  | fuel + 1, n, ts =>
    match ts with
    | .value :: ts => readOptional? true [.key, .value, .blockEnd] fuel n ts
    | _ => some (.empty, n, ts)

/-- Reads the items of a sequence in brackets and the closing one. An item may be a single
entry of a mapping. -/
def readFlowItems? (first : Bool) :
    (fuel : Nat) → Names → List Token → Option (List Node × Names × List Token)
  | 0, _, _ => none
  | fuel + 1, n, ts =>
    match first, ts with
    | _, .flowSequenceEnd :: ts => some ([], n, ts)
    | false, .flowEntry :: .flowSequenceEnd :: ts => some ([], n, ts)
    | false, .flowEntry :: ts => readFlowItem? fuel n ts
    | true, ts => readFlowItem? fuel n ts
    | _, _ => none

/-- Reads an item of a sequence in brackets, and those after it. -/
def readFlowItem? : (fuel : Nat) → Names → List Token → Option (List Node × Names × List Token)
  | 0, _, _ => none
  | fuel + 1, n, ts =>
    match ts with
    | .key :: ts => do
      let absent := [Token.value, .flowEntry, .flowSequenceEnd]
      let (key, n, rest) ← readOptionalFlow? absent fuel n ts
      let rest := if hasNode absent ts then rest else rest.drop 1
      let (value, n, rest) ← match rest with
        | .value :: rest => readOptionalFlow? [.flowEntry, .flowSequenceEnd] fuel n rest
        | _ => some (.empty, n, rest)
      let (items, n, rest) ← readFlowItems? false fuel n rest
      return (.mapping [(key, value)] :: items, n, rest)
    | _ => do
      let (item, n, ts) ← readNode? false false fuel n ts
      let (items, n, ts) ← readFlowItems? false fuel n ts
      return (item :: items, n, ts)

/-- Reads the entries of a mapping in braces and the closing one. -/
def readFlowEntries? (first : Bool) :
    (fuel : Nat) → Names → List Token → Option (List (Node × Node) × Names × List Token)
  | 0, _, _ => none
  | fuel + 1, n, ts =>
    match first, ts with
    | _, .flowMappingEnd :: ts => some ([], n, ts)
    | false, .flowEntry :: .flowMappingEnd :: ts => some ([], n, ts)
    | false, .flowEntry :: ts => readFlowEntry? fuel n ts
    | true, ts => readFlowEntry? fuel n ts
    | _, _ => none

/-- Reads an entry of a mapping in braces, and those after it. -/
def readFlowEntry? :
    (fuel : Nat) → Names → List Token → Option (List (Node × Node) × Names × List Token)
  | 0, _, _ => none
  | fuel + 1, n, ts =>
    match ts with
    | .key :: ts => do
      let (key, n, ts) ← readOptionalFlow? [.value, .flowEntry, .flowMappingEnd] fuel n ts
      let (value, n, ts) ← match ts with
        | .value :: ts => readOptionalFlow? [.flowEntry, .flowMappingEnd] fuel n ts
        | _ => some (.empty, n, ts)
      let (entries, n, ts) ← readFlowEntries? false fuel n ts
      return ((key, value) :: entries, n, ts)
    | _ => do
      let (key, n, ts) ← readNode? false false fuel n ts
      let (entries, n, ts) ← readFlowEntries? false fuel n ts
      return ((key, .empty) :: entries, n, ts)

end

/-- Reads the directives before a document. The version is given at most once, and a
handle too. -/
def readDirectives? : (version : Bool) → (handles : List (String × String)) → List Token →
    Option (List (String × String) × List Token)
  | version, handles, .version major minor :: ts =>
    if version ∨ major ≠ 1 ∨ minor ≠ 1 then none else readDirectives? true handles ts
  | version, handles, .handle name target :: ts =>
    if (handles.lookup name).isSome then none
    else readDirectives? version ((name, target) :: handles) ts
  | _, handles, ts => some (handles, ts)

/-- Whether a document is over. -/
def atDocumentEnd : List Token → Bool
  | .version _ _ :: _ | .handle _ _ :: _ | .documentStart :: _ | .documentEnd :: _
  | .textEnd :: _ => true
  | _ => false

/-- Reads the first document of some tokens; there may be none. -/
def readDocument? (ts : List Token) : Option (Option (Node × List Token)) :=
  match ts with
  | .textEnd :: _ => some none
  | .version _ _ :: _ | .handle _ _ :: _ | .documentStart :: _ => do
    let (handles, ts) ← readDirectives? false [] ts
    match ts with
    | .documentStart :: ts =>
      if atDocumentEnd ts then return some (.empty, ts)
      else
        let names : Names := {}
        let (node, _, ts) ← readNode? true false (5 * ts.length + 5)
          { names with handles := handles ++ names.handles } ts
        return some (node, ts)
    | _ => none
  | _ => do
    let (node, _, ts) ← readNode? true false (5 * ts.length + 5) {} ts
    return some (node, ts)

/-- Reads the first document of a text. A text without one has nothing, and what follows
the document matters only if it cannot be split into tokens. -/
def Node.read? (text : List Char) : Option (Option Node) :=
  match readDocument? (Token.scan text) with
  | some (some (_, .invalid :: _)) => none
  | some (some (node, _)) => some (some node)
  | some none => some none
  | none => none

end FrameLowering.Yaml
