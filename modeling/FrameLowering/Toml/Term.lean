import FrameLowering.Toml.Scalar

/-!
# The text of a TOML document

A document is a list of statements: headers of tables and of arrays of tables, and
assignments of terms to keys. `Statement.readAll?` reads the text of a document; what the
statements together denote is another matter.
-/

namespace FrameLowering.Toml

/-- A key: the parts between its dots. -/
abbrev Key := List String

/-- A value as it is written. -/
inductive Term where
  | scalar (s : Scalar)
  | array (items : List Term)
  | inline (entries : List (Key × Term))

/-- A line of a document, or several for a long value. -/
inductive Statement where
  /-- The header of a table. -/
  | table (key : Key)
  /-- The header of an element of an array of tables. -/
  | element (key : Key)
  | assign (key : Key) (t : Term)

/-- Characters that a document can have besides line ends. The replacement character
stands for what could not be read. -/
def isTextChar (c : Char) : Bool :=
  c = '\t' || (0x20 ≤ c.toNat && c.toNat ≠ 0x7f && c.toNat ≠ 0xfffd)

/-- Whether a text consists of characters that a document can have. A carriage return
belongs to a line's end. -/
def isText : List Char → Bool
  | [] => true
  | '\r' :: '\n' :: cs => isText cs
  | c :: cs => (c = '\n' || isTextChar c) && isText cs

/-- Drops blanks. -/
def dropBlanks (cs : List Char) : List Char :=
  cs.dropWhile isBlank

/-- Drops blanks, line ends and comments. Within a comment everything up to the line's end
is dropped. -/
def dropSpace : (comment : Bool) → List Char → List Char
  | _, [] => []
  | comment, c :: cs =>
    if isNewline c then dropSpace false cs
    else if comment || isBlank c then dropSpace comment cs
    else if c = '#' then dropSpace true cs
    else c :: cs

/-- Characters of a key without quotes. -/
def isBare (c : Char) : Bool :=
  Text.Decimal.isDigit c || ('a' ≤ c && c ≤ 'z') || ('A' ≤ c && c ≤ 'Z') || c = '_' || c = '-'

/-- Reads a part of a key. Quoted ones are strings of one line. -/
def readPart? (cs : List Char) : Option (String × List Char) :=
  match cs with
  | '"' :: rest => do
    let (raw, rest) ← closeBasic rest
    return (String.ofList (← unescape raw), rest)
  | '\'' :: rest => do
    let (raw, rest) ← closeLiteral rest
    return (String.ofList raw, rest)
  | _ =>
    let bare := cs.takeWhile isBare
    if bare = [] then none else some (String.ofList bare, cs.dropWhile isBare)

/-- Reads a key of at most `fuel` parts, and the blanks after it. -/
def readKey? : (fuel : Nat) → List Char → Option (Key × List Char)
  | 0, _ => none
  | fuel + 1, cs => do
    let (part, rest) ← readPart? (dropBlanks cs)
    match dropBlanks rest with
    | '.' :: rest =>
      let (parts, rest) ← readKey? fuel rest
      return (part :: parts, rest)
    | rest => return ([part], rest)

mutual

/-- Reads a value, nested at most `fuel` deep. -/
def readTerm? : (fuel : Nat) → List Char → Option (Term × List Char)
  | 0, _ => none
  | fuel + 1, cs =>
    match dropBlanks cs with
    | '[' :: rest => do
      let (items, rest) ← readItems? fuel rest
      return (.array items, rest)
    | '{' :: rest =>
      match dropBlanks rest with
      | '}' :: rest => some (.inline [], rest)
      | rest => do
        let (entries, rest) ← readEntries? fuel rest
        return (.inline entries, rest)
    | rest => (readScalar? rest).map fun e => (.scalar e.1, e.2)

/-- Reads the rest of an array, from an item or the closing bracket on. -/
def readItems? : (fuel : Nat) → List Char → Option (List Term × List Char)
  | 0, _ => none
  | fuel + 1, cs =>
    match dropSpace false cs with
    | ']' :: rest => some ([], rest)
    | rest => do
      let (t, rest) ← readTerm? fuel rest
      match dropSpace false rest with
      | ',' :: rest =>
        let (ts, rest) ← readItems? fuel rest
        return (t :: ts, rest)
      | ']' :: rest => return ([t], rest)
      | _ => none

/-- Reads the rest of an inline table, from an entry on. -/
def readEntries? : (fuel : Nat) → List Char → Option (List (Key × Term) × List Char)
  | 0, _ => none
  | fuel + 1, cs => do
    let (key, t, rest) ← readAssignment? fuel cs
    match dropBlanks rest with
    | ',' :: rest =>
      let (es, rest) ← readEntries? fuel rest
      return ((key, t) :: es, rest)
    | '}' :: rest => return ([(key, t)], rest)
    | _ => none

/-- Reads an assignment. -/
def readAssignment? : (fuel : Nat) → List Char → Option (Key × Term × List Char)
  | 0, _ => none
  | fuel + 1, cs => do
    match ← readKey? (fuel + 1) cs with
    | (key, '=' :: rest) =>
      let (t, rest) ← readTerm? fuel rest
      return (key, t, rest)
    | _ => none

end

/-- Drops blanks and a comment up to the end of the line, which has to be there. -/
def endLine? (cs : List Char) : Option (List Char) :=
  match dropBlanks cs with
  | [] => some []
  | '#' :: rest => some (rest.dropWhile fun c => !isNewline c)
  | c :: rest => if isNewline c then some rest else none

/-- Reads a statement, the first character of which comes first. -/
def Statement.read? (fuel : Nat) (cs : List Char) : Option (Statement × List Char) :=
  match cs with
  | '[' :: '[' :: rest => do
    match ← readKey? fuel rest with
    | (key, ']' :: ']' :: rest) => return (.element key, rest)
    | _ => none
  | '[' :: rest => do
    match ← readKey? fuel rest with
    | (key, ']' :: rest) => return (.table key, rest)
    | _ => none
  | _ => do
    let (key, t, rest) ← readAssignment? fuel cs
    return (.assign key t, rest)

/-- Reads at most `fuel` statements. -/
def Statement.readUpTo? : (fuel : Nat) → List Char → Option (List Statement)
  | 0, _ => none
  | fuel + 1, cs =>
    match dropSpace false cs with
    | [] => some []
    | rest => do
      let (s, rest) ← Statement.read? (rest.length + 1) rest
      let rest ← endLine? rest
      return s :: (← readUpTo? fuel rest)

/-- Reads a document, which may begin with a byte order mark. -/
def Statement.readAll? (text : List Char) : Option (List Statement) :=
  let text :=
    match text with
    | c :: cs => if c.toNat = 0xfeff then cs else text
    | [] => []
  if isText text then Statement.readUpTo? (text.length + 1) text else none

end FrameLowering.Toml
