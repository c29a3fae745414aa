import FrameLowering.Text.Utf8
import FrameLowering.Yaml.Scalar
import FrameLowering.Yaml.Stretch

/-!
# Tokens of a YAML text

`Token.scan` splits a text into tokens. Indentation becomes tokens of its own, which begin
and end block collections. That a scalar is a key shows only at the colon after it, and
its tokens are then put in before it.

A text that cannot be split to its end has the token `invalid` at the end. Reading looks
ahead, so it stands two tokens before the place where splitting fails.
-/

namespace FrameLowering.Yaml

/-- A tag as it is written: a handle, which stands for the beginning of the tag, and the
rest. -/
structure Tag where
  handle : String
  suffix : String
deriving DecidableEq, Repr

/-- A token. -/
inductive Token where
  | version (major minor : Nat)
  | handle (name target : String)
  | documentStart
  | documentEnd
  | blockSequence
  | blockMapping
  | blockEnd
  | flowSequence
  | flowSequenceEnd
  | flowMapping
  | flowMappingEnd
  | entry
  | flowEntry
  | key
  | value
  | alias (name : String)
  | anchor (name : String)
  | tag (t : Tag)
  | scalar (plain : Bool) (text : String)
  | textEnd
  | invalid
deriving DecidableEq, Repr

/-- A token that turns out to be a key if a colon follows. -/
structure KeyStart where
  /-- Whether it has to be a key. -/
  required : Bool
  /-- Number of tokens before it. -/
  index : Nat
  line : Nat
  col : Nat
deriving DecidableEq, Repr

/-- A text as far as it has been split. -/
structure Scanner where
  place : Place
  /-- The tokens, from the last. -/
  tokens : List Token := []
  /-- Column of the innermost block, or -1. -/
  indent : Int := -1
  /-- Columns of the blocks around it. -/
  indents : List Int := []
  /-- Whether a key may begin here. -/
  keys : Bool := true
  /-- What may still become a key between the innermost brackets. -/
  start : Option KeyStart := none
  /-- The same for the brackets around them, and for the block at the end. -/
  outer : List (Option KeyStart) := []
  /-- Whether the text goes on to its end; otherwise it cannot be read any further. -/
  whole : Bool := true
  /-- How many characters at the end of the text form lines that are taken as they are, if
  others lose their first character. -/
  keep : Option Nat := none
deriving Repr

namespace Scanner

/-- Whether the place is between brackets. -/
def flow (s : Scanner) : Bool :=
  !s.outer.isEmpty

/-- Adds a token. -/
def emit (t : Token) (s : Scanner) : Scanner :=
  { s with tokens := t :: s.tokens }

/-- Adds a token and goes on at another place. -/
def emitAt (t : Token) (place : Place) (s : Scanner) : Scanner :=
  { s with tokens := t :: s.tokens, place }

/-- Says whether a key may begin. -/
def allowKeys (keys : Bool) (s : Scanner) : Scanner :=
  { s with keys }

/-- Ends the blocks to the right of a column, which are `indents` and the innermost one. -/
def closeBlocks (column : Int) : (indent : Int) → (indents : List Int) → Scanner → Scanner
  | indent, [], s => { s with indent, indents := [] }
  | indent, i :: is, s =>
    if column < indent then closeBlocks column i is (s.emit .blockEnd)
    else { s with indent, indents := i :: is }

/-- Ends the blocks to the right of a column. Between brackets there are none. -/
def unroll (column : Int) (s : Scanner) : Scanner :=
  if s.flow then s else closeBlocks column s.indent s.indents s

/-- Puts tokens, given from the last, before the token with an index. -/
def insertAt (index : Nat) (ts : List Token) (s : Scanner) : Scanner :=
  let n := s.tokens.length - index
  { s with tokens := s.tokens.take n ++ ts ++ s.tokens.drop n }

/-- Begins a block at a column unless there is one. Its token goes before the one with
an index. -/
def roll (column : Nat) (index : Nat) (t : Token) (s : Scanner) : Scanner :=
  if !s.flow && s.indent < column then
    { s.insertAt index [t] with indent := column, indents := s.indent :: s.indents }
  else s

/-- Gives up on what may become a key, which must not have to be one. -/
def dropStart? (s : Scanner) : Option Scanner :=
  if s.start.any (·.required) then none else some { s with start := none }

/-- Notes that the next token may become a key. -/
def saveStart? (s : Scanner) : Option Scanner :=
  if s.keys then
    s.dropStart?.map fun s =>
      { s with
        start := some {
          required := !s.flow && s.indent = s.place.col
          index := s.tokens.length
          line := s.place.line
          col := s.place.col } }
  else some s

/-- Adds a token of one character before which nothing can become a key. -/
def mark? (t : Token) (keys : Bool) (s : Scanner) : Option Scanner :=
  s.dropStart?.map fun s => (s.emitAt t (s.place.skip 1)).allowKeys keys

/-- Adds the token of a document's start or end. -/
def documentMark? (t : Token) (s : Scanner) : Option Scanner :=
  (s.unroll (-1)).dropStart?.map fun s => (s.emitAt t (s.place.skip 3)).allowKeys false

/-- An opening bracket. -/
def open? (t : Token) (s : Scanner) : Option Scanner :=
  s.saveStart?.map fun s =>
    { (s.emitAt t (s.place.skip 1)).allowKeys true with
      start := none
      outer := s.start :: s.outer }

/-- A closing bracket. -/
def close? (t : Token) (s : Scanner) : Option Scanner :=
  (s.mark? t false).map fun s =>
    match s.outer with
    | [] => s
    | start :: outer => { s with start, outer }

/-- A dash. -/
def entry? (s : Scanner) : Option Scanner :=
  if s.flow then s.mark? .entry true
  else if s.keys then (s.roll s.place.col s.tokens.length .blockSequence).mark? .entry true
  else none

/-- A question mark. -/
def key? (s : Scanner) : Option Scanner :=
  if s.flow then s.mark? .key false
  else if s.keys then (s.roll s.place.col s.tokens.length .blockMapping).mark? .key true
  else none

/-- A colon. It makes a key of what may be one on the same line. -/
def value? (s : Scanner) : Option Scanner :=
  let here (k : KeyStart) : Bool := k.line = s.place.line && s.place.col ≤ k.col + 1024
  match s.start.filter here with
  | some k =>
    let s := (s.insertAt k.index [.key]).roll k.col k.index .blockMapping
    some { (s.emitAt .value (s.place.skip 1)).allowKeys false with start := none }
  | none =>
    if s.start.any (·.required) then none
    else
      let s := { s with start := none }
      if s.flow then some ((s.emitAt .value (s.place.skip 1)).allowKeys false)
      else if s.keys then
        let s := s.roll s.place.col s.tokens.length .blockMapping
        some ((s.emitAt .value (s.place.skip 1)).allowKeys true)
      else none

/-- An anchor or an alias. -/
def name? (t : String → Token) (s : Scanner) : Option Scanner := do
  let s ← s.saveStart?
  let p := s.place.skip 1
  let name := p.rest.takeWhile isWord
  let p := p.skip name.length
  let ended :=
    match p.rest with
    | [] => true
    | c :: _ => isBlank c || isBreak c || c ∈ ['?', ':', ',', ']', '\x7d', '%', '@', '\x60']
  if name = [] ∨ !ended then none
  else some ((s.emitAt (t (String.ofList name)) p).allowKeys false)

end Scanner

/-- Characters of a tag. -/
def isTagChar (c : Char) : Bool :=
  isWord c ||
    c ∈ [';', '/', '?', ':', '@', '&', '=', '+', '$', ',', '.', '!', '~', '*', '\'', '(', ')',
      '[', ']', '%']

/-- Number of bytes of an encoded character that follow a first byte; none if it cannot be
the first one. -/
def bytesAfter? (first : Nat) : Option Nat :=
  if first < 0x80 then some 0
  else if 0xc0 ≤ first ∧ first < 0xe0 then some 1
  else if 0xe0 ≤ first ∧ first < 0xf0 then some 2
  else if 0xf0 ≤ first ∧ first < 0xf8 then some 3
  else none

/-- Replaces the escapes of a tag, which are the bytes of a character one after the other.
Some bytes of a character may be `missing`. -/
def unescapeTag? : (missing : Nat) → List Char → Option (List UInt8)
  | 0, [] => some []
  | _ + 1, [] => none
  | missing, '%' :: a :: b :: cs =>
    if isHex a && isHex b then
      let n := (Text.digitValue? a).getD 0 * 16 + (Text.digitValue? b).getD 0
      match missing with
      | 0 => do
        return UInt8.ofNat n :: (← unescapeTag? (← bytesAfter? n) cs)
      | missing + 1 =>
        if 0x80 ≤ n ∧ n < 0xc0 then (unescapeTag? missing cs).map (UInt8.ofNat n :: ·) else none
    else none
  | 0, c :: cs =>
    if c = '%' then none else (unescapeTag? 0 cs).map (UInt8.ofNat c.toNat :: ·)
  | _ + 1, _ :: _ => none

/-- Text of a part of a tag. -/
def tagText? (cs : List Char) : Option String :=
  (unescapeTag? 0 cs).map Text.Utf8.lossy

/-- Reads a handle: an exclamation mark, or a name between two of them. What is no
handle is given too. -/
def readHandle (p : Place) : List Char × Place :=
  let name := (p.rest.drop 1).takeWhile isWord
  match p.rest.drop (name.length + 1) with
  | '!' :: _ => (p.rest.take (name.length + 2), p.skip (name.length + 2))
  | _ => (p.rest.take (name.length + 1), p.skip (name.length + 1))

/-- Reads a tag. -/
def Tag.read? (p : Place) : Option (Tag × Place) :=
  match p.rest with
  | '!' :: '<' :: _ => do
    let p := p.skip 2
    let uri := p.rest.takeWhile isTagChar
    let suffix ← tagText? uri
    let p := p.skip uri.length
    if uri = [] ∨ p.rest.head? ≠ some '>' then none else return (⟨"", suffix⟩, p.skip 1)
  | _ => do
    let (handle, p) := readHandle p
    let uri := p.rest.takeWhile isTagChar
    let p := p.skip uri.length
    let suffix ← tagText? uri
    if 1 < handle.length ∧ handle.getLast? = some '!' then
      if uri = [] then none else return (⟨String.ofList handle, suffix⟩, p)
    else
      let suffix := String.ofList (handle.drop 1) ++ suffix
      return (if suffix = "" then ⟨"", "!"⟩ else ⟨"!", suffix⟩, p)

/-- Reads a number of a version. -/
def readVersionPart? (p : Place) : Option (Nat × Place) :=
  let ds := p.rest.takeWhile Text.Decimal.isDigit
  if ds = [] ∨ 2 < ds.length then none else some (Text.Decimal.digits ds, p.skip ds.length)

/-- Reads a directive, from its name on. -/
def readDirective? (p : Place) : Option (Token × Place) := do
  let name := p.rest.takeWhile isWord
  let p := p.skip name.length
  if !endsWord p.rest then none
  else
    let p := p.skipWhile isBlank
    if name = "YAML".toList then
      let (major, p) ← readVersionPart? p
      if p.rest.head? ≠ some '.' then none
      else
        let (minor, p) ← readVersionPart? (p.skip 1)
        return (.version major minor, p)
    else if name = "TAG".toList then
      if p.rest.head? ≠ some '!' then none
      else
        let (handle, p) := readHandle p
        let gap := p.rest.takeWhile isBlank
        let p := p.skip gap.length
        let uri := p.rest.takeWhile isTagChar
        let target ← tagText? uri
        let p := p.skip uri.length
        if (handle ≠ ['!'] ∧ (handle.length = 1 ∨ handle.getLast? ≠ some '!')) ∨ gap = [] ∨
            uri = [] ∨ !endsWord p.rest then none
        else return (.handle (String.ofList handle) target, p)
    else none

namespace Scanner

/-- A tag. -/
def tag? (s : Scanner) : Option Scanner := do
  let s ← s.saveStart?
  let (t, p) ← Tag.read? s.place
  if endsWord p.rest then return (s.emitAt (.tag t) p).allowKeys false else none

/-- A directive, which has a line for itself. -/
def directive? (s : Scanner) : Option Scanner := do
  let s ← (s.unroll (-1)).dropStart?
  let (t, p) ← readDirective? (s.place.skip 1)
  let p := p.skipWhile isBlank
  let p := if p.rest.head? = some '#' then p.lineEnd else p
  if endsLine p.rest then return (s.emitAt t p.next).allowKeys false else none

/-- A text in quotes. -/
def quoted? (single : Bool) (s : Scanner) : Option Scanner := do
  let s ← s.saveStart?
  let p := s.place.skip 1
  let r ← readQuoted? single .text [] {} p.line p.col p.rest
  return (s.emitAt (.scalar false (String.ofList r.text)) r.place).allowKeys false

/-- A block of text. -/
def block? (folded : Bool) (s : Scanner) : Option Scanner := do
  let s ← s.dropStart?
  let r ← readBlock? folded s.indent (s.place.skip 1)
  return (s.emitAt (.scalar false (String.ofList r.text)) r.place).allowKeys true

/-- Passes over a comment on the line of the last token. -/
def dropComment (s : Scanner) : Scanner :=
  { s with place := s.place.dropComment }

/-- A plain text. -/
def plain? (s : Scanner) : Option Scanner := do
  let s ← s.saveStart?
  let p := s.place
  let r ← readPlain? s.flow s.indent [] {} false p.line p.col p.rest
  let s := (s.emitAt (.scalar true (String.ofList r.text)) r.place).allowKeys r.crossed
  return if r.crossed then s else s.dropComment

/-- Whether a plain text begins with a character, which is followed by a text. -/
def isPlainStart (flow : Bool) (c : Char) (cs : List Char) : Bool :=
  let isMark := c ∈ ['-', '?', ':', ',', '[', ']', '\x7b', '\x7d', '#', '&', '*', '!', '|', '>',
    '\'', '"', '%', '@', '\x60']
  let isWordStart := (c = '-' && !(cs.head?.map isBlank).getD false) ||
    (!flow && (c = '?' || c = ':') && !endsWord cs)
  !(isMark || isBlank c || isBreak c) || isWordStart

/-- A token that a comment can follow on its line, and which begins with a given
character. -/
def lineToken? (s : Scanner) (c : Char) (cs : List Char) : Option Scanner :=
  if c = '[' then s.open? .flowSequence
  else if c = '\x7b' then s.open? .flowMapping
  else if c = ']' then s.close? .flowSequenceEnd
  else if c = '\x7d' then s.close? .flowMappingEnd
  else if c = ',' then s.mark? .flowEntry true
  else if c = '?' && (s.flow || endsWord cs) then s.key?
  else if c = ':' && (s.flow || endsWord cs) then s.value?
  else if c = '*' then s.name? .alias
  else if c = '&' then s.name? .anchor
  else if c = '!' then s.tag?
  else if c = '\'' then s.quoted? true
  else if c = '"' then s.quoted? false
  else none

/-- Adds the next token, which begins with a given character. -/
def token? (s : Scanner) (c : Char) (cs : List Char) : Option Scanner :=
  let atStart := s.place.col = 0
  if atStart && c = '%' then s.directive?
  else if atStart && c = '-' && isMarker (c :: cs) then s.documentMark? .documentStart
  else if atStart && c = '.' && isMarker (c :: cs) then s.documentMark? .documentEnd
  else if c = '-' && endsWord cs then s.entry?
  else if c = '|' && !s.flow then s.block? false
  else if c = '>' && !s.flow then s.block? true
  else if isPlainStart s.flow c cs then s.plain?
  else (s.lineToken? c cs).map dropComment

/-- Whether a token can be read that begins at a place, when the text has been split up to
the token's end. A few characters more are looked at. -/
def inReach (s : Scanner) (start : Place) : Bool :=
  s.whole || (4 ≤ start.rest.length && !s.place.rest.all isBlank)

/-- The tokens of what is left, of which there are at most `fuel`, after those before. -/
def run : (fuel : Nat) → Scanner → List Token
  | 0, _ => [.invalid]
  | fuel + 1, s =>
    let (keys, place) := s.place.dropGap s.flow s.keep s.keys
    let failed := (s.tokens.drop 2).reverse ++ [.invalid]
    let next := { s with keys, place }
    match place.rest with
    | [] =>
      match (next.unroll (-1)).dropStart? with
      | some s => if s.whole then s.tokens.reverse ++ [.textEnd] else failed
      | none => failed
    | c :: cs =>
      match (next.unroll place.col).token? c cs with
      | some s => if s.inReach place then run fuel s else failed
      | none => failed

end Scanner

/-- Whether a character is the byte order mark. -/
def isOrderMark (c : Char) : Bool :=
  c.toNat = 0xfeff

/-- The tokens of a text, which may begin with a byte order mark. If a second one follows
it, that is passed over at the start of a line, and so is the character in its place on
later lines of the first stretch. -/
def Token.scan (text : List Char) : List Token :=
  let (room, text) : Nat × List Char :=
    match text with
    | c :: cs => if isOrderMark c then (stretchSize - 3, cs) else (stretchSize, text)
    | [] => (stretchSize, [])
  let readable := readablePart room text
  let keep : Option Nat :=
    if text.head?.any isOrderMark then
      some ((normalize (splitStretch room readable).2).length + 2)
    else none
  Scanner.run (text.length + 1)
    { place := { rest := normalize readable }, whole := readable.length = text.length, keep }

end FrameLowering.Yaml
