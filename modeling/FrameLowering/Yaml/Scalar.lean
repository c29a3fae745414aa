import FrameLowering.Yaml.Place

/-!
# Texts of scalars

The three ways to write a text: plain, in quotes, and as an indented block. Each reader
starts at the first character and gives the text and the place after it.
-/

namespace FrameLowering.Yaml

/-- A text that has been read, and the place after it. -/
structure ReadText where
  text : List Char
  place : Place
  /-- Whether the place is on a new line. -/
  crossed : Bool := false
deriving DecidableEq, Repr

/-- Blanks and line ends not yet part of a text. -/
structure Pending where
  blanks : List Char := []
  /-- Whether a line end has been passed. -/
  crossed : Bool := false
  /-- The first line end, unless it was escaped. -/
  first : Option Char := none
  /-- Line ends after the first. -/
  later : List Char := []
deriving DecidableEq, Repr

namespace Pending

/-- What becomes of blanks and line ends within a text: a single line end is a space, the
first of several is dropped, and blanks around line ends are dropped. -/
def text (p : Pending) : List Char :=
  if !p.crossed then p.blanks
  else
    match p.first with
    | some '\n' => if p.later = [] then [' '] else p.later
    | some c => c :: p.later
    | none => p.later

/-- One more blank. -/
def blank (c : Char) (p : Pending) : Pending :=
  if p.crossed then p else { p with blanks := p.blanks ++ [c] }

/-- One more line end. -/
def lineBreak (c : Char) (p : Pending) : Pending :=
  if p.crossed then { p with later := p.later ++ [c] }
  else { p with crossed := true, blanks := [], first := some c }

end Pending

/-- Characters that end a plain text between brackets. -/
def isFlowMark (c : Char) : Bool :=
  c = ',' || c = '?' || c = '[' || c = ']' || c = '\x7b' || c = '\x7d'

/-- Reads the rest of a plain text; `out` is the text so far, from its end. It ends before
a mark, a comment, a document's end, and in a block before a line that is not indented
enough. `spaced` says whether a blank or a line end has just been passed. -/
def readPlain? (flow : Bool) (indent : Int) :
    (out : List Char) → Pending → (spaced : Bool) → (line col : Nat) → List Char →
    Option ReadText
  | out, p, _, line, col, [] => some ⟨out.reverse, ⟨[], line, col⟩, p.crossed⟩
  | out, p, spaced, line, col, c :: cs =>
    let stop := some ⟨out.reverse, ⟨c :: cs, line, col⟩, p.crossed⟩
    if isBlank c then
      if p.crossed && c = '\t' && (col : Int) ≤ indent then none
      else readPlain? flow indent out (p.blank c) true line (col + 1) cs
    else if isBreak c then readPlain? flow indent out (p.lineBreak c) true (line + 1) 0 cs
    else if spaced && ((!flow && (col : Int) ≤ indent) || c = '#') then stop
    else if col = 0 && isMarker (c :: cs) then stop
    else if (c = ':' && endsWord cs) || (flow && isFlowMark c) then stop
    else readPlain? flow indent (c :: (p.text.reverse ++ out)) {} false line (col + 1) cs

/-- Where a text in quotes has been read to. -/
inductive QuoteMode where
  | text
  /-- After a backslash. -/
  | escape
  /-- In a character's code, of which some digits are to come. -/
  | code (digits value : Nat)
  /-- After a single quote, which another one may follow. -/
  | quote
deriving DecidableEq, Repr

/-- Characters that a letter after a backslash stands for. -/
def escapes : List (Char × Nat) := [
  ('0', 0x00), ('a', 0x07), ('b', 0x08), ('t', 0x09), ('\t', 0x09), ('n', 0x0a), ('v', 0x0b),
  ('f', 0x0c), ('r', 0x0d), ('e', 0x1b), (' ', 0x20), ('"', 0x22), ('\'', 0x27),
  ('\\', 0x5c), ('N', 0x85), ('_', 0xa0), ('L', 0x2028), ('P', 0x2029)]

/-- Number of digits of a character's code after a letter. -/
def codeDigits? : Char → Option Nat
  | 'x' => some 2
  | 'u' => some 4
  | 'U' => some 8
  | _ => none

/-- The character with a code. -/
def codeChar? (n : Nat) : Option Char :=
  if n < 0xd800 ∨ (0xdfff < n ∧ n < 0x110000) then some (Char.ofNat n) else none

/-- Reads the rest of a text in quotes; `out` is the text so far, from its end. -/
def readQuoted? (single : Bool) :
    QuoteMode → (out : List Char) → Pending → (line col : Nat) → List Char → Option ReadText
  | .quote, out, _, line, col, [] => some ⟨out.reverse, ⟨[], line, col⟩, false⟩
  | _, _, _, _, _, [] => none
  | .quote, out, p, line, col, c :: cs =>
    if c = '\'' then readQuoted? single .text ('\'' :: out) p line (col + 1) cs
    else some ⟨out.reverse, ⟨c :: cs, line, col⟩, false⟩
  | .escape, out, p, line, col, c :: cs =>
    if isBreak c then readQuoted? single .text out { crossed := true } (line + 1) 0 cs
    else
      match codeDigits? c with
      | some digits => readQuoted? single (.code digits 0) out p line (col + 1) cs
      | none =>
        match escapes.lookup c with
        | some n => readQuoted? single .text (Char.ofNat n :: out) p line (col + 1) cs
        | none => none
  | .code digits value, out, p, line, col, c :: cs =>
    if isHex c then
      let value := value * 16 + (Text.digitValue? c).getD 0
      if 1 < digits then readQuoted? single (.code (digits - 1) value) out p line (col + 1) cs
      else
        match codeChar? value with
        | some ch => readQuoted? single .text (ch :: out) p line (col + 1) cs
        | none => none
    else none
  | .text, out, p, line, col, c :: cs =>
    if isBlank c then readQuoted? single .text out (p.blank c) line (col + 1) cs
    else if isBreak c then readQuoted? single .text out (p.lineBreak c) (line + 1) 0 cs
    else if col = 0 && isMarker (c :: cs) then none
    else
      let out := p.text.reverse ++ out
      if single && c = '\'' then readQuoted? single .quote out {} line (col + 1) cs
      else if !single && c = '"' then some ⟨out.reverse, ⟨cs, line, col + 1⟩, false⟩
      else if !single && c = '\\' then readQuoted? single .escape out {} line (col + 1) cs
      else readQuoted? single .text (c :: out) {} line (col + 1) cs

/-- What happens to the line ends at the end of a block of text. -/
inductive Chomp where
  /-- All are dropped. -/
  | strip
  /-- One is kept. -/
  | clip
  | keep
deriving DecidableEq, Repr

/-- Head of a block of text. -/
structure BlockHead where
  /-- Whether lines are joined. -/
  folded : Bool
  chomp : Chomp := .clip
  /-- Indentation from that of the parent, if it is given. -/
  increment : Option Nat := none
deriving DecidableEq, Repr

/-- Reads what a sign or digit says about a block of text. -/
def BlockHead.read? (h : BlockHead) (p : Place) : Option (BlockHead × Place) :=
  let sign? (c : Char) : Option Chomp :=
    if c = '+' then some .keep else if c = '-' then some .strip else none
  let digit? (c : Char) : Option Nat :=
    if Text.Decimal.isDigit c then some (c.toNat - '0'.toNat) else none
  let (h, p) : BlockHead × Place :=
    match p.rest with
    | a :: b :: _ =>
      match sign? a, digit? a, sign? b, digit? b with
      | some chomp, _, _, some n => ({ h with chomp, increment := some n }, p.skip 2)
      | some chomp, _, _, none => ({ h with chomp }, p.skip 1)
      | none, some n, some chomp, _ => ({ h with chomp, increment := some n }, p.skip 2)
      | none, some n, none, _ => ({ h with increment := some n }, p.skip 1)
      | none, none, _, _ => (h, p)
    | [a] =>
      match sign? a, digit? a with
      | some chomp, _ => ({ h with chomp }, p.skip 1)
      | none, some n => ({ h with increment := some n }, p.skip 1)
      | none, none => (h, p)
    | [] => (h, p)
  let p := p.skipWhile isBlank
  let p := if p.rest.head? = some '#' then p.lineEnd else p
  if h.increment = some 0 ∨ !endsLine p.rest then none else some (h, p.next)

/-- What follows each line end of a text. -/
def laterLines : List Char → List (List Char)
  | [] => []
  | c :: cs => if isBreak c then cs :: laterLines cs else laterLines cs

/-- A block of text as far as it has been read. -/
structure BlockText where
  /-- The text, from its end. -/
  out : List Char := []
  /-- Indentation of the lines, once it is known. -/
  indent : Option Nat
  /-- Largest indentation of the lines that are blank, before it is known. -/
  widest : Nat := 0
  /-- The end of the last line. -/
  last : List Char := []
  /-- Ends of the blank lines after it. -/
  blank : List Char := []
  /-- Whether the last line begins with a blank. -/
  spaced : Bool := false
deriving DecidableEq, Repr

namespace BlockText

/-- The text when the block has ended. -/
def finish (chomp : Chomp) (b : BlockText) : List Char :=
  b.out.reverse ++
    match chomp with
    | .strip => []
    | .clip => b.last
    | .keep => b.last ++ b.blank

/-- The text with one more line, and the end of that line. -/
def line (folded : Bool) (text last : List Char) (b : BlockText) : BlockText :=
  let spaced := (text.head?.map isBlank).getD false
  let joint :=
    if folded && !b.spaced && !spaced && b.last = ['\n'] then
      if b.blank = [] then [' '] else []
    else b.last
  { b with
    out := text.reverse ++ (joint ++ b.blank).reverse ++ b.out
    last
    blank := []
    spaced }

end BlockText

/-- Reads the lines of a block of text, each given with all that follows it. -/
def readBlockLines? (h : BlockHead) (parent : Int) :
    BlockText → (line : Nat) → List (List Char) → Option ReadText
  | b, line, [] => some ⟨b.finish h.chomp, ⟨[], line, 0⟩, true⟩
  | b, line, start :: later =>
    let spaces := (start.takeWhile (· = ' ')).length
    let spaces := match b.indent with | some n => min n spaces | none => spaces
    let body := start.drop spaces
    let inside := match b.indent with | some n => spaces < n | none => true
    if inside && body.head? = some '\t' then none
    else
      match body.head?.filter isBreak with
      | some c =>
        let widest := max b.widest spaces
        readBlockLines? h parent { b with widest, blank := b.blank ++ [c] } (line + 1) later
      | none =>
        let indent :=
          match b.indent with
          | some n => n
          | none => max (max b.widest spaces) (max (parent + 1).toNat 1)
        let b := { b with indent := some indent }
        if spaces ≠ indent ∨ body = [] then
          some ⟨b.finish h.chomp, ⟨body, line, spaces⟩, true⟩
        else
          let text := body.takeWhile fun c => !isBreak c
          match body.drop text.length with
          | [] =>
            some ⟨(b.line h.folded text []).finish h.chomp, ⟨[], line, spaces + text.length⟩, true⟩
          | c :: _ => readBlockLines? h parent (b.line h.folded text [c]) (line + 1) later

/-- Reads a block of text, from the place after its mark on. -/
def readBlock? (folded : Bool) (parent : Int) (p : Place) : Option ReadText := do
  let (h, p) ← BlockHead.read? { folded } p
  let indent := h.increment.map fun n => n + parent.toNat
  readBlockLines? h parent { indent } p.line (p.rest :: laterLines p.rest)

end FrameLowering.Yaml
