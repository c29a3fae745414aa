import FrameLowering.Text.Decimal

/-!
# Places in a YAML text

A `Place` is what is left of a text, with the line and column where it begins. Line ends
have one form, except for the line and paragraph separators, which are kept.
-/

namespace FrameLowering.Yaml

/-- Characters of a line's end. -/
def isBreak (c : Char) : Bool :=
  c = '\n' || c = '\u2028' || c = '\u2029'

/-- Blanks within a line. -/
def isBlank (c : Char) : Bool :=
  c = ' ' || c = '\t'

/-- Characters of names. -/
def isWord (c : Char) : Bool :=
  Text.Decimal.isDigit c || ('a' ≤ c && c ≤ 'z') || ('A' ≤ c && c ≤ 'Z') || c = '_' || c = '-'

/-- Hexadecimal digits. -/
def isHex (c : Char) : Bool :=
  Text.Decimal.isDigit c || ('a' ≤ c && c ≤ 'f') || ('A' ≤ c && c ≤ 'F')

/-- Whether a text ends, or goes on with a blank or a line's end. -/
def endsWord : List Char → Bool
  | [] => true
  | c :: _ => isBlank c || isBreak c

/-- Whether a text ends or goes on with a line's end. -/
def endsLine : List Char → Bool
  | [] => true
  | c :: _ => isBreak c

/-- Whether a line begins with the mark of a document's start or end. -/
def isMarker : List Char → Bool
  | '-' :: '-' :: '-' :: cs => endsWord cs
  | '.' :: '.' :: '.' :: cs => endsWord cs
  | _ => false

/-- A text with one form of line ends. -/
def normalize : List Char → List Char
  | [] => []
  | '\r' :: '\n' :: cs => '\n' :: normalize cs
  | '\r' :: cs => '\n' :: normalize cs
  | c :: cs => (if c.toNat = 0x85 then '\n' else c) :: normalize cs

/-- A place in a text. -/
structure Place where
  rest : List Char
  line : Nat := 0
  col : Nat := 0
deriving DecidableEq, Repr

namespace Place

/-- The place after the next character. -/
def next (p : Place) : Place :=
  match p.rest with
  | [] => p
  | c :: cs => if isBreak c then ⟨cs, p.line + 1, 0⟩ else ⟨cs, p.line, p.col + 1⟩

/-- The place after some more characters of the line. -/
def skip (n : Nat) (p : Place) : Place :=
  ⟨p.rest.drop n, p.line, p.col + n⟩

/-- The place after the characters of a class, none of which ends a line. -/
def skipWhile (isIn : Char → Bool) (p : Place) : Place :=
  p.skip (p.rest.takeWhile isIn).length

/-- The place at the end of the line. -/
def lineEnd (p : Place) : Place :=
  p.skipWhile fun c => !isBreak c

/-- The place after a comment, if one follows on the line after not too many blanks. -/
def dropComment (p : Place) : Place :=
  let blanks := (p.rest.takeWhile isBlank).length
  if blanks < 512 ∧ (p.rest.drop blanks).head? = some '#' then p.lineEnd else p

end Place

/-- Whether blanks are passed over one by one or as part of a run of comments. -/
inductive GapMode where
  | blanks
  | comment
  /-- Between two comments, where tabs are as good as spaces. -/
  | between
deriving DecidableEq, Repr

/-- Whether a comment follows after blanks and line ends, of which there are not too many
for the comments to form a run. -/
def commentFollows (cs : List Char) : Bool :=
  let gap := (cs.takeWhile fun c => isBlank c || c = '\n').length
  gap < 511 && (cs.drop gap).head? = some '#'

/-- Passes over blanks, comments and line ends. In a block, a tab is no blank where a key
may begin, and a new line is where a key may begin; `keys` says whether one may. Lines of
more than `keep` characters, up to the end of the text, lose the first one. -/
def dropGap (flow : Bool) (keep : Option Nat) :
    GapMode → (keys : Bool) → (line col : Nat) → List Char → Bool × Place
  | _, keys, line, col, [] => (keys, ⟨[], line, col⟩)
  | mode, keys, line, col, c :: cs =>
    if isBreak c then
      let keys := keys || !flow
      if mode ≠ .blanks && c = '\n' && commentFollows cs then
        dropGap flow keep .between keys (line + 1) 0 cs
      else
        match cs with
        | [] => (keys, ⟨[], line + 1, 0⟩)
        | d :: ds =>
          if keep.any (· < (d :: ds).length) then dropGap flow keep .blanks keys (line + 1) 1 ds
          else dropGap flow keep .blanks keys (line + 1) 0 (d :: ds)
    else if mode = .comment || c = '#' then dropGap flow keep .comment keys line (col + 1) cs
    else if c = ' ' || (c = '\t' && (flow || !keys || mode = .between)) then
      dropGap flow keep mode keys line (col + 1) cs
    else (keys, ⟨c :: cs, line, col⟩)

/-- Passes over what stands between two tokens. -/
def Place.dropGap (flow : Bool) (keep : Option Nat) (keys : Bool) (p : Place) : Bool × Place :=
  let p := if p.col = 0 ∧ keep.any (· < p.rest.length) then p.skip 1 else p
  Yaml.dropGap flow keep .blanks keys p.line p.col p.rest

end FrameLowering.Yaml
