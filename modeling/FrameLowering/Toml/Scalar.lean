import FrameLowering.Text.Calendar
import FrameLowering.Text.Decimal

/-!
# Strings, numbers and dates of TOML

The scalars of a TOML document. Strings are read up to their closing quote, and words
that begin with a digit or a sign up to the first character that cannot belong to them.
-/

namespace FrameLowering.Toml

/-- A scalar value. Of fractional numbers and of dates only their form matters. -/
inductive Scalar where
  | string (s : String)
  | integer (n : Int64)
  | boolean (b : Bool)
  | float
  | datetime
deriving DecidableEq, Repr

/-- Blanks within a line. -/
def isBlank (c : Char) : Bool :=
  c = ' ' || c = '\t'

/-- Characters of a line's end. -/
def isNewline (c : Char) : Bool :=
  c = '\n' || c = '\r'

/-- Hexadecimal digits. -/
def isHex (c : Char) : Bool :=
  Text.Decimal.isDigit c || ('a' ≤ c && c ≤ 'f') || ('A' ≤ c && c ≤ 'F')

/-- The character with a code written in hexadecimal digits; none if there is no such
character. -/
def hexChar? (ds : List Char) : Option Char :=
  if ds.all isHex then
    let n := ds.foldl (fun n c => n * 16 + (Text.digitValue? c).getD 0) 0
    if n < 0xd800 ∨ (0xdfff < n ∧ n < 0x110000) then some (Char.ofNat n) else none
  else none

/-- The character that a letter after a backslash stands for. -/
def escape? : Char → Option Char
  | 'b' => some '\x08'
  | 't' => some '\t'
  | 'n' => some '\n'
  | 'f' => some '\x0c'
  | 'r' => some '\r'
  | '"' => some '"'
  | '\\' => some '\\'
  | _ => none

/-- Replaces the escapes of a basic string. -/
def unescape : List Char → Option (List Char)
  | [] => some []
  | '\\' :: 'u' :: a :: b :: c :: d :: cs => do
    let ch ← hexChar? [a, b, c, d]
    return ch :: (← unescape cs)
  | '\\' :: 'U' :: a :: b :: c :: d :: e :: f :: g :: h :: cs => do
    let ch ← hexChar? [a, b, c, d, e, f, g, h]
    return ch :: (← unescape cs)
  | '\\' :: e :: cs => do
    let ch ← escape? e
    return ch :: (← unescape cs)
  | '\\' :: [] => none
  | c :: cs => do
    return c :: (← unescape cs)

/-- Splits a basic string of one line at its closing quote. -/
def closeBasic : List Char → Option (List Char × List Char)
  | [] => none
  | '\\' :: c :: cs => do
    let (s, rest) ← closeBasic cs
    if isNewline c then none else return ('\\' :: c :: s, rest)
  | c :: cs => do
    if isNewline c then none
    else if c = '"' then return ([], cs)
    else
      let (s, rest) ← closeBasic cs
      return (c :: s, rest)

/-- Splits a literal string of one line at its closing quote. -/
def closeLiteral : List Char → Option (List Char × List Char)
  | [] => none
  | c :: cs => do
    if isNewline c then none
    else if c = '\'' then return ([], cs)
    else
      let (s, rest) ← closeLiteral cs
      return (c :: s, rest)

/-- Whether a text, given from its end, ends in five quotes that do not follow a
backslash. -/
def endsInFive (quote : Char) (escapes : Bool) : List Char → Bool
  | a :: b :: c :: d :: e :: before =>
    [a, b, c, d, e].all (· = quote) && !(escapes && before.head? = some '\\')
  | _ => false

/-- Splits a string of several lines at its closing quotes. `before` is what has been
read of it, from the end. Up to two quotes can stand right before the closing ones. -/
def closeLines (quote : Char) (escapes : Bool) :
    (before : List Char) → List Char → Option (List Char × List Char)
  | _, [] => none
  | before, c :: cs =>
    if escapes && c = '\\' then
      match cs with
      | [] => none
      | e :: rest => closeLines quote escapes (e :: c :: before) rest
    else if c ≠ quote then closeLines quote escapes (c :: before) cs
    else
      match cs with
      | q :: r :: rest =>
        if q ≠ quote ∨ r ≠ quote then closeLines quote escapes (c :: before) cs
        else if rest.head? ≠ some quote then some (before.reverse, rest)
        else if endsInFive quote escapes (c :: q :: r :: before) then none
        else closeLines quote escapes (c :: before) cs
      | _ => closeLines quote escapes (c :: before) cs

/-- A string of several lines without the line end right after its opening quotes. -/
def dropFirstLine : List Char → List Char
  | '\n' :: cs => cs
  | '\r' :: '\n' :: cs => cs
  | cs => cs

/-- Blanks and line ends. -/
def isSpace (c : Char) : Bool :=
  isBlank c || isNewline c

/-- Joins lines that end in a backslash to the next character that is not blank. While
`skip` holds blanks are dropped. -/
def joinLines : (skip : Bool) → List Char → List Char
  | _, [] => []
  | _, '\\' :: '\\' :: cs => '\\' :: '\\' :: joinLines false cs
  | skip, c :: cs =>
    if skip && isSpace c then joinLines true cs
    else if c = '\\' ∧ '\n' ∈ cs.takeWhile isSpace then joinLines true cs
    else c :: joinLines false cs

/-- Reads a string, the opening quote of which comes first. -/
def readString? : List Char → Option (String × List Char)
  | '"' :: '"' :: '"' :: cs => do
    let (raw, rest) ← closeLines '"' true [] cs
    let text ← unescape (joinLines false (dropFirstLine raw))
    return (String.ofList text, rest)
  | '"' :: cs => do
    let (raw, rest) ← closeBasic cs
    return (String.ofList (← unescape raw), rest)
  | '\'' :: '\'' :: '\'' :: cs => do
    let (raw, rest) ← closeLines '\'' false [] cs
    return (String.ofList (dropFirstLine raw), rest)
  | '\'' :: cs => do
    let (raw, rest) ← closeLiteral cs
    return (String.ofList raw, rest)
  | _ => none

/-- Whether each underscore of a number stands between digits. -/
def marksPlaced : (digit : Bool) → List Char → Bool
  | digit, [] => digit
  | digit, c :: cs => (c ≠ '_' || digit) && marksPlaced (isHex c) cs

/-- Whether a decimal number has a zero too many in front. -/
def hasLeadingZero : List Char → Bool
  | '0' :: c :: _ => c ≠ 'b' && c ≠ 'o' && c ≠ 'x'
  | s :: '0' :: _ :: _ => s = '-' || s = '+'
  | _ => false

/-- The integer with a given text. -/
def readInteger? (cs : List Char) : Option Scalar :=
  if marksPlaced false cs && !hasLeadingZero cs then
    match Text.readLiteral cs with
    | .ok n => some (.integer n)
    | .error _ => none
  else none

/-- Splits a number at its point and exponent marks, empty parts left out. -/
def floatParts : List Char → List (List Char)
  | [] => []
  | c :: cs =>
    if c = '.' ∨ c = 'e' ∨ c = 'E' then floatParts cs
    else
      match cs with
      | [] => [[c]]
      | d :: _ =>
        if d = '.' ∨ d = 'e' ∨ d = 'E' then [c] :: floatParts cs
        else
          match floatParts cs with
          | [] => [[c]]
          | part :: parts => (c :: part) :: parts

/-- Whether a digit follows each point. -/
def pointsPlaced : (point : Bool) → List Char → Bool
  | point, [] => !point
  | point, c :: cs => (!point || Text.Decimal.isDigit c) && pointsPlaced (c = '.') cs

/-- The fractional number with a given text. -/
def readFloat? (cs : List Char) : Option Scalar :=
  let parts := floatParts cs
  if parts.all (marksPlaced false) && !(parts.head?.map hasLeadingZero).getD false &&
      pointsPlaced false cs then
    match Text.Decimal.read? (cs.filter (· ≠ '_')) with
    | some d => if d.overflows then none else some .float
    | none => none
  else none

/-- Whether digits stand where a pattern has `d`, and the pattern's own characters
elsewhere; what follows is given. -/
def matches? : (pattern : List Char) → List Char → Option (List Char)
  | [], cs => some cs
  | 'd' :: ps, c :: cs => if Text.Decimal.isDigit c then matches? ps cs else none
  | p :: ps, c :: cs => if p = c then matches? ps cs else none
  | _, _ => none

/-- The number in a range of a text. -/
def numberAt (start size : Nat) (cs : List Char) : Nat :=
  Text.Decimal.digits ((cs.drop start).take size)

/-- Reads a date, `1979-05-27`. -/
def readDate? (cs : List Char) : Option (List Char) := do
  let rest ← matches? "dddd-dd-dd".toList cs
  if Text.isDay (numberAt 0 4 cs) (numberAt 5 2 cs) (numberAt 8 2 cs) then rest else none

/-- Drops a fraction of a second. -/
def dropFraction : List Char → List Char
  | '.' :: c :: cs =>
    if Text.Decimal.isDigit c then cs.dropWhile Text.Decimal.isDigit else '.' :: c :: cs
  | cs => cs

/-- Reads a time of day, `07:32:00.5`. The hour may have one digit. -/
def readTime? (cs : List Char) : Option (List Char) := do
  let cs := if (matches? "d:".toList cs).isSome then '0' :: cs else cs
  let rest ← matches? "dd:dd:dd".toList cs
  if numberAt 0 2 cs < 24 ∧ numberAt 3 2 cs < 60 ∧ numberAt 6 2 cs < 60 then
    some (dropFraction rest)
  else none

/-- Whether a text is nothing or an offset from universal time. -/
def isOffset : List Char → Bool
  | [] => true
  | ['Z'] => true
  | s :: cs =>
    (s = '+' || s = '-') && matches? "dd:dd".toList cs = some [] && numberAt 0 2 cs ≤ 24 &&
      numberAt 3 2 cs ≤ 60

/-- The date or time with a given text. -/
def readDatetime? (cs : List Char) : Option Scalar :=
  let cs := cs.map fun c => if c = 'z' then 'Z' else if c = 't' ∨ c = ' ' then 'T' else c
  let valid :=
    match readDate? cs with
    | some [] => true
    | some ('T' :: rest) => (readTime? rest).any isOffset
    | some _ => false
    | none => readTime? cs = some []
  if valid then some .datetime else none

/-- Characters of a date or time. -/
def isDatetimeChar (c : Char) : Bool :=
  Text.Decimal.isDigit c || c ∈ ['-', ':', 'T', 't', ' ', '.', 'Z', 'z', '+']

/-- Characters of a fractional number from its point or exponent on. -/
def isFloatChar (c : Char) : Bool :=
  Text.Decimal.isDigit c || c ∈ ['_', '.', '-', '+', 'e', 'E']

/-- Reads a decimal number that follows a sign, or no sign. -/
def readDecimal? (sign cs : List Char) : Option (Scalar × List Char) :=
  let isWhole (c : Char) : Bool := Text.Decimal.isDigit c || c = '_'
  let whole := cs.takeWhile isWhole
  let rest := cs.dropWhile isWhole
  match rest with
  | c :: _ =>
    if c = '.' ∨ c = 'e' ∨ c = 'E' then
      (readFloat? (sign ++ whole ++ rest.takeWhile isFloatChar)).map
        (·, rest.dropWhile isFloatChar)
    else (readInteger? (sign ++ whole)).map (·, rest)
  | [] => (readInteger? (sign ++ whole)).map (·, rest)

/-- Reads an integer with a base mark, the digits of which are in a class. -/
def readBased? (mark : List Char) (isIn : Char → Bool) (cs : List Char) :
    Option (Scalar × List Char) :=
  let isPart (c : Char) : Bool := isIn c || c = '_'
  if (cs.head?.map isIn).getD false then
    (readInteger? (mark ++ cs.takeWhile isPart)).map (·, cs.dropWhile isPart)
  else none

/-- Reads a date or time. Blanks after it belong to it. -/
def readDateWord? (cs : List Char) : Option (Scalar × List Char) :=
  let word := cs.takeWhile isDatetimeChar
  (readDatetime? (word.reverse.dropWhile (· = ' ')).reverse).map (·, cs.dropWhile isDatetimeChar)

/-- Reads a number or date that begins with a digit. A date or time does not begin with a
lone zero. -/
def readDigitWord? (cs : List Char) : Option (Scalar × List Char) :=
  match cs with
  | '0' :: 'x' :: rest => readBased? ['0', 'x'] isHex rest
  | '0' :: 'o' :: rest => readBased? ['0', 'o'] (fun c => '0' ≤ c && c ≤ '7') rest
  | '0' :: 'b' :: rest => readBased? ['0', 'b'] (fun c => c = '0' || c = '1') rest
  | '0' :: '-' :: _ | '0' :: ':' :: _ => none
  | _ =>
    match cs.dropWhile Text.Decimal.isDigit with
    | '-' :: _ | ':' :: _ => readDateWord? cs
    | _ => readDecimal? [] cs

/-- Reads a scalar. -/
def readScalar? (cs : List Char) : Option (Scalar × List Char) :=
  match cs with
  | 't' :: 'r' :: 'u' :: 'e' :: rest => some (.boolean true, rest)
  | 'f' :: 'a' :: 'l' :: 's' :: 'e' :: rest => some (.boolean false, rest)
  | 'i' :: 'n' :: 'f' :: rest => some (.float, rest)
  | 'n' :: 'a' :: 'n' :: rest => some (.float, rest)
  | '+' :: rest | '-' :: rest =>
    match rest with
    | 'i' :: 'n' :: 'f' :: rest => some (.float, rest)
    | 'n' :: 'a' :: 'n' :: rest => some (.float, rest)
    | c :: _ => if Text.Decimal.isDigit c then readDecimal? (cs.take 1) rest else none
    | [] => none
  | c :: _ =>
    if Text.Decimal.isDigit c then readDigitWord? cs
    else (readString? cs).map fun e => (.string e.1, e.2)
  | [] => none

end FrameLowering.Toml
