/-!
# Integer numerals

Reading and writing 64-bit integers. `readInt` reads a signed decimal numeral and
`readLiteral` a numeral with an optional base mark (`0x`, `0o`, `0b`, or a leading
`0` for octal) and single underscores between digits. Digits are taken from the left,
so a numeral that leaves the unsigned 64-bit range before a wrong character is out of
range, and one with the wrong character first is malformed.
-/

namespace FrameLowering.Text

/-- Why a text is not an integer of 64 bits. -/
inductive NumeralError where
  /-- The text is not a numeral. -/
  | malformed
  /-- The numeral is too large or too small. -/
  | outOfRange
deriving DecidableEq, Repr

/-- Wording of the cause. -/
def NumeralError.message : NumeralError → String
  | .malformed => "invalid syntax"
  | .outOfRange => "value out of range"

/-- Value of a digit in any base up to 36. -/
def digitValue? (c : Char) : Option Nat :=
  if '0' ≤ c ∧ c ≤ '9' then some (c.toNat - '0'.toNat)
  else if 'a' ≤ c ∧ c ≤ 'z' then some (c.toNat - 'a'.toNat + 10)
  else if 'A' ≤ c ∧ c ≤ 'Z' then some (c.toNat - 'A'.toNat + 10)
  else none

/-- Value of a run of digits after the value `n` of the digits before it. Underscores
are passed over if `marks` holds. -/
def readDigits (base : Nat) (marks : Bool) : (n : Nat) → List Char → Except NumeralError Nat
  | n, [] => .ok n
  | n, c :: cs =>
    if marks ∧ c = '_' then
      readDigits base marks n cs
    else
      match digitValue? c with
      | none => .error .malformed
      | some d =>
        if base ≤ d then .error .malformed
        else if 1 <<< 64 ≤ n * base + d then .error .outOfRange
        else readDigits base marks (n * base + d) cs

/-- Base mark of a numeral: the base and the digits after the mark. A lone mark
without digits is no mark. -/
def baseMark : List Char → Nat × List Char
  | '0' :: m :: c :: cs =>
    if m = 'b' ∨ m = 'B' then (2, c :: cs)
    else if m = 'o' ∨ m = 'O' then (8, c :: cs)
    else if m = 'x' ∨ m = 'X' then (16, c :: cs)
    else (8, m :: c :: cs)
  | '0' :: cs => (8, cs)
  | cs => (10, cs)

/-- What stands to the left of the place reached in a numeral with underscores. -/
inductive MarkPlace where
  | start
  | digit
  | mark
  | other
deriving DecidableEq, Repr

/-- Whether each underscore stands between digits, where `hex` admits the letters of
base 16. -/
def marksBetween (hex : Bool) : MarkPlace → List Char → Bool
  | p, [] => p != .mark
  | p, c :: cs =>
    if ('0' ≤ c ∧ c ≤ '9') ∨ (hex ∧ (('a' ≤ c ∧ c ≤ 'f') ∨ ('A' ≤ c ∧ c ≤ 'F'))) then
      marksBetween hex .digit cs
    else if c = '_' then
      p == .digit && marksBetween hex .mark cs
    else
      p != .mark && marksBetween hex .other cs

/-- Whether each underscore of an unsigned numeral stands between digits or right
after the base mark. -/
def marksPlaced : List Char → Bool
  | '0' :: m :: cs =>
    if m = 'b' ∨ m = 'B' ∨ m = 'o' ∨ m = 'O' then marksBetween false .digit cs
    else if m = 'x' ∨ m = 'X' then marksBetween true .digit cs
    else marksBetween false .start ('0' :: m :: cs)
  | cs => marksBetween false .start cs

/-- Value of an unsigned decimal numeral. -/
def readUnsigned (cs : List Char) : Except NumeralError Nat :=
  if cs = [] then .error .malformed else readDigits 10 false 0 cs

/-- Value of an unsigned numeral with an optional base mark. -/
def readUnsignedLiteral (cs : List Char) : Except NumeralError Nat :=
  if cs = [] then
    .error .malformed
  else
    let (base, ds) := baseMark cs
    match readDigits base true 0 ds with
    | .error e => .error e
    | .ok n => if '_' ∈ ds ∧ !marksPlaced cs then .error .malformed else .ok n

/-- Sign of a numeral and what follows it. -/
def splitSign : List Char → Bool × List Char
  | '+' :: cs => (false, cs)
  | '-' :: cs => (true, cs)
  | cs => (false, cs)

/-- The signed value with a given sign and magnitude, if it has 64 bits. -/
def signedValue (negative : Bool) (n : Nat) : Except NumeralError Int64 :=
  if negative then
    if 1 <<< 63 < n then .error .outOfRange else .ok (Int64.ofInt (-n))
  else
    if 1 <<< 63 ≤ n then .error .outOfRange else .ok (Int64.ofInt n)

/-- Value of a signed decimal numeral. -/
def readInt (cs : List Char) : Except NumeralError Int64 :=
  let (negative, ds) := splitSign cs
  match readUnsigned ds with
  | .error e => .error e
  | .ok n => signedValue negative n

/-- Value of a signed numeral with an optional base mark. -/
def readLiteral (cs : List Char) : Except NumeralError Int64 :=
  let (negative, ds) := splitSign cs
  match readUnsignedLiteral ds with
  | .error e => .error e
  | .ok n => signedValue negative n

/-- Decimal digits of a number. -/
def writeNat (n : Nat) : List Char :=
  Nat.toDigits 10 n

/-- Decimal numeral of an integer, with a sign if it is negative. -/
def writeInt (n : Int) : List Char :=
  match n with
  | .ofNat m => writeNat m
  | .negSucc m => '-' :: writeNat (m + 1)

/-- Hexadecimal numeral with its base mark, after the sign of a negative integer. -/
def hexInt (n : Int) : String :=
  let sign := if n < 0 then "-" else ""
  sign ++ "0x" ++ String.ofList (Nat.toDigits 16 n.natAbs)

/-- Decimal numeral with a sign for every integer. -/
def signedInt (n : Int) : String :=
  if n < 0 then String.ofList (writeInt n) else "+" ++ String.ofList (writeInt n)

end FrameLowering.Text
