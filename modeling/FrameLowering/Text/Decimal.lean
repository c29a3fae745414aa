import FrameLowering.Text.Numeral
import FrameLowering.Text.Size

/-!
# Decimal fractions

Numbers with a decimal point or an exponent, read exactly. `Decimal.overflows` says which
ones have no 64-bit floating-point value, and `Decimal.truncate` is the integer part of
the nearest such value.
-/

namespace FrameLowering.Text

/-- The number `mantissa * 10 ^ exponent`, or its negative. -/
structure Decimal where
  negative : Bool
  mantissa : Nat
  exponent : Int
deriving DecidableEq, Repr

namespace Decimal

/-- Decimal digits. -/
def isDigit (c : Char) : Bool :=
  '0' ≤ c && c ≤ '9'

/-- Value of a run of digits. -/
def digits (cs : List Char) : Nat :=
  cs.foldl (fun n c => n * 10 + (c.toNat - '0'.toNat)) 0

/-- Magnitude of an exponent past which no more digits are read. -/
def exponentCap : Nat := 10000

/-- Value of a run of exponent digits. Those past the cap have no meaning. -/
def exponentDigits (cs : List Char) : Nat :=
  cs.foldl
    (fun n c => if exponentCap ≤ n then n else n * 10 + (c.toNat - '0'.toNat)) 0

/-- Reads an exponent, or nothing, up to the end. -/
def readExponent? : List Char → Option Int
  | [] => some 0
  | e :: cs =>
    let (negative, ds) := splitSign cs
    if (e = 'e' ∨ e = 'E') ∧ ds ≠ [] ∧ ds.all isDigit then
      some (if negative then -(exponentDigits ds : Int) else exponentDigits ds)
    else none

/-- Reads the digits from the point on, after the digits before it. -/
def readFraction? (negative : Bool) (whole : List Char) : List Char → Option Decimal
  | '.' :: cs =>
    let fraction := cs.takeWhile isDigit
    if whole = [] ∧ fraction = [] then none
    else
      (readExponent? (cs.dropWhile isDigit)).map fun e =>
        ⟨negative, digits (whole ++ fraction), e - fraction.length⟩
  | cs =>
    if whole = [] then none
    else (readExponent? cs).map fun e => ⟨negative, digits whole, e⟩

/-- Reads a number: a sign, digits with a point among or around them, an exponent. -/
def read? (cs : List Char) : Option Decimal :=
  let (negative, ds) := splitSign cs
  readFraction? negative (ds.takeWhile isDigit) (ds.dropWhile isDigit)

/-- Number of digits before the point when the leading digit is not zero. -/
def magnitude (d : Decimal) : Int :=
  (Nat.toDigits 10 d.mantissa).length + d.exponent

/-- The magnitude of a number as a quotient. -/
def quotient (d : Decimal) : Nat × Nat :=
  if 0 ≤ d.exponent then (d.mantissa * Nat.pow 10 d.exponent.toNat, 1)
  else (d.mantissa, Nat.pow 10 (-d.exponent).toNat)

/-- Whether the number is too large for a 64-bit floating-point value. -/
def overflows (d : Decimal) : Bool :=
  if d.mantissa = 0 ∨ d.magnitude < 300 then false
  else if 320 < d.magnitude then true
  else
    let (n, m) := d.quotient
    (1 <<< 1024 - 1 <<< 970) * m ≤ n

/-- Integer part of the value with 53 significant bits nearest to a quotient. -/
def integerPart (n m : Nat) : Nat :=
  if n < m then divideToEven (n <<< 53) m >>> 53
  else
    let bits := (n / m).log2
    if bits < 52 then divideToEven (n <<< (52 - bits)) m >>> (52 - bits)
    else divideToEven n (m <<< (bits - 52)) <<< (bits - 52)

/-- Integer part of the nearest 64-bit floating-point value, without its sign. -/
def truncate (d : Decimal) : Nat :=
  if d.mantissa = 0 ∨ d.magnitude < -1 then 0
  else
    let (n, m) := d.quotient
    integerPart n m

end Decimal

end FrameLowering.Text
