/-!
# Sizes for people

A number of bytes with a binary unit and four significant digits. The number is first
taken to the nearest with 53 significant bits. A positive one is divided by 1024 until it
is below 1024, and a tie between two last digits goes to the even one; zeros after the
point are left out. Negative numbers stay in bytes and have an exponent from five digits
on.
-/

namespace FrameLowering.Text

/-- Division rounded to the nearest integer, a tie to the even one. -/
def divideToEven (n d : Nat) : Nat :=
  let q := n / d
  let r := n % d
  if d < 2 * r ∨ (2 * r = d ∧ q % 2 = 1) then q + 1 else q

/-- The nearest number with at most `digits` digits in a base, a tie to the even one, as
its leading digits and a number of zeros after them. -/
def leading (base digits n : Nat) : Nat × Nat :=
  let rec drop : Nat → Nat
    | 0 => 0
    | k + 1 => if base.pow (digits + k) ≤ n then k + 1 else drop k
  let zeros := drop 64
  (divideToEven n (base.pow zeros), zeros)

/-- The nearest number with 53 significant bits. -/
def toFloatGrid (n : Nat) : Nat :=
  let (m, zeros) := leading 2 53 n
  m <<< zeros

/-- Binary units, from bytes up. -/
def binaryUnits : List String :=
  ["B", "KiB", "MiB", "GiB", "TiB", "PiB", "EiB", "ZiB", "YiB"]

/-- The number of times that a number can be divided by 1024 before it is below 1024, at
most `limit`. -/
def binaryScale : (limit n : Nat) → Nat
  | 0, _ => 0
  | limit + 1, n => if n < 1024 then 0 else binaryScale limit (n / 1024) + 1

/-- Digits without the zeros at their end. -/
def dropZeros (cs : List Char) : List Char :=
  (cs.reverse.dropWhile fun c => c = '0').reverse

/-- A number with `places` digits after the point, zeros at the end and the point dropped
where possible. -/
def writePlaces (places n : Nat) : List Char :=
  let fraction := Nat.toDigits 10 (n % Nat.pow 10 places)
  let padded := dropZeros (List.replicate (places - fraction.length) '0' ++ fraction)
  let whole := Nat.toDigits 10 (n / Nat.pow 10 places)
  if places = 0 ∨ padded = [] then whole else whole ++ '.' :: padded

/-- Number of significant digits. -/
def sizeDigits : Nat := 4

/-- The quotient of two numbers below ten thousand, to four significant digits. -/
def writeQuotient (n d : Nat) : List Char :=
  let places := sizeDigits - (Nat.toDigits 10 (n / d)).length
  writePlaces places (divideToEven (n * Nat.pow 10 places) d)

/-- An integer of five or more digits to four significant digits, with an exponent. -/
def writeExponent (n : Nat) : List Char :=
  let (m, zeros) := leading 10 sizeDigits n
  let digits := Nat.toDigits 10 m
  let exponent := Nat.toDigits 10 (zeros + digits.length - 1)
  let mantissa :=
    match digits with
    | [] => []
    | d :: ds => if dropZeros ds = [] then [d] else d :: '.' :: dropZeros ds
  mantissa ++ 'e' :: '+' :: List.replicate (2 - exponent.length) '0' ++ exponent

/-- A number of bytes for people. -/
def byteSize (n : Int) : String :=
  let m := toFloatGrid n.natAbs
  if n < 0 then
    let digits := if m < Nat.pow 10 sizeDigits then Nat.toDigits 10 m else writeExponent m
    String.ofList ('-' :: digits) ++ "B"
  else
    let k := binaryScale (binaryUnits.length - 1) m
    String.ofList (writeQuotient m (Nat.pow 1024 k)) ++ binaryUnits.getD k ""

end FrameLowering.Text
