/-!
# Base64

Bytes written in 64 characters, four for three bytes. `Base64.decode?` reads such a text.
Line ends in it have no meaning, and equals signs fill up the last four characters.
-/

namespace FrameLowering.Text.Base64

/-- Value of a character. -/
def sextet? (c : Char) : Option Nat :=
  if 'A' ≤ c ∧ c ≤ 'Z' then some (c.toNat - 'A'.toNat)
  else if 'a' ≤ c ∧ c ≤ 'z' then some (c.toNat - 'a'.toNat + 26)
  else if '0' ≤ c ∧ c ≤ '9' then some (c.toNat - '0'.toNat + 52)
  else if c = '+' then some 62
  else if c = '/' then some 63
  else none

/-- The three bytes of four values. -/
def triple (a b c d : Nat) : List UInt8 :=
  let n := ((a * 64 + b) * 64 + c) * 64 + d
  [UInt8.ofNat (n / 65536), UInt8.ofNat (n / 256), UInt8.ofNat n]

/-- Bytes of groups of four characters. -/
def decodeGroups? : List Char → Option (List UInt8)
  | [] => some []
  | [a, b, '=', '='] => do
    return (triple (← sextet? a) (← sextet? b) 0 0).take 1
  | [a, b, c, '='] => do
    return (triple (← sextet? a) (← sextet? b) (← sextet? c) 0).take 2
  | a :: b :: c :: d :: rest => do
    return triple (← sextet? a) (← sextet? b) (← sextet? c) (← sextet? d) ++
      (← decodeGroups? rest)
  | _ => none

/-- Bytes of a text. -/
def decode? (text : List Char) : Option (List UInt8) :=
  decodeGroups? (text.filter fun c => c ≠ '\n' && c ≠ '\r')

end FrameLowering.Text.Base64
