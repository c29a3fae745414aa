import FrameLowering.Text.Printable
import FrameLowering.Text.Utf8

/-!
# Quoted text

Text between double quotes, as messages show what they were given. A quote and a
backslash are escaped, printable characters stand for themselves, and the others are
written as escapes: by letter, by two hexadecimal digits for the rest of the ASCII
controls, by four or eight digits otherwise. A byte that belongs to no character is
written by its two digits.
-/

namespace FrameLowering.Text

/-- Hexadecimal digits of a number, padded on the left to a least width. -/
def hexPadded (width n : Nat) : List Char :=
  let ds := Nat.toDigits 16 n
  List.replicate (width - ds.length) '0' ++ ds

/-- The letter that stands for a control character in an escape. -/
def escapeLetter? (c : Char) : Option Char :=
  match c.toNat with
  | 0x07 => some 'a'
  | 0x08 => some 'b'
  | 0x09 => some 't'
  | 0x0a => some 'n'
  | 0x0b => some 'v'
  | 0x0c => some 'f'
  | 0x0d => some 'r'
  | _ => none

/-- A character as it stands between quotes. -/
def quoteChar (c : Char) : List Char :=
  if c = '"' ∨ c = '\\' then
    ['\\', c]
  else if isPrintable c then
    [c]
  else
    match escapeLetter? c with
    | some l => ['\\', l]
    | none =>
      if c.toNat < 0x20 ∨ c.toNat = 0x7f then
        '\\' :: 'x' :: hexPadded 2 c.toNat
      else if c.toNat < 0x10000 then
        '\\' :: 'u' :: hexPadded 4 c.toNat
      else
        '\\' :: 'U' :: hexPadded 8 c.toNat

/-- A unit of a byte string as it stands between quotes. -/
def quotePiece : Utf8.Piece → List Char
  | .char c => quoteChar c
  | .stray b => '\\' :: 'x' :: hexPadded 2 b.toNat

/-- A text in quotes. -/
def quote (s : String) : String :=
  String.ofList ('"' :: (s.toList.flatMap quoteChar ++ ['"']))

/-- A byte string in quotes. -/
def quoteBytes (bs : List UInt8) : String :=
  String.ofList ('"' :: ((Utf8.units bs).flatMap quotePiece ++ ['"']))

end FrameLowering.Text
