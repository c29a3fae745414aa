import FrameLowering.Text.Calendar
import FrameLowering.Text.Decimal

/-!
# Points in time

Dates, and dates with a time of day, as YAML scalars: `2001-12-14`,
`2001-12-14T21:59:43.10-05:00` and `2001-12-14 21:59:43`. All numbers but the year may
have one digit or two.
-/

namespace FrameLowering.Yaml.Timestamp

/-- Reads a number of one or two digits. -/
def readNumber? : List Char → Option (Nat × List Char)
  | a :: b :: cs =>
    if !Text.Decimal.isDigit a then none
    else if Text.Decimal.isDigit b then some (Text.Decimal.digits [a, b], cs)
    else some (Text.Decimal.digits [a], b :: cs)
  | [a] => if Text.Decimal.isDigit a then some (Text.Decimal.digits [a], []) else none
  | [] => none

/-- Reads a given character. -/
def readChar? (c : Char) : List Char → Option (List Char)
  | d :: cs => if d = c then some cs else none
  | [] => none

/-- Reads a date. The year has four digits. -/
def readDate? (cs : List Char) : Option (List Char) := do
  let year := cs.takeWhile Text.Decimal.isDigit
  let (month, cs) ← readNumber? (← readChar? '-' (cs.drop year.length))
  let (day, cs) ← readNumber? (← readChar? '-' cs)
  if year.length = 4 ∧ Text.isDay (Text.Decimal.digits year) month day then cs else none

/-- Drops a fraction of a second. -/
def dropFraction : List Char → List Char
  | p :: c :: cs =>
    if (p = '.' ∨ p = ',') ∧ Text.Decimal.isDigit c then cs.dropWhile Text.Decimal.isDigit
    else p :: c :: cs
  | cs => cs

/-- Reads a time of day. -/
def readTime? (cs : List Char) : Option (List Char) := do
  let (hour, cs) ← readNumber? cs
  let (minute, cs) ← readNumber? (← readChar? ':' cs)
  let (second, cs) ← readNumber? (← readChar? ':' cs)
  if hour < 24 ∧ minute < 60 ∧ second < 60 then some (dropFraction cs) else none

/-- Whether a text is an offset from universal time. -/
def isOffset : List Char → Bool
  | ['Z'] => true
  | [s, a, b, ':', c, d] =>
    (s = '+' || s = '-') && [a, b, c, d].all Text.Decimal.isDigit &&
      Text.Decimal.digits [a, b] ≤ 24 && Text.Decimal.digits [c, d] ≤ 60
  | _ => false

/-- Whether a text is a point in time. -/
def isTimestamp (text : List Char) : Bool :=
  match readDate? text with
  | none => false
  | some [] => true
  | some (c :: cs) =>
    if c = 'T' ∨ c = 't' then (readTime? cs).any isOffset
    else c = ' ' && readTime? (cs.dropWhile (· = ' ')) = some []

end FrameLowering.Yaml.Timestamp
