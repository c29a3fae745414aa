import FrameLowering.Text.Base64
import FrameLowering.Text.Utf8
import FrameLowering.Yaml.Node
import FrameLowering.Yaml.Timestamp

/-!
# What a YAML scalar stands for

A text without quotes can stand for nothing, a truth value or a number. An explicit tag
has to agree with what the text stands for. With a tag that is not of these kinds every
text stands for itself, or for the bytes that it encodes.
-/

namespace FrameLowering.Yaml

/-- A fractional number. -/
inductive Fraction where
  | notANumber
  | infinite (negative : Bool)
  | finite (d : Text.Decimal)
deriving DecidableEq, Repr

/-- The value of a scalar. -/
inductive Resolved where
  | null
  | boolean (b : Bool)
  | integer (n : Int64)
  /-- An integer that has 64 bits only without a sign. -/
  | large
  | float (f : Fraction)
  | text (s : String)
deriving DecidableEq, Repr

namespace Resolved

/-- Words with a meaning. -/
def words : List (String × Resolved) := [
  ("", .null), ("~", .null), ("null", .null), ("Null", .null), ("NULL", .null),
  ("true", .boolean true), ("True", .boolean true), ("TRUE", .boolean true),
  ("false", .boolean false), ("False", .boolean false), ("FALSE", .boolean false),
  (".nan", .float .notANumber), (".NaN", .float .notANumber), (".NAN", .float .notANumber),
  (".inf", .float (.infinite false)), (".Inf", .float (.infinite false)),
  (".INF", .float (.infinite false)), ("+.inf", .float (.infinite false)),
  ("+.Inf", .float (.infinite false)), ("+.INF", .float (.infinite false)),
  ("-.inf", .float (.infinite true)), ("-.Inf", .float (.infinite true)),
  ("-.INF", .float (.infinite true))]

/-- A number with a point or an exponent, unless it is too large. -/
def float? (cs : List Char) : Option Resolved :=
  match Text.Decimal.read? cs with
  | some d => if d.overflows then none else some (.float (.finite d))
  | none => none

/-- A binary or octal number with a sign after the base mark. -/
def marked? : List Char → Option Resolved
  | '0' :: m :: cs =>
    let (negative, ds) := Text.splitSign cs
    let base := if m = 'b' then 2 else 8
    if (m = 'b' ∨ m = 'o') ∧ ds ≠ [] then
      match Text.readDigits base false 0 ds with
      | .ok n =>
        match Text.signedValue negative n with
        | .ok v => some (.integer v)
        | .error _ => none
      | .error _ => none
    else none
  | _ => none

/-- A number that begins with a digit or a sign. Underscores in it have no meaning. -/
def number? (cs : List Char) : Option Resolved :=
  let cs := cs.filter (· ≠ '_')
  match Text.readLiteral cs with
  | .ok n => some (.integer n)
  | .error _ =>
    match Text.readUnsignedLiteral cs with
    | .ok _ => some .large
    | .error _ =>
      match float? cs with
      | some f => some f
      | none => marked? cs

/-- A number that begins with a point. Underscores stand between digits. -/
def pointed? (cs : List Char) : Option Resolved :=
  if Text.marksBetween false .start cs then float? (cs.filter (· ≠ '_')) else none

/-- The value of a text without a tag. -/
def ofText (s : String) : Resolved :=
  match words.lookup s with
  | some r => r
  | none =>
    match s.toList with
    | [] => .null
    | c :: cs =>
      if c = '.' then (pointed? (c :: cs)).getD (.text s)
      else if c = '+' ∨ c = '-' ∨ Text.Decimal.isDigit c then (number? (c :: cs)).getD (.text s)
      else .text s

/-- The tag of a value. -/
def tag : Resolved → String
  | .null => "!!null"
  | .boolean _ => "!!bool"
  | .integer _ | .large => "!!int"
  | .float _ => "!!float"
  | .text _ => "!!str"

/-- The short form of a tag. -/
def shortTag (t : String) : String :=
  match ("tag:yaml.org,2002:".toList).isPrefixOf t.toList with
  | true => "!!" ++ String.ofList (t.toList.drop 18)
  | false => t

/-- The value of a text with the tag of a truth value, a number or nothing. -/
def ofKind? (short s : String) : Option Resolved :=
  let r := ofText s
  if r.tag = short then some r
  else
    match r with
    | .integer n =>
      if short = "!!float" then some (.float (.finite ⟨n < 0, n.toInt.natAbs, 0⟩)) else none
    | _ => none

/-- The value of a text with a tag. -/
def ofTagged? (t s : String) : Option Resolved :=
  let short := shortTag t
  if short ∈ ["!!null", "!!bool", "!!int", "!!float"] then ofKind? short s
  else if short = "!!timestamp" then
    if Timestamp.isTimestamp s.toList then some (.text s) else none
  else if short = "!!binary" then
    (Text.Base64.decode? s.toList).map fun bs => .text (Text.Utf8.lossy bs)
  else some (.text s)

/-- The value of a scalar. -/
def ofScalar? (t : Option String) (plain : Bool) (s : String) : Option Resolved :=
  match t.filter (· ≠ "!") with
  | some t => ofTagged? t s
  | none => some (if plain then ofText s else .text s)

/-- The value as a text: one that is not a text has the text that it is written as. -/
def asText (s : String) : Resolved → String
  | .text t => t
  | _ => s

/-- The integer part of a fractional number. Numbers beyond the range have the least
value, and there is none for numbers too large. -/
def truncated? : Fraction → Option Int64
  | .notANumber => none
  | .infinite negative => if negative then some Int64.minValue else none
  | .finite d =>
    let n := d.truncate
    if d.negative then some (if 1 <<< 63 ≤ n then Int64.minValue else Int64.ofInt (-n))
    else if 1 <<< 63 < n then none
    else some (Int64.ofInt n)

/-- The value as an integer. -/
def integer? : Resolved → Option Int64
  | .integer n => some n
  | .float f => truncated? f
  | _ => none

/-- The value as a truth value, for which there are some more words. -/
def boolean? : Resolved → Option Bool
  | .boolean b => some b
  | .text s =>
    if s ∈ ["y", "Y", "yes", "Yes", "YES", "on", "On", "ON"] then some true
    else if s ∈ ["n", "N", "no", "No", "NO", "off", "Off", "OFF"] then some false
    else none
  | _ => none

end Resolved

end FrameLowering.Yaml
