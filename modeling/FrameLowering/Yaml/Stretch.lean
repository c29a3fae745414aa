import FrameLowering.Yaml.Place

/-!
# Stretches of a YAML text

A text is taken in by stretches of 512 bytes, and each is checked as a whole for
characters that a text cannot have. What stands before the first bad stretch is as good as
in any other text: `readablePart` gives it.
-/

namespace FrameLowering.Yaml

/-- Number of bytes of a stretch. -/
def stretchSize : Nat := 512

/-- Characters that a text can have. -/
def isTextChar (c : Char) : Bool :=
  let n := c.toNat
  n = 0x09 || n = 0x0a || n = 0x0d || (0x20 ≤ n && n ≤ 0x7e) || n = 0x85 ||
    (0xa0 ≤ n && n ≤ 0xfffd) || 0x10000 ≤ n

/-- Splits off the characters that fit into a number of bytes. -/
def splitStretch : (room : Nat) → List Char → List Char × List Char
  | _, [] => ([], [])
  | room, c :: cs =>
    if room < c.utf8Size then ([], c :: cs)
    else
      let (stretch, rest) := splitStretch (room - c.utf8Size) cs
      (c :: stretch, rest)

/-- The stretches of a text before the first one with a character that a text cannot have,
of which there are at most `fuel`. The first stretch has a given room. -/
def readableStretches : (fuel room : Nat) → List Char → List (List Char)
  | 0, _, _ => []
  | fuel + 1, room, text =>
    let (stretch, rest) := splitStretch room text
    if !stretch.all isTextChar then []
    else if rest = [] then [stretch]
    else stretch :: readableStretches fuel stretchSize rest

/-- The part of a text that can be read, in which the first stretch has a given room. -/
def readablePart (room : Nat) (text : List Char) : List Char :=
  (readableStretches (text.length + 1) room text).flatten

end FrameLowering.Yaml
