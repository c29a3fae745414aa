/-!
# Columns

Rows of cells set in columns. A column is as wide as its widest cell and a gap; the last
cell of a row is not padded.
-/

namespace FrameLowering.Text

/-- Spaces between columns. -/
def columnGap : Nat := 2

/-- Width of each column but the last, for rows with the same number of cells. -/
def columnWidths (rows : List (List String)) : List Nat :=
  match rows with
  | [] => []
  | row :: _ =>
    (List.range (row.length - 1)).map fun i =>
      (rows.map fun r => (r.getD i "").length).foldl max 0 + columnGap

/-- A row with its cells padded to widths. -/
def padRow : List Nat → List String → String
  | w :: ws, c :: cs => c ++ String.ofList (List.replicate (w - c.length) ' ') ++ padRow ws cs
  | _, cs => String.join cs

/-- Rows set in columns, a line for each. -/
def inColumns (rows : List (List String)) : String :=
  let widths := columnWidths rows
  String.join (rows.map fun r => padRow widths r ++ "\n")

end FrameLowering.Text
