/-!
# Tables of text

A `TextTable` is drawn with lines between its cells. Every column is as wide as its widest cell, and every cell
has a blank on either side.
-/

namespace StakePool

structure TextTable where
  header : List String
  rows : List (List String)
deriving DecidableEq

namespace TextTable

def widths (t : TextTable) : List Nat :=
  t.rows.foldl (fun widths row => List.zipWith (fun w (cell : String) => max w cell.length) widths row)
    (t.header.map String.length)

/-- The strokes of a line between rows: its ends, what it is made of, and what stands at a column's edge. -/
structure Rule where
  left : String
  stroke : Char
  joint : String
  right : String

def top : Rule := ⟨"┌", '─', "┬", "┐"⟩
def underHeader : Rule := ⟨"╞", '═', "╪", "╡"⟩
def betweenRows : Rule := ⟨"├", '╌', "┼", "┤"⟩
def bottom : Rule := ⟨"└", '─', "┴", "┘"⟩

def Rule.draw (rule : Rule) (widths : List Nat) : String :=
  rule.left ++ rule.joint.intercalate (widths.map fun w => String.ofList (List.replicate (w + 2) rule.stroke)) ++
    rule.right

def drawCell (width : Nat) (cell : String) : String :=
  " " ++ cell ++ String.ofList (List.replicate (width - cell.length + 1) ' ')

def drawRow (widths : List Nat) (row : List String) : String :=
  "│" ++ "┆".intercalate (List.zipWith drawCell widths row) ++ "│"

def draw (t : TextTable) : String :=
  let widths := t.widths
  let body := (t.rows.map (drawRow widths)).intersperse (betweenRows.draw widths)
  "\n".intercalate
    ([top.draw widths, drawRow widths t.header, underHeader.draw widths] ++ body ++ [bottom.draw widths])

end TextTable

end StakePool
