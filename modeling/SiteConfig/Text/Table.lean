import SiteConfig.Text.Width

/-!
# Tables

A table is drawn with lines around and below its head and between its columns. Each
column is as wide as its widest line, with a blank on both sides; a cell of several
lines makes its row as high.
-/

namespace SiteConfig.Text

/-- The lines of a cell. -/
def cellLines (s : String) : List String :=
  (s.toList.foldr (fun c acc =>
    match c, acc with
    | '\n', acc => [] :: acc
    | c, l :: r => (c :: l) :: r
    | c, [] => [[c]]) [[]]).map String.ofList

/-- A text followed by blanks up to some width. -/
def padTo (n : Nat) (s : String) : String := s ++ String.ofList (List.replicate (n - width s) ' ')

/-- A line of a row. -/
def rowLine (widths : List Nat) (cells : List String) : String :=
  "│" ++ "│".intercalate ((widths.zip cells).map fun (n, s) => " " ++ padTo n s ++ " ") ++ "│"

/-- The lines of a row. -/
def rowLines (widths : List Nat) (cells : List String) : List String :=
  let parts := cells.map cellLines
  let height := parts.foldl (fun n p => max n p.length) 0
  (List.range height).map fun i => rowLine widths (parts.map fun p => p.getD i "")

/-- A horizontal line with its two ends and what stands between columns. -/
def ruleLine (left joint right : String) (widths : List Nat) : String :=
  left ++ joint.intercalate (widths.map fun n => String.ofList (List.replicate (n + 2) '─')) ++ right

/-- The widths of the columns. -/
def columnWidths (rows : List (List String)) : List Nat :=
  rows.foldl (fun ws row =>
    let cells := row.map fun s => (cellLines s).foldl (fun n l => max n (width l)) 0
    if ws.isEmpty then cells else List.zipWith max ws cells) []

/-- **The text of a table** with its head. -/
def table (head : List String) (rows : List (List String)) : String :=
  let ws := columnWidths (head :: rows)
  let body := rows.flatMap (rowLines ws)
  "\n".intercalate <|
    [ruleLine "╭" "┬" "╮" ws] ++ rowLines ws head ++
      (if body.isEmpty then [] else [ruleLine "├" "┼" "┤" ws]) ++ body ++
      [ruleLine "╰" "┴" "╯" ws]

end SiteConfig.Text
