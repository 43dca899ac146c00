/-!
# Aligned columns

Rows of cells, one row a line after a tab, in which the cells of a column start at the same place.
-/

namespace SdkLoom.Go

/-- The width of a column: that of its widest cell. -/
def columnWidth (rows : List (List String)) (k : Nat) : Nat :=
  (rows.filterMap fun row => (row[k]?).map String.length).foldl max 0

/-- A cell padded with spaces. -/
def padCell (cell : String) (width : Nat) : String :=
  cell ++ String.ofList (List.replicate (width - cell.length) ' ')

/-- The text of a row's cells from column `k` on: all but the last are padded, and a space divides them. -/
def rowText (rows : List (List String)) (k : Nat) : List String → String
  | [] => ""
  | [cell] => cell
  | cell :: rest => padCell cell (columnWidth rows k) ++ " " ++ rowText rows (k + 1) rest

/-- The lines of aligned rows. -/
def columns (rows : List (List String)) : String :=
  String.join (rows.map fun row => "\t" ++ rowText rows 0 row ++ "\n")

end SdkLoom.Go
