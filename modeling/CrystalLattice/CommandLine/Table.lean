import CrystalLattice.CommandLine.Flag

/-!
# Tables in columns

A table is a list of rows of cells. Every cell but the last of its row belongs to a column and
is padded with spaces to the width of that column: the widest cell in it, counted in
characters, plus two. The last cell of a row is written as it is, and every row ends in a line
break. Columns are formed by runs of consecutive rows that reach them, so a row too short for a
column separates the rows above it from those below.
-/

namespace CrystalLattice.CommandLine

/-- The width of column `j` over a run of rows that all reach it. -/
def columnWidth (rows : List (List String)) (j : Nat) : Nat :=
  rows.foldl (fun w r => max w (((r[j]?).map String.length).getD 0 + 2)) 0

def reaches (j : Nat) (row : List String) : Bool := j + 1 < row.length

/-- Lay out rows as a table, column `j` onward; `fuel` bounds the number of columns. The
rows' cells before column `j` are already laid out in `done`. -/
def layoutFrom : Nat → Nat → List (String × List String) → List String
  | 0, j, rows => rows.map fun (done, cells) => done ++ String.join (cells.drop j)
  | fuel + 1, j, rows =>
    let runs := rows.splitBy fun a b => reaches j a.2 == reaches j b.2
    runs.flatMap fun run =>
      match run with
      | (_, cells) :: _ =>
        if reaches j cells then
          let width := columnWidth (run.map (·.2)) j
          let padded := run.map fun (done, cells) =>
            let cell := cells[j]?.getD ""
            (done ++ cell ++ spaces (width - cell.length), cells)
          layoutFrom fuel (j + 1) padded
        else run.map fun (done, cells) => done ++ String.join (cells.drop j)
      | [] => []

/-- Rows laid out in columns, each row ending in a line break. -/
def table (rows : List (List String)) : String :=
  let fuel := rows.foldl (fun w r => max w r.length) 0
  String.join ((layoutFrom fuel 0 (rows.map fun r => ("", r))).map (· ++ "\n"))

end CrystalLattice.CommandLine
