import Lapse.Text.Blank
import Lapse.Text.Utf8

/-!
# Tables

A table is a header line, a line of hyphens, and a line for each row.  A column is as wide as its
longest cell has bytes, a cell is filled up with blanks to as many characters, and two blanks stand
between cells.  No character has less than one byte, so the cells of a column begin at the same
character of every line.  Cells beyond the headers follow unfilled.
-/

namespace Lapse.Table

/-- The number of bytes of a cell. -/
def size (cell : String) : Nat := (Utf8.encode cell).length

/-- Make columns wide enough for the cells of a row. -/
def widen : List Nat → List String → List Nat
  | w :: ws, cell :: cells => max w (size cell) :: widen ws cells
  | ws, [] => ws
  | [], _ => []

/-- The widths of the columns. -/
def widths (headers : List String) (rows : List (List String)) : List Nat :=
  rows.foldl widen (headers.map size)

/-- A cell filled up with blanks.  Toolchains from 1.87 on panic at a width above 65535, and no toolchain
is pinned; here a cell is filled up to any width, as it is with the earlier ones. -/
def fill (width : Nat) (cell : String) : List Char :=
  cell.toList ++ List.replicate (width - cell.toList.length) ' '

/-- The cells of a row, filled up. -/
def fillAll : List Nat → List String → List (List Char)
  | _, [] => []
  | [], cell :: cells => fill 0 cell :: fillAll [] cells
  | w :: ws, cell :: cells => fill w cell :: fillAll ws cells

/-- Two blanks between cells. -/
def join : List (List Char) → List Char
  | [] => []
  | [cell] => cell
  | cell :: rest => cell ++ ' ' :: ' ' :: join rest

/-- The line of a row, without blanks at its end. -/
def rowLine (widths : List Nat) (row : List String) : List Char :=
  trimEnd (join (fillAll widths row))

/-- The line between headers and rows. -/
def ruleLine (widths : List Nat) : List Char := join (widths.map fun w => List.replicate w '-')

/-- The lines of a table. -/
def lines (headers : List String) (rows : List (List String)) : List String :=
  let ws := widths headers rows
  (rowLine ws headers :: ruleLine ws :: rows.map (rowLine ws)).map String.ofList

end Lapse.Table
