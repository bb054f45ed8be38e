import SchemaDialects.Text.Width

/-!
# Pipe tables

Tables of Markdown with all cells of a column equally wide.
-/

namespace SchemaDialects.Markdown

/-- One cell for each column. -/
abbrev Row := List String

/-- The width of each column: that of its widest cell. -/
def columnWidths (rows : List Row) : List Nat :=
  match rows.map (·.map Text.displayWidth) with
  | [] => []
  | first :: rest => rest.foldl (List.zipWith max) first

def spaces (n : Nat) : String := String.ofList (List.replicate n ' ')

def pad (cell : String) (width : Nat) : String :=
  cell ++ spaces (width - Text.displayWidth cell)

def rowLine (widths : List Nat) (row : Row) : String :=
  "| " ++ " | ".intercalate (List.zipWith pad row widths) ++ " |"

/-- The line below the header. -/
def ruleLine (widths : List Nat) : String :=
  "|-" ++ "-|-".intercalate (widths.map fun n => String.ofList (List.replicate n '-')) ++ "-|"

def tableLines (header : Row) (rows : List Row) : List String :=
  let widths := columnWidths (header :: rows)
  rowLine widths header :: ruleLine widths :: rows.map (rowLine widths)

end SchemaDialects.Markdown
