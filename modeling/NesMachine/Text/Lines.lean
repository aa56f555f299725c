/-!
# Lines

A line ends at a line feed, and a carriage return directly before the line feed belongs to the end.
What follows the last line feed is a line too, unless it is empty.
-/

set_option autoImplicit false

namespace NesMachine.Text

/-- A line without the carriage return that ends it. -/
def dropReturn (line : List Char) : List Char :=
  if line.getLast? = some '\r' then line.dropLast else line

/-- The lines of a text. -/
def lines (text : List Char) : List (List Char) :=
  let pieces := text.splitOn '\n'
  pieces.dropLast.map dropReturn ++ (pieces.getLast?.filter (· ≠ [])).toList

end NesMachine.Text
