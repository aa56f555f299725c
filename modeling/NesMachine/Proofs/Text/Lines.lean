import NesMachine.Text.Lines

/-!
# Lines that end in a line feed

A text that is put together from lines, each with a line feed behind it, has those lines
(`Text.lines_of_terminated`), if none of them contains a line feed or ends in a carriage return.
-/

set_option autoImplicit false

namespace NesMachine.Text

/-- Lines with a line feed behind each. -/
def terminated (rows : List (List Char)) : List Char :=
  rows.flatMap fun row => row ++ ['\n']

/-- Splitting at line feeds gives the lines and an empty rest. -/
theorem splitOn_terminated {rows : List (List Char)} (h : ∀ row ∈ rows, '\n' ∉ row) :
    (terminated rows).splitOn '\n' = rows ++ [[]] := by
  induction rows with
  | nil => rfl
  | cons row rest ih =>
    have hrest := ih fun other hother => h other (List.mem_cons_of_mem row hother)
    rw [terminated, List.flatMap_cons, ← terminated, List.append_assoc, List.singleton_append,
      List.splitOn_append_cons_self_of_not_mem (h row List.mem_cons_self), hrest,
      List.cons_append]

theorem dropReturn_of_getLast?_ne {row : List Char} (h : row.getLast? ≠ some '\r') :
    dropReturn row = row :=
  if_neg h

theorem lines_of_terminated {rows : List (List Char)} (hfeed : ∀ row ∈ rows, '\n' ∉ row)
    (hreturn : ∀ row ∈ rows, row.getLast? ≠ some '\r') : lines (terminated rows) = rows := by
  have hkept : rows.map dropReturn = rows := by
    rw [List.map_congr_left fun row hrow => dropReturn_of_getLast?_ne (hreturn row hrow)]
    exact List.map_id' rows
  -- The piece behind the last line feed is empty, so it is no line.
  rw [lines, splitOn_terminated hfeed]
  rw [List.dropLast_concat, List.getLast?_concat, hkept]
  simp

end NesMachine.Text
