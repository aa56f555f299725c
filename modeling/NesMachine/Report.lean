/-!
# Error reports

A failure as it is told to a user: what failed and, where something below it is to blame, the cause.
It has two layouts, one line for a log and a page for the terminal.
-/

set_option autoImplicit false

namespace NesMachine

/-- What failed and why. -/
structure Report where
  message : String
  cause : Option String
  deriving DecidableEq

namespace Report

/-- The message and the cause on one line. -/
def line (r : Report) : String :=
  match r.cause with
  | none => r.message
  | some cause => r.message ++ ": " ++ cause

/-- The message, and the cause in a paragraph of its own. -/
def page (r : Report) : String :=
  match r.cause with
  | none => "Error: " ++ r.message ++ "\n"
  | some cause => "Error: " ++ r.message ++ "\n\nCaused by:\n    " ++ cause ++ "\n"

end Report

end NesMachine
