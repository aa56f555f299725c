/-!
# Columns counted in bytes

A column of a text is given by the offsets of its ends in the UTF-8 encoding. It is absent if an
offset lies beyond the text or inside the encoding of a character.
-/

set_option autoImplicit false

namespace NesMachine.Text

/-- What follows the first `n` bytes of a text. -/
def dropBytes : Nat → List Char → Option (List Char)
  | 0, text => some text
  | _ + 1, [] => none
  | n + 1, c :: text =>
      if c.utf8Size ≤ n + 1 then dropBytes (n + 1 - c.utf8Size) text else none

/-- The first `n` bytes of a text. -/
def takeBytes : Nat → List Char → Option (List Char)
  | 0, _ => some []
  | _ + 1, [] => none
  | n + 1, c :: text =>
      if c.utf8Size ≤ n + 1 then (takeBytes (n + 1 - c.utf8Size) text).map (c :: ·) else none

/-- The bytes of a text from offset `start` to before offset `stop`. -/
def column (start stop : Nat) (text : List Char) : Option (List Char) :=
  (dropBytes start text).bind (takeBytes (stop - start))

end NesMachine.Text
