import NesMachine.Word

/-!
# Hexadecimal output

Upper-case hexadecimal digits: a fixed number of them for bytes and words, and as many as needed for
other numbers.
-/

set_option autoImplicit false

namespace NesMachine.Text.Hex

/-- The upper-case digit for a number below sixteen. -/
def digit (d : Nat) : Char :=
  (Nat.digitChar d).toUpper

/-- The last `width` digits of a number. -/
def fixed : Nat → Nat → List Char
  | 0, _ => []
  | width + 1, n => fixed width (n / 16) ++ [digit (n % 16)]

/-- Two digits for a byte. -/
def byte (v : UInt8) : List Char :=
  fixed 2 v.toNat

/-- Four digits for a word. -/
def ofWord (w : UInt16) : List Char :=
  fixed 4 w.toNat

/-- As many digits as a number needs. -/
def shortest (n : Nat) : List Char :=
  (Nat.toDigits 16 n).map Char.toUpper

/-- As many digits as a number needs, with zeros before them up to a width. -/
def atLeast (width n : Nat) : List Char :=
  (shortest n).leftpad width '0'

@[simp] theorem length_fixed (width n : Nat) : (fixed width n).length = width := by
  induction width generalizing n with
  | zero => rfl
  | succ width ih => simp [fixed, ih]

/-- Two digits of a byte as text. -/
def byteText (v : UInt8) : String :=
  String.ofList (byte v)

/-- Four digits of a word as text. -/
def wordText (w : UInt16) : String :=
  String.ofList (ofWord w)

end NesMachine.Text.Hex
