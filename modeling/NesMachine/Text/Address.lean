import NesMachine.Report
import NesMachine.Text.Numeral

/-!
# Reading addresses

An address is a hexadecimal numeral of at most 16 bits, as `C000`, `0xC000`, `0XC000` or `$C000`. A
byte is an address that does not exceed `FF`.
-/

set_option autoImplicit false

namespace NesMachine.Text

/-- Why a text is not an address. -/
structure AddressError where
  text : String
  cause : NumeralError
  deriving DecidableEq

/-- Why a text is not a byte. -/
inductive ByteError where
  | notAddress (error : AddressError)
  | tooLarge (text : String)
  deriving DecidableEq

/-- What is told about a text that is not an address. -/
def AddressError.report (e : AddressError) : Report :=
  ⟨"invalid address '" ++ e.text ++ "'", e.cause.message⟩

/-- What is told about a text that is not a byte. -/
def ByteError.report : ByteError → Report
  | .notAddress error => error.report
  | .tooLarge text => ⟨"'" ++ text ++ "' does not fit in a byte", NumeralError.tooLarge.message⟩

/-- A text without the mark for hexadecimal. At most one mark is taken off. -/
def dropMark : List Char → List Char
  | '0' :: 'x' :: rest => rest
  | '0' :: 'X' :: rest => rest
  | '$' :: rest => rest
  | text => text

/-- Read an address. -/
def readAddress (text : String) : Except AddressError UInt16 :=
  match readNumeral 16 0xFFFF (dropMark text.toList) with
  | .ok n => .ok (UInt16.ofNat n)
  | .error cause => .error ⟨text, cause⟩

/-- Read a byte. -/
def readByte (text : String) : Except ByteError UInt8 :=
  match readAddress text with
  | .ok addr => if addr ≤ 0xFF then .ok addr.toUInt8 else .error (.tooLarge text)
  | .error error => .error (.notAddress error)

end NesMachine.Text
