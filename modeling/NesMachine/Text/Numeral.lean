/-!
# Reading numerals

A numeral is an optional plus sign and at least one digit of a base up to sixteen, in either case of
letters. Digits are read from left to right: the first one that is no digit, or that takes the value
past the largest allowed, decides the error.
-/

set_option autoImplicit false

namespace NesMachine.Text

/-- Why a text is not a numeral. -/
inductive NumeralError where
  | empty
  | invalidDigit
  | tooLarge
  deriving DecidableEq

/-- The message for a reader of the text. -/
def NumeralError.message : NumeralError → String
  | .empty => "cannot parse integer from empty string"
  | .invalidDigit => "invalid digit found in string"
  | .tooLarge => "number too large to fit in target type"

/-- The value of a digit of a base. -/
def digitValue? (base : Nat) (c : Char) : Option Nat :=
  let value? :=
    if '0' ≤ c ∧ c ≤ '9' then some (c.toNat - '0'.toNat)
    else if 'a' ≤ c ∧ c ≤ 'f' then some (c.toNat - 'a'.toNat + 10)
    else if 'A' ≤ c ∧ c ≤ 'F' then some (c.toNat - 'A'.toNat + 10)
    else none
  value?.filter (· < base)

/-- The value of digits that follow digits of value `n`. -/
def readDigits (base largest : Nat) : Nat → List Char → Except NumeralError Nat
  | n, [] => .ok n
  | n, c :: rest =>
      match digitValue? base c with
      | none => .error .invalidDigit
      | some d =>
          if n * base + d ≤ largest then readDigits base largest (n * base + d) rest
          else .error .tooLarge

/-- The value of a numeral, which may be at most `largest`. -/
def readNumeral (base largest : Nat) : List Char → Except NumeralError Nat
  | [] => .error .empty
  | ['+'] => .error .invalidDigit
  | '+' :: rest => readDigits base largest 0 rest
  | text => readDigits base largest 0 text

end NesMachine.Text
