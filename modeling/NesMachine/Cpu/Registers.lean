import NesMachine.Word
import NesMachine.Cpu.Status

/-!
# Registers and arithmetic

The programmer-visible registers and everything an instruction computes on them without touching
the bus. Arithmetic is binary whatever the decimal flag says. Subtraction adds the complement of
its operand (`sbc`), and a comparison is a subtraction that keeps only the flags (`compare`).
-/

set_option autoImplicit false

namespace NesMachine

/-- The programmer-visible registers. The stack pointer `sp` is an offset into page one and wraps
in both directions. -/
structure Registers where
  a : UInt8
  x : UInt8
  y : UInt8
  sp : UInt8
  pc : UInt16
  status : Status
  deriving DecidableEq

namespace Registers

/-- All registers zero, with the status of a processor at power on. -/
def initial : Registers :=
  ⟨0, 0, 0, 0, 0, .initial⟩

/-- Record in the zero and negative flags what an 8-bit result is. -/
def withResult (r : Registers) (result : UInt8) : Registers :=
  { r with status := r.status.withResult result }

/-- Replace the carry flag. -/
def withCarry (r : Registers) (carry : Bool) : Registers :=
  { r with status.carry := carry }

/-- The carry flag as a number. -/
def carryByte (r : Registers) : UInt8 :=
  if r.status.carry then 1 else 0

/-! ## Loads and transfers -/

/-- Put a value into A and describe it in the flags. -/
def setA (r : Registers) (value : UInt8) : Registers :=
  { r with a := value }.withResult value

/-- Put a value into X and describe it in the flags. -/
def setX (r : Registers) (value : UInt8) : Registers :=
  { r with x := value }.withResult value

/-- Put a value into Y and describe it in the flags. -/
def setY (r : Registers) (value : UInt8) : Registers :=
  { r with y := value }.withResult value

/-! ## Arithmetic -/

/-- Add an operand and the carry to A. Carry is set when the sum leaves the byte, overflow when
two operands of one sign have a sum of the other. -/
def adc (r : Registers) (m : UInt8) : Registers :=
  let sum := r.a.toNat + m.toNat + r.carryByte.toNat
  let result := UInt8.ofNat sum
  let overflow := signBit r.a == signBit m && signBit result != signBit r.a
  { r with status.carry := decide (0xFF < sum), status.overflow := overflow }.setA result

/-- Subtract an operand and the borrow (the complement of carry) from A. -/
def sbc (r : Registers) (m : UInt8) : Registers :=
  r.adc (~~~m)

/-- Compare a register with an operand: the flags of their difference, and carry when nothing has
to be borrowed. -/
def compare (r : Registers) (register m : UInt8) : Registers :=
  (r.withCarry (decide (m ≤ register))).withResult (register - m)

/-- Test an operand against A: zero tells whether they share a bit, negative and overflow are bits
7 and 6 of the operand. -/
def bitTest (r : Registers) (m : UInt8) : Registers :=
  { r with
    status.zero := r.a &&& m == 0
    status.negative := signBit m
    status.overflow := m &&& 0x40 != 0 }

/-! ## Shifts, rotations and counting

Each returns the new value of the operand and the registers with their new flags. -/

/-- Describe a result in the flags and return it with them. -/
def yield (r : Registers) (result : UInt8) : UInt8 × Registers :=
  (result, r.withResult result)

/-- Shift left; bit 7 goes to carry. -/
def asl (r : Registers) (m : UInt8) : UInt8 × Registers :=
  (r.withCarry (signBit m)).yield (m <<< 1)

/-- Shift right; bit 0 goes to carry. -/
def lsr (r : Registers) (m : UInt8) : UInt8 × Registers :=
  (r.withCarry (m % 2 == 1)).yield (m >>> 1)

/-- Rotate left through carry: carry enters bit 0 and bit 7 goes to carry. -/
def rol (r : Registers) (m : UInt8) : UInt8 × Registers :=
  (r.withCarry (signBit m)).yield ((m <<< 1) + r.carryByte)

/-- Rotate right through carry: carry enters bit 7 and bit 0 goes to carry. -/
def ror (r : Registers) (m : UInt8) : UInt8 × Registers :=
  (r.withCarry (m % 2 == 1)).yield ((m >>> 1) + 0x80 * r.carryByte)

/-- Count up by one. -/
def inc (r : Registers) (m : UInt8) : UInt8 × Registers :=
  r.yield (m + 1)

/-- Count down by one. -/
def dec (r : Registers) (m : UInt8) : UInt8 × Registers :=
  r.yield (m - 1)

end Registers

end NesMachine
