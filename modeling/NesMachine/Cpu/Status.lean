import NesMachine.Word

/-!
# The status register

The processor keeps eight one-bit flags. As a byte, from bit 7 down to bit 0, they are negative,
overflow, unused, break, decimal, interrupt disable, zero and carry. The unused bit has no latch and
reads as one; the break bit exists in the copies that are pushed on the stack, where it tells a
software interrupt from a hardware one.

The two representations carry the same information (`ofByte_toByte`, `toByte_ofByte`).
-/

set_option autoImplicit false

namespace NesMachine

/-- The eight flags of the status register. -/
structure Status where
  carry : Bool
  zero : Bool
  interruptDisable : Bool
  decimal : Bool
  breakMark : Bool
  unused : Bool
  overflow : Bool
  negative : Bool
  deriving DecidableEq

namespace Status

/-- The contribution of one flag to the status byte. -/
def weigh (weight : UInt8) (flag : Bool) : UInt8 :=
  if flag then weight else 0

/-- The flags as one byte. -/
def toByte (s : Status) : UInt8 :=
  weigh 0x01 s.carry + weigh 0x02 s.zero + weigh 0x04 s.interruptDisable + weigh 0x08 s.decimal +
    weigh 0x10 s.breakMark + weigh 0x20 s.unused + weigh 0x40 s.overflow + weigh 0x80 s.negative

/-- The flags that a byte holds. Every bit is representable. -/
def ofByte (v : UInt8) : Status where
  carry := v &&& 0x01 != 0
  zero := v &&& 0x02 != 0
  interruptDisable := v &&& 0x04 != 0
  decimal := v &&& 0x08 != 0
  breakMark := v &&& 0x10 != 0
  unused := v &&& 0x20 != 0
  overflow := v &&& 0x40 != 0
  negative := v &&& 0x80 != 0

/-- All flags clear but the unused one: the state of a processor at power on and after a reset. -/
def initial : Status :=
  ⟨false, false, false, false, false, true, false, false⟩

/-- Whether all the flags of a mask are set. -/
def includes (s : Status) (mask : UInt8) : Bool :=
  s.toByte &&& mask == mask

/-- Set or clear all the flags of a mask. -/
def assign (s : Status) (mask : UInt8) (value : Bool) : Status :=
  ofByte (if value then s.toByte ||| mask else s.toByte &&& ~~~mask)

/-- The flags that describe an 8-bit result: whether it is zero and whether it is negative. -/
def withResult (s : Status) (result : UInt8) : Status :=
  { s with zero := result == 0, negative := signBit result }

/-- The byte that goes on the stack. The unused bit is set; the break bit tells whether an
instruction or an interrupt line pushed it. -/
def pushed (s : Status) (byInstruction : Bool) : UInt8 :=
  { s with breakMark := byInstruction, unused := true }.toByte

/-- The flags that a byte from the stack leaves behind. Break has no latch and unused reads as
one, so neither is taken from the byte. -/
def pulled (v : UInt8) : Status :=
  { ofByte v with breakMark := false, unused := true }

@[simp] theorem ofByte_toByte (s : Status) : ofByte s.toByte = s := by
  obtain ⟨c, z, i, d, b, u, v, n⟩ := s
  cases c <;> cases z <;> cases i <;> cases d <;> cases b <;> cases u <;> cases v <;> cases n <;>
    rfl

@[simp] theorem toByte_ofByte (v : UInt8) : (ofByte v).toByte = v := by
  have all : ∀ i : Fin 256, (ofByte (UInt8.ofFin i)).toByte = UInt8.ofFin i := by decide +kernel
  exact all v.toFin

@[simp] theorem pulled_pushed (s : Status) (byInstruction : Bool) :
    pulled (s.pushed byInstruction) = { s with breakMark := false, unused := true } := by
  simp [pulled, pushed]

end Status

end NesMachine
