import NesMachine.Bus
import NesMachine.Cpu.Registers
import NesMachine.Cpu.OpcodeTable

/-!
# The processor and its elementary accesses

Besides its registers the processor has latches that carry an instruction's operand from its
addressing mode to its operation, and counters for the cycles. This module defines the state and the
accesses that every instruction is made of: fetching at the program counter, reading words, and the
stack in page one.
-/

set_option autoImplicit false

namespace NesMachine

/-- What an addressing mode leaves for the operation. -/
structure Latches where
  /-- The mode of the instruction in progress. -/
  mode : AddressingMode
  /-- The operand itself. -/
  operand : UInt8
  /-- The address of the operand. -/
  address : UInt16
  /-- The distance of a branch. -/
  displacement : UInt16
  deriving DecidableEq

/-- The latches of a processor on which nothing has run. -/
def Latches.initial : Latches :=
  ⟨.implied, 0, 0, 0⟩

/-- The state of the processor. -/
structure Cpu where
  regs : Registers
  latches : Latches
  /-- The opcode of the instruction started last. -/
  opcode : UInt8
  /-- The cycles that the instruction in progress still takes. -/
  remaining : UInt8
  /-- The cycles since power on, modulo 2^64. -/
  clockCount : UInt64
  deriving DecidableEq

namespace Cpu

/-- A processor at power on. Nothing is read from the bus before a reset. -/
def powerOn : Cpu :=
  ⟨.initial, .initial, 0, 0, 0⟩

/-- Whether the next clock starts an instruction. -/
def complete (c : Cpu) : Bool :=
  c.remaining == 0

/-! ## Reading words -/

/-- The word at an address and the next one. -/
def readWord (addr : UInt16) : Program UInt16 := do
  let low ← Program.readByte addr
  let high ← Program.readByte (addr + 1)
  return word low high

/-- The word at an address and the next one of the same page. -/
def readWordInPage (addr : UInt16) : Program UInt16 := do
  let low ← Program.readByte addr
  let high ← Program.readByte (word (lowByte addr + 1) (highByte addr))
  return word low high

/-! ## Fetching -/

/-- The byte at the program counter, which moves past it. -/
def fetchByte (c : Cpu) : Program (UInt8 × Cpu) := do
  let value ← Program.readByte c.regs.pc
  return (value, { c with regs.pc := c.regs.pc + 1 })

/-- The word at the program counter, which moves past it. -/
def fetchWord (c : Cpu) : Program (UInt16 × Cpu) := do
  let (low, c) ← c.fetchByte
  let (high, c) ← c.fetchByte
  return (word low high, c)

/-! ## The stack -/

/-- The stack cell that a stack pointer names. -/
def stackCell (sp : UInt8) : UInt16 :=
  word sp 0x01

/-- Put a byte on the stack. -/
def push (c : Cpu) (value : UInt8) : Program Cpu := do
  Program.writeByte (stackCell c.regs.sp) value
  return { c with regs.sp := c.regs.sp - 1 }

/-- Take a byte off the stack. -/
def pull (c : Cpu) : Program (UInt8 × Cpu) := do
  let value ← Program.readByte (stackCell (c.regs.sp + 1))
  return (value, { c with regs.sp := c.regs.sp + 1 })

/-- Put a word on the stack, high byte first, so that it lies there low byte first. -/
def pushWord (c : Cpu) (value : UInt16) : Program Cpu := do
  let c ← c.push (highByte value)
  c.push (lowByte value)

/-- Take a word off the stack. -/
def pullWord (c : Cpu) : Program (UInt16 × Cpu) := do
  let (low, c) ← c.pull
  let (high, c) ← c.pull
  return (word low high, c)

end Cpu

end NesMachine
