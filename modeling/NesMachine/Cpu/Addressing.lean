import NesMachine.Cpu.Basic

/-!
# Addressing modes

Each mode reads its operand bytes at the program counter and leaves the address of the operand in a
latch; `implied` leaves A as the operand and `relative` the distance of the branch. Zero-page modes
stay in page zero, and a pointer is read within one page. The modes that index an absolute address
report whether the index changed the page.
-/

set_option autoImplicit false

namespace NesMachine.Cpu

/-- Set the address of the operand. -/
def aim (c : Cpu) (addr : UInt16) : Cpu :=
  { c with latches.address := addr }

/-- Set the address of the operand to a base plus an index, and tell whether their pages differ. -/
def aimIndexed (c : Cpu) (base : UInt16) (index : UInt8) : Bool × Cpu :=
  let addr := base + index.toUInt16
  (!samePage base addr, c.aim addr)

/-- Find the operand of an instruction. The answer tells whether indexing crossed a page. -/
def resolve (c : Cpu) : AddressingMode → Program (Bool × Cpu)
  | .implied => return (false, { c with latches.operand := c.regs.a })
  | .immediate => return (false, { c.aim c.regs.pc with regs.pc := c.regs.pc + 1 })
  | .zeroPage => do
      let (cell, c) ← c.fetchByte
      return (false, c.aim (word cell 0))
  | .zeroPageX => do
      let (cell, c) ← c.fetchByte
      return (false, c.aim (word (cell + c.regs.x) 0))
  | .zeroPageY => do
      let (cell, c) ← c.fetchByte
      return (false, c.aim (word (cell + c.regs.y) 0))
  | .relative => do
      let (distance, c) ← c.fetchByte
      return (false, { c with latches.displacement := signExtend distance })
  | .absolute => do
      let (addr, c) ← c.fetchWord
      return (false, c.aim addr)
  | .absoluteX => do
      let (base, c) ← c.fetchWord
      return c.aimIndexed base c.regs.x
  | .absoluteY => do
      let (base, c) ← c.fetchWord
      return c.aimIndexed base c.regs.y
  | .indirect => do
      let (pointer, c) ← c.fetchWord
      let addr ← readWordInPage pointer
      return (false, c.aim addr)
  | .indexedIndirect => do
      let (cell, c) ← c.fetchByte
      let addr ← readWordInPage (word (cell + c.regs.x) 0)
      return (false, c.aim addr)
  | .indirectIndexed => do
      let (cell, c) ← c.fetchByte
      let base ← readWordInPage (word cell 0)
      return c.aimIndexed base c.regs.y

end NesMachine.Cpu
