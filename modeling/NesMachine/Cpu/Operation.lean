import NesMachine.Cpu.Interrupt

/-!
# Operations

An operation is an `Action`: one of a dozen ways to use the bus, with a function on registers that
says what is computed. Which accesses an operation makes is read off its action alone, and which
registers it changes off the function.
-/

set_option autoImplicit false

namespace NesMachine

/-- What an operation does once its addressing mode has found the operand. -/
inductive Action where
  /-- Read the operand and compute on it. -/
  | load (result : Registers → UInt8 → Registers)
  /-- Read the operand, compute its new value and put that back where it came from. -/
  | modify (result : Registers → UInt8 → UInt8 × Registers)
  /-- Write a register to the operand's address. -/
  | store (value : Registers → UInt8)
  /-- Compute on the registers alone. -/
  | internal (result : Registers → Registers)
  /-- Go on at the branch target if the status asks for it. -/
  | branch (taken : Status → Bool)
  /-- Put a byte on the stack. -/
  | push (value : Registers → UInt8)
  /-- Take a byte off the stack. -/
  | pull (result : Registers → UInt8 → Registers)
  /-- Go on at the operand's address. -/
  | jump
  /-- Go on at the operand's address and leave the way back on the stack. -/
  | jumpSaving
  /-- Go on after the address that the stack holds. -/
  | comeBack
  /-- Take the status and the program counter off the stack. -/
  | comeBackFromHandler
  /-- Enter the interrupt handler. -/
  | softwareBreak

/-- The action of each operation. -/
def Op.action : Op → Action
  -- arithmetic and logic
  | .adc => .load Registers.adc
  | .sbc => .load Registers.sbc
  | .and => .load fun r m => r.setA (r.a &&& m)
  | .ora => .load fun r m => r.setA (r.a ||| m)
  | .eor => .load fun r m => r.setA (r.a ^^^ m)
  | .bit => .load Registers.bitTest
  | .cmp => .load fun r m => r.compare r.a m
  | .cpx => .load fun r m => r.compare r.x m
  | .cpy => .load fun r m => r.compare r.y m
  -- shifts and counting
  | .asl => .modify Registers.asl
  | .lsr => .modify Registers.lsr
  | .rol => .modify Registers.rol
  | .ror => .modify Registers.ror
  | .inc => .modify Registers.inc
  | .dec => .modify Registers.dec
  | .inx => .internal fun r => r.setX (r.x + 1)
  | .iny => .internal fun r => r.setY (r.y + 1)
  | .dex => .internal fun r => r.setX (r.x - 1)
  | .dey => .internal fun r => r.setY (r.y - 1)
  -- loads, stores and transfers
  | .lda => .load Registers.setA
  | .ldx => .load Registers.setX
  | .ldy => .load Registers.setY
  | .sta => .store Registers.a
  | .stx => .store Registers.x
  | .sty => .store Registers.y
  | .tax => .internal fun r => r.setX r.a
  | .tay => .internal fun r => r.setY r.a
  | .tsx => .internal fun r => r.setX r.sp
  | .txa => .internal fun r => r.setA r.x
  | .txs => .internal fun r => { r with sp := r.x }
  | .tya => .internal fun r => r.setA r.y
  -- branches
  | .bcc => .branch fun s => !s.carry
  | .bcs => .branch Status.carry
  | .bne => .branch fun s => !s.zero
  | .beq => .branch Status.zero
  | .bpl => .branch fun s => !s.negative
  | .bmi => .branch Status.negative
  | .bvc => .branch fun s => !s.overflow
  | .bvs => .branch Status.overflow
  -- jumps and handlers
  | .jmp => .jump
  | .jsr => .jumpSaving
  | .rts => .comeBack
  | .rti => .comeBackFromHandler
  | .brk => .softwareBreak
  -- the stack
  | .pha => .push Registers.a
  | .php => .push fun r => r.status.pushed true
  | .pla => .pull Registers.setA
  | .plp => .pull fun r v => { r with status := .pulled v }
  -- flags
  | .clc => .internal fun r => { r with status.carry := false }
  | .sec => .internal fun r => { r with status.carry := true }
  | .cli => .internal fun r => { r with status.interruptDisable := false }
  | .sei => .internal fun r => { r with status.interruptDisable := true }
  | .cld => .internal fun r => { r with status.decimal := false }
  | .sed => .internal fun r => { r with status.decimal := true }
  | .clv => .internal fun r => { r with status.overflow := false }
  -- nothing
  | .nop | .unassigned => .internal id

namespace Cpu

/-- Read the operand. An implied operand is in its latch already. -/
def loadOperand (c : Cpu) : Program (UInt8 × Cpu) := do
  if c.latches.mode = .implied then
    return (c.latches.operand, c)
  else
    let value ← Program.readByte c.latches.address
    return (value, { c with latches.operand := value })

/-- Put a new value of the operand back: into A for an implied operand, else into memory. -/
def storeOperand (c : Cpu) (value : UInt8) : Program Cpu := do
  if c.latches.mode = .implied then
    return { c with regs.a := value }
  else
    Program.writeByte c.latches.address value
    return c

/-- Take or leave a branch. A taken one costs a cycle more, and two if its target is not on the page
of the next instruction. -/
def branch (c : Cpu) (taken : Bool) : Cpu :=
  if taken then
    let target := c.regs.pc + c.latches.displacement
    let penalty := if samePage target c.regs.pc then 1 else 2
    { c with regs.pc := target, remaining := c.remaining + penalty }
  else c

/-- Carry out an action. -/
def perform (c : Cpu) : Action → Program Cpu
  | .load result => do
      let (operand, c) ← c.loadOperand
      return { c with regs := result c.regs operand }
  | .modify result => do
      let (operand, c) ← c.loadOperand
      let (value, regs) := result c.regs operand
      { c with regs }.storeOperand value
  | .store value => do
      Program.writeByte c.latches.address (value c.regs)
      return c
  | .internal result => return { c with regs := result c.regs }
  | .branch taken => return c.branch (taken c.regs.status)
  | .push value => c.push (value c.regs)
  | .pull result => do
      let (value, c) ← c.pull
      return { c with regs := result c.regs value }
  | .jump => return { c with regs.pc := c.latches.address }
  | .jumpSaving => do
      let c ← c.pushWord (c.regs.pc - 1)
      return { c with regs.pc := c.latches.address }
  | .comeBack => do
      let (addr, c) ← c.pullWord
      return { c with regs.pc := addr + 1 }
  | .comeBackFromHandler => do
      let (status, c) ← c.pull
      let (addr, c) ← c.pullWord
      return { c with regs.status := .pulled status, regs.pc := addr }
  | .softwareBreak => c.enterHandler true irqVector

end Cpu

end NesMachine
