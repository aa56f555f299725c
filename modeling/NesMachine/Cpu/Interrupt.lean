import NesMachine.Cpu.Basic

/-!
# Reset and interrupts

Three vectors at the top of memory hold the addresses at which the processor goes on after a
non-maskable interrupt, a reset, and an interrupt request or software break. An interrupt saves the
program counter and the status on the stack and then masks further requests; whatever was in
progress is dropped from the cycle counter, since its work was done when it started.
-/

set_option autoImplicit false

namespace NesMachine

/-- Where the address for a non-maskable interrupt is stored. -/
def nmiVector : UInt16 := 0xFFFA

/-- Where the address for a reset is stored. -/
def resetVector : UInt16 := 0xFFFC

/-- Where the address for an interrupt request and for a software break is stored. -/
def irqVector : UInt16 := 0xFFFE

namespace Cpu

/-- Save the program counter and the status, mask interrupt requests and go on at a vector. -/
def enterHandler (c : Cpu) (byInstruction : Bool) (vector : UInt16) : Program Cpu := do
  let c ← c.pushWord c.regs.pc
  let c ← c.push (c.regs.status.pushed byInstruction)
  let target ← readWord vector
  return { c with regs.status.interruptDisable := true, regs.pc := target }

/-- The reset sequence: eight cycles that load the program counter and clear everything else but
the opcode and the total of cycles. -/
def reset (c : Cpu) : Program Cpu := do
  let target ← readWord resetVector
  return { c with
    regs := ⟨0, 0, 0, 0xFD, target, .initial⟩
    latches := .initial
    remaining := 8 }

/-- A request for an interrupt: seven cycles, or nothing while requests are masked. -/
def irq (c : Cpu) : Program Cpu := do
  if c.regs.status.interruptDisable then
    return c
  else
    let c ← c.enterHandler false irqVector
    return { c with remaining := 7 }

/-- A non-maskable interrupt: eight cycles. -/
def nmi (c : Cpu) : Program Cpu := do
  let c ← c.enterHandler false nmiVector
  return { c with remaining := 8 }

end Cpu

end NesMachine
