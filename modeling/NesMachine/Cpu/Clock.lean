import NesMachine.Cpu.Addressing
import NesMachine.Cpu.Operation

/-!
# The clock

All the work of an instruction is done on its first cycle; the other cycles only count down. `clock`
advances the processor by one cycle and `step` to the end of the instruction in progress, starting
one if there is none.
-/

set_option autoImplicit false

namespace NesMachine.Cpu

/-- Fetch the next instruction, carry it out and load the cycle counter with its cost. -/
def begin (c : Cpu) : Program Cpu := do
  let (opcode, c) ← c.fetchByte
  let instruction := lookup opcode
  let c := { c with
    regs.status.unused := true
    latches.mode := instruction.mode
    opcode
    remaining := instruction.cycles }
  let (crossed, c) ← c.resolve instruction.mode
  let c ← c.perform instruction.op.action
  let penalty := if crossed && instruction.op.paysPageCross then 1 else 0
  return { c with remaining := c.remaining + penalty }

/-- Let one cycle pass. -/
def tick (c : Cpu) : Cpu :=
  { c with remaining := c.remaining - 1, clockCount := c.clockCount + 1 }

/-- Advance by one cycle. -/
def clock (c : Cpu) : Program Cpu := do
  let c ← if c.complete then c.begin else pure c
  return c.tick

/-- Let all the cycles of the instruction in progress pass. -/
def drain (c : Cpu) : Cpu :=
  Nat.repeat tick c.remaining.toNat c

/-- Advance to the end of the instruction in progress and count the cycles. -/
def step (c : Cpu) : Program (UInt32 × Cpu) := do
  let started ← c.clock
  let finished := started.drain
  return ((finished.clockCount - c.clockCount).toUInt32, finished)

end NesMachine.Cpu
