import NesMachine.Board
import NesMachine.Cpu.Clock

/-!
# Driving the processor on a board

The host's calls to the processor, each as an attempt on a board that also notes the event of the
call: an interrupt is reported when it is asked for, an opcode without an assigned operation when it
has been started.
-/

set_option autoImplicit false

namespace NesMachine.Cpu

/-- Note the event of a clock that was answered. -/
def noteClock {α : Type} (before : Cpu) (after : α → Cpu) (ended : Attempt α) : Attempt α :=
  match ended.result with
  | .ok value => { ended with board := ended.board.note (before.clockEvent? (after value)).toList }
  | .error _ => ended

/-- One cycle on a board. -/
def clockOn (c : Cpu) (board : Board) (made : Array Access) : Attempt Cpu :=
  noteClock c id (c.clock.attempt made board)

/-- One step on a board. -/
def stepOn (c : Cpu) (board : Board) (made : Array Access) : Attempt (UInt32 × Cpu) :=
  noteClock c Prod.snd (c.step.attempt made board)

/-- A reset on a board. -/
def resetOn (c : Cpu) (board : Board) (made : Array Access) : Attempt Cpu :=
  c.reset.attempt made board

/-- An interrupt request on a board. -/
def irqOn (c : Cpu) (board : Board) (made : Array Access) : Attempt Cpu :=
  c.irq.attempt made (board.note [c.irqEvent])

/-- A non-maskable interrupt on a board. -/
def nmiOn (c : Cpu) (board : Board) (made : Array Access) : Attempt Cpu :=
  c.nmi.attempt made (board.note [c.nmiEvent])

end NesMachine.Cpu
