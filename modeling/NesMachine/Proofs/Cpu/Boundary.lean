import NesMachine.Cpu.Clock
import NesMachine.Proofs.Program

/-!
# A step from an instruction boundary

The cycles that only count down change nothing but the two counters (`regs_drain`). A step from a
boundary is therefore the work of one instruction followed by counting (`step_of_complete`), and
that work is a fetch of the opcode, the addressing mode, the action of the operation, and a possible
penalty (`begin_eq`).
-/

set_option autoImplicit false

namespace NesMachine.Cpu

universe v

/-! ## Counting down -/

@[simp] theorem regs_tick (c : Cpu) : c.tick.regs = c.regs := rfl

@[simp] theorem opcode_tick (c : Cpu) : c.tick.opcode = c.opcode := rfl

/-- What every tick keeps, some ticks keep. -/
theorem repeat_tick_eq {γ : Type} (field : Cpu → γ) (h : ∀ c, field (tick c) = field c) (n : Nat)
    (c : Cpu) : field (Nat.repeat tick n c) = field c := by
  induction n with
  | zero => rfl
  | succ n ih =>
    rw [Nat.repeat, h]
    exact ih

@[simp] theorem regs_drain (c : Cpu) : c.drain.regs = c.regs :=
  repeat_tick_eq Cpu.regs regs_tick _ c

@[simp] theorem opcode_drain (c : Cpu) : c.drain.opcode = c.opcode :=
  repeat_tick_eq Cpu.opcode opcode_tick _ c

/-! ## One instruction -/

/-- The processor with an opcode fetched and its instruction in progress. -/
def started (c : Cpu) (opcode : UInt8) : Cpu :=
  { c with
    regs.pc := c.regs.pc + 1
    regs.status.unused := true
    latches.mode := (lookup opcode).mode
    opcode
    remaining := (lookup opcode).cycles }

/-- The processor that pays for a crossed page if its operation does. -/
def charged (c : Cpu) (op : Op) (crossed : Bool) : Cpu :=
  { c with remaining := c.remaining + if crossed && op.paysPageCross then 1 else 0 }

/-- An instruction is a fetch, its addressing mode, its action and the penalty. -/
theorem begin_eq (c : Cpu) :
    c.begin = (do
      let opcode ← Program.readByte c.regs.pc
      let (crossed, found) ← (c.started opcode).resolve (lookup opcode).mode
      let done ← found.perform (lookup opcode).op.action
      return done.charged (lookup opcode).op crossed) :=
  rfl

/-- The first clock from a boundary is an instruction and a tick. -/
theorem clock_of_complete {c : Cpu} (hc : c.complete = true) :
    c.clock = (do
      let done ← c.begin
      return done.tick) := by
  rw [clock, if_pos hc]

/-- A step from a boundary is an instruction and the cycles that it takes. -/
theorem step_of_complete {c : Cpu} (hc : c.complete = true) :
    c.step = (do
      let done ← c.begin
      return ((done.tick.drain.clockCount - c.clockCount).toUInt32, done.tick.drain)) := by
  rw [step, clock_of_complete hc]
  exact Program.bind_assoc ..

section Running

variable {β : Type v} [Bus β]

theorem run_begin (c : Cpu) (bus : β) :
    c.begin.run bus =
      let (opcode, afterOpcode) := Bus.read bus c.regs.pc
      let found := ((c.started opcode).resolve (lookup opcode).mode).run afterOpcode
      let ended := (found.1.2.perform (lookup opcode).op.action).run found.2
      (ended.1.charged (lookup opcode).op found.1.1, ended.2) := by
  simp only [begin_eq, Program.readByte, Program.read_bind, Program.done_bind, Program.run,
    Program.run_bind]
  rfl

theorem accesses_begin (c : Cpu) (bus : β) :
    c.begin.accesses bus =
      let (opcode, afterOpcode) := Bus.read bus c.regs.pc
      let finding := (c.started opcode).resolve (lookup opcode).mode
      let found := finding.run afterOpcode
      .read c.regs.pc opcode :: (finding.accesses afterOpcode ++
        (found.1.2.perform (lookup opcode).op.action).accesses found.2) := by
  simp only [begin_eq, Program.readByte, Program.read_bind, Program.done_bind, Program.accesses,
    Program.accesses_bind, Program.pure_eq_done, List.append_nil]

theorem regs_step {c : Cpu} (hc : c.complete = true) (bus : β) :
    (c.step.run bus).1.2.regs = (c.begin.run bus).1.regs := by
  rw [step_of_complete hc, Program.run_bind]
  simp [Program.run]

theorem opcode_step {c : Cpu} (hc : c.complete = true) (bus : β) :
    (c.step.run bus).1.2.opcode = (c.begin.run bus).1.opcode := by
  rw [step_of_complete hc, Program.run_bind]
  simp [Program.run]

theorem accesses_step {c : Cpu} (hc : c.complete = true) (bus : β) :
    c.step.accesses bus = c.begin.accesses bus := by
  rw [step_of_complete hc, Program.accesses_bind]
  simp [Program.accesses]

end Running

end NesMachine.Cpu
