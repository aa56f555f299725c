import NesMachine.Drive
import NesMachine.Proofs.Wiring.Reference

/-!
# Programs on the processor's bus

Every access to the processor's bus of an accepted cartridge is answered, so on its board a program
ends as it runs (`Wiring.ReferenceBoard.attempt_eq`), and the board stays one of that kind
(`Wiring.ReferenceBoard.run`). A reset and a step of the processor are such programs
(`Wiring.ReferenceBoard.resetOn_eq`, `Wiring.ReferenceBoard.stepOn_eq`).
-/

set_option autoImplicit false

namespace NesMachine.Wiring.ReferenceBoard

variable {c : Cartridge} {past : List BusCall} {board : Board} {α : Type}

theorem note (h : ReferenceBoard c past board) (events : List Event) :
    ReferenceBoard c past (board.note events) := by
  obtain ⟨bus, slotted, earlier, rfl, hbus, hslotted⟩ := h
  exact ⟨bus, slotted, earlier.appendList events, rfl, hbus, hslotted⟩

/-- A program is a sequence of calls to the bus. -/
theorem run (h : ReferenceBoard c past board) (p : Program α) :
    ∃ calls, ReferenceBoard c (past ++ calls) (p.run board).2 := by
  induction p generalizing past board with
  | done a => exact ⟨[], by rwa [List.append_nil]⟩
  | read addr next ih =>
    obtain ⟨calls, hcalls⟩ := ih (Bus.read board addr).1 (h.afterCall (.read addr))
    exact ⟨_, by rwa [List.append_assoc] at hcalls⟩
  | write addr value next ih =>
    obtain ⟨calls, hcalls⟩ := ih (h.afterCall (.write addr value))
    exact ⟨_, by rwa [List.append_assoc] at hcalls⟩

/-- A program ends as it runs, for nothing is a fault. -/
theorem attempt_eq (h : ReferenceBoard c past board) (p : Program α) (made : Array Access) :
    p.attempt made board =
      ⟨.ok (p.run board).1, (p.run board).2, made.appendList (p.accesses board)⟩ := by
  induction p generalizing past board made with
  | done a => rfl
  | read addr next ih =>
    rw [Program.attempt, h.fault?_eq_none addr]
    exact ih (Bus.read board addr).1 (h.afterCall (.read addr)) _
  | write addr value next ih =>
    rw [Program.attempt, h.fault?_eq_none addr]
    exact ih (h.afterCall (.write addr value)) _

theorem resetOn_eq (h : ReferenceBoard c past board) (cpu : Cpu) (made : Array Access) :
    cpu.resetOn board made = ⟨.ok (cpu.reset.run board).1, (cpu.reset.run board).2,
      made.appendList (cpu.reset.accesses board)⟩ :=
  h.attempt_eq cpu.reset made

/-- A step of the processor ends as it runs, and its event is noted. -/
theorem stepOn_eq (h : ReferenceBoard c past board) (cpu : Cpu) (made : Array Access) :
    cpu.stepOn board made = ⟨.ok (cpu.step.run board).1,
      (cpu.step.run board).2.note (cpu.clockEvent? (cpu.step.run board).1.2).toList,
      made.appendList (cpu.step.accesses board)⟩ := by
  rw [Cpu.stepOn, h.attempt_eq]
  rfl

end NesMachine.Wiring.ReferenceBoard
