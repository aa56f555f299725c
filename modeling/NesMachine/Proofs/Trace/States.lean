import NesMachine.Proofs.Agreement
import NesMachine.Proofs.Cpu.Clocks
import NesMachine.Proofs.Trace.Progress

/-!
# The states behind a trace

A trace shows the states that a processor goes through on the standard wiring of its cartridge: the
first after the reset, its eight cycles and the settings (`TraceSettings.firstState`), and each
further one after a step (`TraceSettings.stateAt`). What a trace run notes besides, the events, does
not matter to the bus (`Board.simulation`), so before its instruction `i` a run is at state `i`
(`Tracer.At.start`, `Tracer.At.advance`). However it ends, it has written the lines of the states up
to some one (`TraceSettings.exists_lines_eq`).
-/

set_option autoImplicit false

namespace NesMachine

/-! ## Events do not matter -/

namespace Board

/-- Two boards differ in their events at most. -/
structure SameWiring (b d : Board) : Prop where
  slot_eq : b.slot = d.slot
  space_eq : b.space = d.space

theorem SameWiring.note {b d : Board} (h : b.SameWiring d) (events : List Event) :
    (b.note events).SameWiring d :=
  ⟨h.slot_eq, h.space_eq⟩

/-- What a peek shows depends on the wiring alone. -/
theorem SameWiring.peek_eq {b d : Board} (h : b.SameWiring d) : b.peek = d.peek := by
  funext addr
  rw [peek, peek, h.slot_eq, h.space_eq]

/-- Boards with one wiring have equal parts but for their events. -/
theorem SameWiring.exists_eq {b d : Board} (h : b.SameWiring d) :
    ∃ slot space events others, b = ⟨slot, space, events⟩ ∧ d = ⟨slot, space, others⟩ := by
  obtain ⟨slot, space, events⟩ := b
  obtain ⟨_, _, others⟩ := d
  obtain ⟨rfl, rfl⟩ := h
  exact ⟨slot, space, events, others, rfl, rfl⟩

/-- Boards with one wiring answer alike and keep it in common. -/
theorem simulation : Bus.Simulation SameWiring where
  value_eq := by
    intro b d h addr
    obtain ⟨slot, space, events, others, rfl, rfl⟩ := h.exists_eq
    cases space with
    | flat memory => rfl
    | mapped bus => rfl
  read := by
    intro b d h addr
    obtain ⟨slot, space, events, others, rfl, rfl⟩ := h.exists_eq
    cases space with
    | flat memory => exact ⟨rfl, rfl⟩
    | mapped bus => exact ⟨rfl, rfl⟩
  write := by
    intro b d h addr value
    obtain ⟨slot, space, events, others, rfl, rfl⟩ := h.exists_eq
    cases space with
    | flat memory => exact ⟨rfl, rfl⟩
    | mapped bus => exact ⟨rfl, rfl⟩

end Board

/-! ## The states -/

namespace TraceSettings

/-- The settings applied to a processor at rest. -/
def override (s : TraceSettings) (c : Cpu) : Cpu :=
  { c with
    clockCount := s.startCycles
    regs.pc := s.entry.getD c.regs.pc
    regs.status := s.status.elim c.regs.status Status.ofByte }

/-- The processor and the board after the reset and its eight cycles, with the settings applied. -/
def firstState (s : TraceSettings) (c : Cartridge) : Cpu × Board :=
  let ended := (Cpu.powerOn.reset >>= Cpu.clocks 8).run
    (Board.ofSpace (some c) (.mapped (Wiring.referenceBus c)))
  (s.override ended.1, ended.2)

/-- The processor and the board after some steps. -/
def stateAt (s : TraceSettings) (c : Cartridge) : Nat → Cpu × Board
  | 0 => s.firstState c
  | i + 1 =>
      let (cpu, board) := s.stateAt c i
      let ended := cpu.step.run board
      (ended.1.2, ended.2)

/-- The trace line of the state after some steps. -/
def lineAt (s : TraceSettings) (c : Cartridge) (i : Nat) : TraceLine :=
  (s.stateAt c i).1.traceLine (Bus.peek (s.stateAt c i).2)

/-- The states behind the first follow from it. -/
theorem stateAt_congr {s t : TraceSettings} {c : Cartridge}
    (h : s.firstState c = t.firstState c) (i : Nat) : s.stateAt c i = t.stateAt c i := by
  induction i with
  | zero => exact h
  | succ i ih => rw [stateAt, stateAt, ih]

theorem lineAt_congr {s t : TraceSettings} {c : Cartridge}
    (h : s.firstState c = t.firstState c) : s.lineAt c = t.lineAt c := by
  funext i
  rw [lineAt, lineAt, stateAt_congr h]

/-- A reset leaves eight cycles, which the clocks let pass. -/
theorem reset_clocks_eq :
    Cpu.powerOn.reset >>= Cpu.clocks 8 = Cpu.powerOn.reset >>= fun c => .done c.drain := by
  refine congrArg (Program.read _) (funext fun low => ?_)
  refine congrArg (Program.read _) (funext fun high => ?_)
  show Cpu.clocks 8 _ = .done _
  rw [Cpu.clocks_of_le (Nat.le_refl 8), Cpu.drain_eq_waited]
  rfl

/-- The board of a state is the standard wiring after some calls. -/
theorem exists_referenceBoard_stateAt {image : Array UInt8} {c : Cartridge}
    (hc : Cartridge.ofImage image = .ok c) (s : TraceSettings) (i : Nat) :
    ∃ past, Wiring.ReferenceBoard c past (s.stateAt c i).2 := by
  induction i with
  | zero =>
    obtain ⟨calls, hcalls⟩ := (Wiring.ReferenceBoard.start hc).run
      (Cpu.powerOn.reset >>= Cpu.clocks 8)
    rw [stateAt, firstState]
    exact ⟨_, hcalls⟩
  | succ i ih =>
    obtain ⟨past, hboard⟩ := ih
    obtain ⟨calls, hcalls⟩ := hboard.run (s.stateAt c i).1.step
    exact ⟨_, hcalls⟩

end TraceSettings

/-! ## A run at a state -/

namespace Tracer

open TraceSettings

variable {s : TraceSettings} {c : Cartridge} {i : Nat} {t : Tracer}

/-- A run is about to write the line of the state after `i` steps and has written those before. -/
structure At (s : TraceSettings) (c : Cartridge) (i : Nat) (t : Tracer) : Prop where
  onReference : t.OnReference c
  cpu_eq : t.cpu = (s.stateAt c i).1
  sameWiring : t.board.SameWiring (s.stateAt c i).2
  executed_eq : t.executed = i
  lines_eq : t.lines.toList = (List.range i).map (s.lineAt c)

theorem At.line_eq (h : t.At s c i) : t.line = s.lineAt c i := by
  rw [line, lineAt, h.cpu_eq, h.sameWiring.peek_eq]
  rfl

theorem At.lines_write (h : t.At s c i) :
    (t.write t.line).lines.toList = (List.range (i + 1)).map (s.lineAt c) := by
  rw [List.range_succ, List.map_append, ← h.lines_eq, h.line_eq]
  exact Array.toList_push

/-- A run starts at the first state. -/
theorem At.start {image : Array UInt8} (hc : Cartridge.ofImage image = .ok c) (s : TraceSettings)
    (events : List Event) : (s.start c events).At s c 0 := by
  have hwired : (wired c events).SameWiring
      (Board.ofSpace (some c) (.mapped (Wiring.referenceBus c))) := ⟨rfl, rfl⟩
  obtain ⟨hcpu, hboard, -⟩ := Board.simulation.run Cpu.powerOn.reset hwired
  refine ⟨start_onReference hc s events, ?_, ?_, rfl, rfl⟩
  · show s.override _ = (s.firstState c).1
    rw [firstState, reset_clocks_eq, Program.run_bind, hcpu]
    rfl
  · rw [stateAt, firstState, reset_clocks_eq, Program.run_bind]
    exact hboard

/-- An instruction takes a run to the next state. -/
theorem At.advance (h : t.At s c i) : t.advance.At s c (i + 1) := by
  have hwritten : (t.write t.line).board.SameWiring (s.stateAt c i).2 := h.sameWiring.note _
  obtain ⟨hcpu, hboard, -⟩ := Board.simulation.run t.cpu.step hwritten
  refine ⟨h.onReference.advance, ?_, ?_, congrArg (· + 1) h.executed_eq, h.lines_write⟩
  · show (t.cpu.step.run (t.write t.line).board).1.2 = _
    rw [hcpu, h.cpu_eq]
    rfl
  · show Board.SameWiring _ ((s.stateAt c i).1.step.run (s.stateAt c i).2).2
    rw [← h.cpu_eq]
    exact hboard.note _

/-- From a state on, a run adds the lines of the states that follow, and at least one if it is not
over. -/
theorem At.exists_lines_run (h : t.At s c i) (stopOnJam : Bool) (limit : Nat)
    (reference : Option (List String)) :
    ∃ n, (run stopOnJam limit (t.against reference)).lines.toList =
        (List.range n).map (s.lineAt c) ∧ i ≤ n ∧ (0 < limit → i < n) := by
  induction limit generalizing t i reference with
  | zero => exact ⟨i, h.lines_eq, Nat.le_refl i, fun hlimit => absurd hlimit (Nat.lt_irrefl 0)⟩
  | succ limit ih =>
    have hended : ∃ n, (t.write t.line).lines.toList = (List.range n).map (s.lineAt c) ∧ i ≤ n ∧
        (0 < limit + 1 → i < n) :=
      ⟨i + 1, h.lines_write, Nat.le_succ i, fun _ => Nat.lt_succ_self i⟩
    rw [run_succ h.onReference]
    split
    · exact hended
    · exact hended
    · split
      · exact hended
      · rename_i rest _ _
        obtain ⟨n, hlines, hle, -⟩ := ih h.advance rest
        exact ⟨n, hlines, Nat.le_of_succ_le hle, fun _ => hle⟩

end Tracer

namespace TraceSettings

/-- The lines of a trace of an accepted image are those of the states from the first on, and there
is one if an instruction is asked for. -/
theorem exists_lines_eq {image : Array UInt8} {c : Cartridge}
    (hc : Cartridge.ofImage image = .ok c) (s : TraceSettings) :
    ∃ n, (s.run image).lines.toList = (List.range n).map (s.lineAt c) ∧
      (0 < s.instructions → 0 < n) := by
  have hstart := Tracer.At.start hc s (Cartridge.imageEvents image)
  obtain ⟨n, hlines, -, hpos⟩ := hstart.exists_lines_run s.stopOnJam s.instructions
    (s.reference.map referenceLines)
  exact ⟨n, run_against hc s s.reference ▸ hlines, hpos⟩

end TraceSettings

end NesMachine
