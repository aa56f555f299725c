import NesMachine.Proofs.Cpu.StatusMarks
import NesMachine.Proofs.Trace.States

/-!
# The status in a trace

A trace shows the status as one byte, and the settings may replace the status before the first line
by any byte. The first line shows that byte as it is. Behind it unused is set on every line, and
break stays as it was given until an instruction takes a status off the stack
(`TraceSettings.status_column`). So the lines of a trace show the marks of a live status exactly if
the byte that it starts with has them.
-/

set_option autoImplicit false

namespace NesMachine.TraceSettings

variable {s : TraceSettings} {c : Cartridge} {image : Array UInt8}

/-- The status of the first line: the byte that the settings give, or else the status of a reset. -/
def firstStatus (s : TraceSettings) : Status :=
  s.status.elim .initial Status.ofByte

/-- The operation that is executed after the line with an index. -/
def opAt (s : TraceSettings) (c : Cartridge) (i : Nat) : Op :=
  ((s.stateAt c i).1.nextInstruction (s.stateAt c i).2).op

/-! ## States -/

/-- Every line is written at a boundary. -/
theorem complete_stateAt (s : TraceSettings) (c : Cartridge) (i : Nat) :
    (s.stateAt c i).1.complete = true := by
  cases i with
  | zero =>
    have hdrained : ∀ d : Cpu, (s.override d.drain).complete = true := by
      intro d
      rw [Cpu.drain_eq_waited, Cpu.waited_remaining]
      rfl
    show (s.firstState c).1.complete = true
    rw [firstState, reset_clocks_eq, Program.run_bind]
    exact hdrained _
  | succ i => exact Cpu.complete_step _ _

theorem status_firstState (s : TraceSettings) (c : Cartridge) :
    (s.firstState c).1.regs.status = s.firstStatus := by
  rw [firstState, reset_clocks_eq, Program.run_bind]
  show s.status.elim (Cpu.drain _).regs.status Status.ofByte = _
  rw [Cpu.regs_drain]
  rfl

/-- By induction on the steps, unused is set once there was one, and break is still there if it was
given and no status has been taken off the stack. -/
theorem marks_stateAt (s : TraceSettings) (c : Cartridge) (i : Nat) :
    ((s.stateAt c i).1.regs.status.unused = true ↔ 0 < i ∨ s.firstStatus.unused = true) ∧
      ((s.stateAt c i).1.regs.status.breakMark = true ↔
        s.firstStatus.breakMark = true ∧ ∀ j < i, s.opAt c j ∉ Op.statusPullers) := by
  induction i with
  | zero =>
    have hstatus : (s.stateAt c 0).1.regs.status = s.firstStatus := s.status_firstState c
    rw [hstatus]
    simp
  | succ i ih =>
    obtain ⟨hunused, hbreak⟩ := Cpu.marks_step (s.complete_stateAt c i) (s.stateAt c i).2
    refine ⟨?_, ?_⟩
    · exact iff_of_true hunused (.inl (Nat.succ_pos i))
    · rw [Nat.forall_lt_succ_right, ← and_assoc, ← ih.2]
      exact hbreak

/-! ## Lines -/

theorem ofByte_p_lineAt (s : TraceSettings) (c : Cartridge) (i : Nat) :
    Status.ofByte (s.lineAt c i).p = (s.stateAt c i).1.regs.status :=
  Status.ofByte_toByte _

theorem lineAt_zero_mem (hc : Cartridge.ofImage image = .ok c) (h : 0 < s.instructions) :
    s.lineAt c 0 ∈ (s.run image).lines.toList := by
  obtain ⟨n, hlines, hpos⟩ := exists_lines_eq hc s
  rw [hlines]
  exact List.mem_map_of_mem (List.mem_range.2 (hpos h))

/-- Line number `i` is that of state `i`. -/
theorem eq_lineAt_of_getElem? (hc : Cartridge.ofImage image = .ok c) {i : Nat} {line : TraceLine}
    (h : (s.run image).lines.toList[i]? = some line) : line = s.lineAt c i := by
  obtain ⟨n, hlines, -⟩ := exists_lines_eq hc s
  rw [hlines, List.getElem?_map] at h
  obtain ⟨index, hindex, rfl⟩ := Option.map_eq_some_iff.1 h
  obtain ⟨hlt, hvalue⟩ := List.getElem?_eq_some_iff.1 hindex
  rw [← hvalue, List.getElem_range]

/-- On the lines of a trace of an accepted image, unused is set but for the first line, where it is
as given, and break is as given until a status has been taken off the stack. So all lines show a
live status exactly if the first status is one. -/
theorem status_column (hc : Cartridge.ofImage image = .ok c) (s : TraceSettings) :
    let lines := (s.run image).lines.toList
    (∀ i line, lines[i]? = some line →
      ((Status.ofByte line.p).unused = true ↔ 0 < i ∨ s.firstStatus.unused = true) ∧
      ((Status.ofByte line.p).breakMark = true ↔
        s.firstStatus.breakMark = true ∧ ∀ j < i, s.opAt c j ∉ Op.statusPullers)) ∧
    (0 < s.instructions →
      ((∀ line ∈ lines, (Status.ofByte line.p).Live) ↔ s.firstStatus.Live)) := by
  intro lines
  have hmarks : ∀ i line, lines[i]? = some line →
      ((Status.ofByte line.p).unused = true ↔ 0 < i ∨ s.firstStatus.unused = true) ∧
      ((Status.ofByte line.p).breakMark = true ↔
        s.firstStatus.breakMark = true ∧ ∀ j < i, s.opAt c j ∉ Op.statusPullers) := by
    intro i line hline
    rw [eq_lineAt_of_getElem? hc hline, ofByte_p_lineAt]
    exact s.marks_stateAt c i
  refine ⟨hmarks, fun hlimit => ⟨fun hall => ?_, fun hfirst line hline => ?_⟩⟩
  · have hzero := hall _ (lineAt_zero_mem hc hlimit)
    rw [ofByte_p_lineAt] at hzero
    rw [← s.status_firstState c]
    exact hzero
  · obtain ⟨i, hi⟩ := List.getElem?_of_mem hline
    obtain ⟨hunused, hbreak⟩ := hmarks i line hi
    refine ⟨hunused.2 (.inr hfirst.unused), Bool.eq_false_iff.2 fun hset => ?_⟩
    rw [hbreak, hfirst.breakMark] at hset
    exact absurd hset.1 (by decide)

/-- Ten thousand `NOP` instructions from the status of a reset: every line shows a live status. -/
theorem status_column_standard :
    ∃ c, Cartridge.ofImage (Cartridge.headerBytes .nrom 1 0 ++ Array.replicate 0x4000 0xEA) =
        .ok c ∧
      ∀ line ∈ (standard.run
          (Cartridge.headerBytes .nrom 1 0 ++ Array.replicate 0x4000 0xEA)).lines.toList,
        (Status.ofByte line.p).Live := by
  obtain ⟨c, himage⟩ := Cartridge.exists_ofImage_of_nops
  obtain ⟨-, hlive⟩ := status_column himage standard
  exact ⟨c, himage, (hlive (by decide)).2 ⟨rfl, rfl⟩⟩

/-- A trace from the status byte `10` shows it on its first line: break is set and unused is
clear. -/
theorem not_live_of_given_break :
    ¬ ∀ (image : Array UInt8) (s : TraceSettings) (line : TraceLine),
      line ∈ (s.run image).lines.toList → (Status.ofByte line.p).Live := by
  intro hall
  obtain ⟨c, himage⟩ := Cartridge.exists_ofImage_of_nops
  let s : TraceSettings := { standard with status := some 0x10, instructions := 1 }
  have hlive := hall _ s (s.lineAt c 0) (lineAt_zero_mem himage (by decide))
  rw [ofByte_p_lineAt] at hlive
  have hfirst : (s.stateAt c 0).1.regs.status = Status.ofByte 0x10 := s.status_firstState c
  rw [hfirst] at hlive
  exact absurd hlive.unused (by decide)

end NesMachine.TraceSettings
