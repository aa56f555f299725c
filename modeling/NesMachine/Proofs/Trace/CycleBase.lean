import NesMachine.Proofs.Cpu.Cost
import NesMachine.Proofs.Cpu.Hidden
import NesMachine.Proofs.Trace.Ending
import NesMachine.Proofs.Trace.StatusColumn

/-!
# The total of cycles in a trace

The total of cycles that a trace starts with is only counted on and looked at by no instruction. Two
runs that differ in it alone go through states that are alike (`TraceSettings.alike_stateAt`), so
they end at the same instruction, and their lines differ in the total alone
(`TraceSettings.cycles_start_shifts_lines`). On each line that total is the one at the start and
the cycles that the steps before have counted, modulo 2^64 (`TraceSettings.clockCount_stateAt`).
-/

set_option autoImplicit false

namespace NesMachine.TraceSettings

variable {image : Array UInt8} {c : Cartridge}

/-- The settings with some total of cycles to start with. -/
def startingAt (s : TraceSettings) (cycles : UInt64) : TraceSettings :=
  { s with startCycles := cycles }

/-- The cycles that the step after the line with an index counts. -/
def countAt (s : TraceSettings) (c : Cartridge) (i : Nat) : Nat :=
  ((s.stateAt c i).1.step.run (s.stateAt c i).2).1.1.toNat

/-- The cycles that the first steps count together. -/
def countedBefore (s : TraceSettings) (c : Cartridge) (i : Nat) : Nat :=
  ((List.range i).map (s.countAt c)).sum

/-! ## The total on each line -/

theorem countedBefore_succ (s : TraceSettings) (c : Cartridge) (i : Nat) :
    s.countedBefore c (i + 1) = s.countedBefore c i + s.countAt c i := by
  simp [countedBefore, List.range_succ]

/-- By induction on the steps, the total is the one to start with and what the steps have counted,
each by as much as it returned. -/
theorem clockCount_stateAt (s : TraceSettings) (c : Cartridge) (i : Nat) :
    (s.stateAt c i).1.clockCount = s.startCycles + UInt64.ofNat (s.countedBefore c i) := by
  induction i with
  | zero => exact (UInt64.add_zero _).symm
  | succ i ih =>
    have hstep := (s.stateAt c i).1.clockCount_step (s.stateAt c i).2
    rw [countedBefore_succ, UInt64.ofNat_add, ← UInt64.add_assoc, ← ih]
    exact hstep

/-! ## Two runs -/

section TwoRuns

variable (s : TraceSettings) (c : Cartridge) (first second : UInt64)

/-- The states of two runs that start with different totals are alike: their registers, their
cycles that remain and their boards are equal. -/
theorem alike_stateAt (i : Nat) :
    Cpu.Alike (second - first) ((s.startingAt first).stateAt c i).1
        ((s.startingAt second).stateAt c i).1 ∧
      ((s.startingAt first).stateAt c i).2 = ((s.startingAt second).stateAt c i).2 := by
  induction i with
  | zero =>
    refine ⟨⟨rfl, rfl, ?_⟩, rfl⟩
    show second = first + (second - first)
    grind
  | succ i ih =>
    -- Both runs take the same step from equal boards, so it keeps their lag.
    obtain ⟨halike, hboard⟩ := ih
    obtain ⟨⟨-, hlater⟩, hlaterBoard, -⟩ :=
      (Cpu.agree_step halike).run ((s.startingAt first).stateAt c i).2
    rw [stateAt, stateAt]
    dsimp only
    rw [← hboard]
    exact ⟨hlater, hlaterBoard⟩

theorem countAt_startingAt (i : Nat) :
    (s.startingAt first).countAt c i = (s.startingAt second).countAt c i := by
  obtain ⟨halike, hboard⟩ := s.alike_stateAt c first second i
  obtain ⟨⟨hcount, -⟩, -, -⟩ :=
    (Cpu.agree_step halike).run ((s.startingAt first).stateAt c i).2
  rw [countAt, countAt, hcount, hboard]

theorem lineAt_startingAt (i : Nat) :
    (s.startingAt second).lineAt c i = { (s.startingAt first).lineAt c i with
      cycles := ((s.startingAt second).lineAt c i).cycles } := by
  obtain ⟨halike, hboard⟩ := s.alike_stateAt c first second i
  simp only [lineAt, Cpu.traceLine, hboard, halike.regs_eq]

theorem jamsAt_startingAt (i : Nat) :
    (s.startingAt first).JamsAt c i ↔ (s.startingAt second).JamsAt c i := by
  obtain ⟨halike, hboard⟩ := s.alike_stateAt c first second i
  simp only [JamsAt, hboard, halike.regs_eq]
  rfl

variable {s c first second}

/-- So they end at the same instruction. -/
theorem EndsAt.startingAt {n : Nat} (h : (s.startingAt first).EndsAt c n) :
    (s.startingAt second).EndsAt c n where
  le_instructions := h.le_instructions
  progresses := fun j hj hjams =>
    h.progresses j hj ((s.jamsAt_startingAt c first second j).2 hjams)
  jams := fun hlt => (s.jamsAt_startingAt c first second n).1 (h.jams hlt)

end TwoRuns

/-- The total of cycles that a trace without a reference log starts with shifts the totals on its
lines and changes nothing else: whatever the two totals, the runs of an accepted image return the
same count and write equally many lines, and lines with one index are equal but for the total. That
is the one at the start and what the steps before the line have counted, modulo 2^64, and these
counts are the same in both runs. -/
theorem cycles_start_shifts_lines (hc : Cartridge.ofImage image = .ok c) (s : TraceSettings)
    (hlog : s.reference = none) (first second : UInt64) :
    let run := (s.startingAt first).run image
    let other := (s.startingAt second).run image
    (∃ n, run.result = .ok n ∧ other.result = .ok n) ∧
      run.lines.toList.length = other.lines.toList.length ∧
      ∀ i line shifted, run.lines.toList[i]? = some line →
        other.lines.toList[i]? = some shifted →
          shifted = { line with cycles := shifted.cycles } ∧
          line.cycles = first + UInt64.ofNat ((s.startingAt first).countedBefore c i) ∧
          shifted.cycles = second + UInt64.ofNat ((s.startingAt second).countedBefore c i) ∧
          (s.startingAt first).countedBefore c i = (s.startingAt second).countedBefore c i := by
  intro run other
  -- Without a log the place where a run ends is all that its outcome depends on.
  have hfirstLog : (s.startingAt first).reference = none := hlog
  have hsecondLog : (s.startingAt second).reference = none := hlog
  obtain ⟨n, hends⟩ := (s.startingAt first).exists_endsAt c
  obtain ⟨hresult, hlines⟩ := run_of_endsAt hc hfirstLog hends
  obtain ⟨hother, hotherLines⟩ := run_of_endsAt hc hsecondLog hends.startingAt
  refine ⟨⟨n, hresult, hother⟩, ?_, ?_⟩
  · rw [hlines, hotherLines, List.length_map, List.length_map]
    rfl
  · intro i line shifted hline hshift
    rw [eq_lineAt_of_getElem? hc hline, eq_lineAt_of_getElem? hc hshift]
    refine ⟨s.lineAt_startingAt c first second i, clockCount_stateAt _ c i,
      clockCount_stateAt _ c i, ?_⟩
    have hcounts : (s.startingAt first).countAt c = (s.startingAt second).countAt c :=
      funext (s.countAt_startingAt c first second)
    rw [countedBefore, countedBefore, hcounts]

/-- A `NOP` takes two cycles. -/
theorem countAt_of_nop (s : TraceSettings) (hc : Cartridge.ofImage image = .ok c) {i : Nat}
    (hnop : Bus.peek (s.stateAt c i).2 (s.stateAt c i).1.regs.pc = 0xEA) : s.countAt c i = 2 := by
  obtain ⟨past, hboard⟩ := exists_referenceBoard_stateAt hc s i
  have hnext : (s.stateAt c i).1.nextInstruction (s.stateAt c i).2 = lookup 0xEA := by
    rw [Cpu.nextInstruction, hboard.read_eq, hnop]
  -- It would pay for a crossed page, but its mode reads no operand.
  have hmode : ((s.stateAt c i).1.nextInstruction (s.stateAt c i).2).mode ∉
      AddressingMode.indexed := by
    rw [hnext]
    decide
  have hop : ((s.stateAt c i).1.nextInstruction (s.stateAt c i).2).op ∉ Op.branches := by
    rw [hnext]
    decide
  have hcrossing := Cpu.crossingCycles_of_notMem_indexed hmode
  rw [countAt, Cpu.count_step_of_crossingCycles (s.complete_stateAt c i) _ hcrossing hop, hnext]
  rfl

/-- Behind one `NOP` of two cycles the total that starts at seven is nine, and the one that starts
at the largest number is one. -/
theorem cycles_start_shifts_lines_past_largest :
    ∃ c, Cartridge.ofImage (Cartridge.headerBytes .nrom 1 0 ++ Array.replicate 0x4000 0xEA) =
        .ok c ∧
      let image := Cartridge.headerBytes .nrom 1 0 ++ Array.replicate 0x4000 0xEA
      let s : TraceSettings := { standard with entry := some 0x8000, instructions := 2 }
      s.reference = none ∧ ∃ line shifted : TraceLine,
        ((s.startingAt 7).run image).lines.toList[1]? = some line ∧
        ((s.startingAt 0xFFFFFFFFFFFFFFFF).run image).lines.toList[1]? = some shifted ∧
        line.cycles = 9 ∧ shifted = { line with cycles := 1 } := by
  obtain ⟨c, himage, hnops⟩ := Cartridge.exists_ofImage_of_nops_only
  refine ⟨c, himage, ?_⟩
  generalize Cartridge.headerBytes .nrom 1 0 ++ Array.replicate 0x4000 0xEA = image at himage ⊢
  intro image s
  have hcount : ∀ cycles, (s.startingAt cycles).countedBefore c 1 = 2 := by
    intro cycles
    obtain ⟨past, hboard⟩ := exists_referenceBoard_stateAt himage (s.startingAt cycles) 0
    have hpc : ((s.startingAt cycles).stateAt c 0).1.regs.pc = 0x8000 := rfl
    have hwindow : (0x8000 : UInt16) ≤ ((s.startingAt cycles).stateAt c 0).1.regs.pc :=
      UInt16.le_of_eq hpc.symm
    have hbyte := hnops (hboard.peek_of_window hwindow)
    rw [countedBefore_succ, (s.startingAt cycles).countAt_of_nop himage hbyte]
    rfl
  have hline : ∀ cycles, ((s.startingAt cycles).run image).lines.toList[1]? =
      some ((s.startingAt cycles).lineAt c 1) := by
    intro cycles
    have hends : (s.startingAt cycles).EndsAt c 2 := endsAt_instructions rfl
    rw [(run_of_endsAt himage rfl hends).2]
    rfl
  obtain ⟨-, -, hshift⟩ := cycles_start_shifts_lines himage s rfl 7 0xFFFFFFFFFFFFFFFF
  obtain ⟨hshifted, hfirst, hsecond, -⟩ := hshift 1 _ _ (hline _) (hline _)
  rw [hcount] at hfirst hsecond
  rw [hsecond] at hshifted
  exact ⟨rfl, _, _, hline _, hline _, hfirst, hshifted⟩

end NesMachine.TraceSettings
