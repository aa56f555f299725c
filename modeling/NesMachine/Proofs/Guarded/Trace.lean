import NesMachine.Proofs.Guarded.Reading
import NesMachine.Proofs.Trace.States

/-!
# Trace runs have no hazard

A trace run with everything guarded: the image, the wiring, each access of the processor, each peek
of the disassembly, the counter of cycles, the loops that wait for the end of an instruction, the
count of instructions and the reading of the reference log. Whatever bytes the image has and
whatever the settings are, it ends without a hazard and with the outcome of the run without guards
(`TraceSettings.run_has_no_hazard`), if no line of the log has more than 255 recognised columns. The
invariant is that the run stays on the standard wiring (`Tracer.OnReference`), which no program can
leave.
-/

set_option autoImplicit false

namespace NesMachine

open Guarded

/-! ## One line -/

/-- The trace line of a processor on a board. -/
def Cpu.guardedTraceLine (c : Cpu) (board : Board) : Guarded TraceLine := do
  let d ← guardedDecodeAt board.guardedPeek c.regs.pc
  return {
    pc := c.regs.pc
    bytes := d.bytes
    assembly := d.assembly
    a := c.regs.a
    x := c.regs.x
    y := c.regs.y
    p := c.regs.status.toByte
    sp := c.regs.sp
    cycles := c.clockCount }

/-- Whether the instruction at the program counter makes no progress. -/
def Cpu.guardedJammed (c : Cpu) (board : Board) : Guarded Bool := do
  let d ← guardedDecodeAt board.guardedPeek c.regs.pc
  return d.instruction.op == .unassigned ||
    d.instruction.op == .jmp && d.instruction.mode == .absolute && d.operand == c.regs.pc

/-- Compare the line that follows some instructions with a reference log. -/
def guardedCompareLine (instructions : Nat) (line : TraceLine) :
    Option (List String) → Guarded Comparison
  | none => return .agrees none
  | some [] => return .exhausted
  | some (expected :: rest) => do
      match ← TraceLine.guardedRead expected with
      | none => return .fails (.unparsable expected)
      | some parsed =>
          if line.sameState parsed then return .agrees (some rest)
          else return .fails (.diverged instructions expected line)

/-! ## A run -/

namespace Tracer

/-- Whether a run stops for want of progress. -/
def guardedStops (stopOnJam : Bool) (t : Tracer) : Guarded Bool :=
  if stopOnJam then t.cpu.guardedJammed t.board else return false

/-- Trace at most some more of a number of instructions. That number is a machine word, so a count
is one too if it does not pass it. -/
def guardedRun (instructions : Nat) (stopOnJam : Bool) : Nat → Tracer → Guarded TraceOutcome
  | 0, t => return t.finish [] (.ok t.executed)
  | limit + 1, t => do
      let line ← t.cpu.guardedTraceLine t.board
      let t := t.write line
      match ← guardedCompareLine t.executed line t.reference with
      | .fails error => return t.finish [] (.error error)
      | .exhausted => return t.finish [.referenceExhausted t.executed] (.ok t.executed)
      | .agrees rest =>
          let jammed ← t.guardedStops stopOnJam
          if jammed then return t.finish [.stopped line] (.ok t.executed)
          else
            let ((_, cpu), board) ← t.cpu.guardedStep.runOn t.board
            let board := board.note (t.cpu.clockEvent? cpu).toList
            let executed ← sum (instructions + 1) t.executed 1
            guardedRun instructions stopOnJam limit ⟨cpu, board, rest, t.lines, executed⟩

end Tracer

namespace TraceSettings

/-- The reset with its cycles. -/
def guardedReset : GuardedProgram Cpu := do
  let c ← Cpu.powerOn.reset
  c.guardedFinish UInt8.size

/-- Run a trace of the cartridge in an image. -/
def guardedRun (s : TraceSettings) (image : Array UInt8) : Guarded TraceOutcome := do
  let events := Cartridge.imageEvents image
  match ← Cartridge.guardedOfImage image with
  | .error error => return ⟨#[], .error (.cartridge error), events.toArray⟩
  | .ok c =>
      let bus ← Wiring.guardedBus c
      let board := (Board.ofSpace (some c) (.mapped bus)).note (events ++ Wiring.referenceEvents c)
      let (cpu, board) ← guardedReset.runOn board
      let reference := s.reference.map referenceLines
      Tracer.guardedRun s.instructions s.stopOnJam s.instructions
        ⟨s.override cpu, board, reference, #[], 0⟩

end TraceSettings

/-! ## One line has no hazard -/

section Lines

variable {c : Cartridge} {past : List BusCall} {board : Board}

theorem Cpu.guardedTraceLine_eq (h : Wiring.ReferenceBoard c past board) (cpu : Cpu) :
    cpu.guardedTraceLine board = .ok (cpu.traceLine board.peek) := by
  rw [guardedTraceLine, guardedDecodeAt_eq h.guardedPeek_eq]
  rfl

theorem Cpu.guardedJammed_eq (h : Wiring.ReferenceBoard c past board) (cpu : Cpu) :
    cpu.guardedJammed board = .ok (cpu.jammed board.peek) := by
  rw [guardedJammed, guardedDecodeAt_eq h.guardedPeek_eq]
  rfl

/-- No line of what is left of a log has more columns than a byte counts. -/
def Countable (reference : Option (List String)) : Prop :=
  ∀ lines ∈ reference, ∀ line ∈ lines, TraceLine.columns line ≤ 255

theorem guardedCompareLine_eq {reference : Option (List String)} (h : Countable reference)
    (instructions : Nat) (line : TraceLine) :
    guardedCompareLine instructions line reference =
      .ok (compareLine instructions line reference) := by
  match reference with
  | none => rfl
  | some [] => rfl
  | some (expected :: rest) =>
    have hexpected := h _ rfl expected List.mem_cons_self
    rw [guardedCompareLine, compareLine, TraceLine.guardedRead_eq hexpected, ok_bind]
    cases TraceLine.read? expected with
    | none => rfl
    | some parsed =>
      dsimp only
      cases line.sameState parsed with
      | true => rfl
      | false => rfl

/-- What a comparison leaves of a log has lines of the log. -/
theorem Countable.rest {reference rest : Option (List String)} (h : Countable reference)
    {instructions : Nat} {line : TraceLine}
    (hrest : compareLine instructions line reference = .agrees rest) : Countable rest := by
  match reference with
  | none =>
    obtain rfl := Comparison.agrees.inj hrest
    exact h
  | some [] => cases hrest
  | some (expected :: later) =>
    rw [compareLine] at hrest
    split at hrest
    · cases hrest
    · split at hrest
      · obtain rfl := Comparison.agrees.inj hrest
        rintro lines hlines line hline
        obtain rfl := Option.some.inj hlines
        exact h _ rfl line (List.mem_cons_of_mem _ hline)
      · cases hrest

/-- A comparison never tells of a fault of the bus. -/
theorem compareLine_ne_bus (instructions : Nat) (line : TraceLine)
    (reference : Option (List String)) (fault : BusFault) :
    compareLine instructions line reference ≠ .fails (.bus fault) := by
  intro h
  match reference with
  | none => cases h
  | some [] => cases h
  | some (expected :: later) =>
    rw [compareLine] at h
    split at h
    · cases h
    · split at h
      · cases h
      · cases h

end Lines

/-! ## A run has no hazard -/

namespace Tracer

variable {c : Cartridge} {t : Tracer} {instructions limit : Nat} {stopOnJam : Bool}
  {reference : Option (List String)}

/-- On the standard wiring a run has no hazard: by induction on the instructions that are left, for
each leaves the run on the wiring. -/
theorem guardedRun_eq (h : t.OnReference c) (hlog : Countable reference)
    (hcount : t.executed + limit ≤ instructions) :
    guardedRun instructions stopOnJam limit (t.against reference) =
      .ok (run stopOnJam limit (t.against reference)) := by
  induction limit generalizing t reference with
  | zero => rfl
  | succ limit ih =>
    obtain ⟨past, hboard⟩ := h
    have hnoted : Wiring.ReferenceBoard c past (t.write t.line).board := hboard.note _
    have hline : t.cpu.guardedTraceLine t.board = .ok t.line :=
      t.cpu.guardedTraceLine_eq hboard
    have hjam : (t.write t.line).guardedStops stopOnJam = .ok (t.stops stopOnJam) := by
      cases stopOnJam with
      | true => exact t.cpu.guardedJammed_eq hnoted
      | false => rfl
    have hstep := (Cpu.realizes_guardedStep t.cpu).runOn_eq hnoted
    have hfits : sum (instructions + 1) t.executed 1 = .ok (t.executed + 1) :=
      sum_eq_ok (by omega)
    rw [run_succ ⟨past, hboard⟩, guardedRun]
    show (t.cpu.guardedTraceLine t.board >>= _) = _
    rw [hline, ok_bind]
    show (guardedCompareLine t.executed t.line reference >>= _) = _
    rw [guardedCompareLine_eq hlog, ok_bind]
    cases hcompare : compareLine t.executed t.line reference with
    | fails error => rfl
    | exhausted => rfl
    | agrees rest =>
      show ((t.write t.line).guardedStops stopOnJam >>= _) = _
      rw [hjam, ok_bind]
      cases t.stops stopOnJam with
      | true => rfl
      | false =>
        show (t.cpu.guardedStep.runOn (t.write t.line).board >>= _) = _
        rw [hstep, ok_bind]
        show (sum (instructions + 1) t.executed 1 >>= _) = _
        rw [hfits, ok_bind]
        have hadvanced : t.advance.OnReference c := OnReference.advance ⟨past, hboard⟩
        have hleft : t.advance.executed + limit ≤ instructions := by
          show t.executed + 1 + limit ≤ instructions
          omega
        exact ih hadvanced (hlog.rest hcompare) hleft

/-- On the standard wiring a run does not fail with a fault of the bus. -/
theorem result_run_ne_bus (h : t.OnReference c) (fault : BusFault) :
    (run stopOnJam limit (t.against reference)).result ≠ .error (.bus fault) := by
  intro hfault
  induction limit generalizing t reference with
  | zero => cases hfault
  | succ limit ih =>
    rw [run_succ h] at hfault
    cases hcompare : compareLine t.executed t.line reference with
    | fails error =>
      rw [hcompare] at hfault
      obtain rfl := Except.error.inj hfault
      exact compareLine_ne_bus _ _ _ fault hcompare
    | exhausted =>
      rw [hcompare] at hfault
      cases hfault
    | agrees rest =>
      rw [hcompare] at hfault
      dsimp only at hfault
      split at hfault
      · cases hfault
      · exact ih h.advance hfault

end Tracer

namespace TraceSettings

theorem realizes_guardedReset :
    guardedReset.Realizes (Cpu.powerOn.reset >>= fun c => .done c.drain) fun _ => True := by
  have hreset : Cpu.powerOn.reset.Returns fun _ => True :=
    fun low high => trivial
  apply (GuardedProgram.realizes_lift hreset).bind
  intro c _
  exact Cpu.realizes_guardedFinish (Nat.le_of_lt c.remaining.toNat_lt)

/-- A trace run has no hazard, whatever the bytes of the image and the settings are: no access of
the processor or of the disassembly is unmapped or outside the storage of its device, no place is
outside its array, no divisor is zero, nothing overflows or underflows, and every loop ends. Nor is
its own answer to a fault of the bus ever reached. -/
theorem run_has_no_hazard (s : TraceSettings) (image : Array UInt8)
    (hcolumns : ∀ log ∈ s.reference, ∀ line ∈ referenceLines log, TraceLine.columns line ≤ 255) :
    s.guardedRun image = .ok (s.run image) ∧
      ∀ fault, (s.run image).result ≠ .error (.bus fault) := by
  have hlog : Countable (s.reference.map referenceLines) := by
    intro lines hlines
    obtain ⟨log, hreference, rfl⟩ := Option.map_eq_some_iff.1 hlines
    exact hcolumns log hreference
  rw [guardedRun, Cartridge.guardedOfImage_eq, ok_bind]
  cases hc : Cartridge.ofImage image with
  | error error =>
    rw [run, hc]
    refine ⟨rfl, fun fault hfault => ?_⟩
    cases hfault
  | ok c =>
    have hrun := run_against hc s s.reference
    have hstart := start_onReference hc s (Cartridge.imageEvents image)
    have hwired := referenceBoard_wired hc (Cartridge.imageEvents image)
    have hreset := realizes_guardedReset.runOn_eq hwired
    have hcount : 0 + s.instructions ≤ s.instructions := Nat.le_of_eq (Nat.zero_add _)
    refine ⟨?_, fun fault => ?_⟩
    · show (Wiring.guardedBus c >>= _) = _
      rw [Wiring.guardedBus_eq, ok_bind]
      show (guardedReset.runOn (wired c (Cartridge.imageEvents image)) >>= _) = _
      rw [hreset, ok_bind, Program.run_bind]
      show _ = Except.ok ((s.against s.reference).run image)
      rw [hrun]
      exact Tracer.guardedRun_eq hstart hlog hcount
    · show ((s.against s.reference).run image).result ≠ _
      rw [hrun]
      exact Tracer.result_run_ne_bus hstart fault

/-- The standard trace of a bank of `NOP` instructions has no hazard, with a log whose only line has
two recognised columns. -/
theorem run_has_no_hazard_standard :
    let image := Cartridge.headerBytes .nrom 1 0 ++ Array.replicate 0x4000 0xEA
    let s := standard.against (some "A:00 X:00")
    (∃ c, Cartridge.ofImage image = .ok c) ∧
      (∀ log ∈ s.reference, ∀ line ∈ referenceLines log, TraceLine.columns line ≤ 255) ∧
      s.guardedRun image = .ok (s.run image) := by
  have haccepted := Cartridge.exists_ofImage_of_nops
  generalize Cartridge.headerBytes .nrom 1 0 ++ Array.replicate 0x4000 0xEA = image
    at haccepted ⊢
  intro image s
  have hcolumns : ∀ log ∈ s.reference, ∀ line ∈ referenceLines log,
      TraceLine.columns line ≤ 255 := by
    intro log hlog
    obtain rfl := Option.some.inj hlog
    decide +kernel
  exact ⟨haccepted, hcolumns, (run_has_no_hazard s image hcolumns).1⟩

end TraceSettings

end NesMachine
