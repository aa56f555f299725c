import NesMachine.Drive
import NesMachine.Text.Lines
import NesMachine.Trace.Reader
import NesMachine.Wiring

/-!
# Trace runs

A trace run executes a cartridge on its standard wiring and writes a trace line before every
instruction. Each line may be compared with the next line of a reference log. The run ends after a
given number of instructions, at the end of the log, at an instruction that makes no progress if
that is asked for, or with an error at the first line that differs. For each instruction the order
is: write, compare, test for progress, execute.
-/

set_option autoImplicit false

namespace NesMachine

/-- What a trace run is asked to do. -/
structure TraceSettings where
  /-- Where to start, if not at the reset vector. -/
  entry : Option UInt16
  /-- The total of cycles that the first line shows. -/
  startCycles : UInt64
  /-- The status to start with, if not that of a reset. -/
  status : Option UInt8
  /-- The largest number of instructions to execute. -/
  instructions : Nat
  /-- Whether to stop where no progress is made. -/
  stopOnJam : Bool
  /-- The reference log. -/
  reference : Option String
  deriving DecidableEq

/-- A run of at most ten thousand instructions from the reset vector, without a reference log. Its
first line shows seven cycles. -/
def TraceSettings.standard : TraceSettings :=
  ⟨none, 7, none, 10000, false, none⟩

/-- Why a trace run fails. -/
inductive TraceError where
  | cartridge (error : ImageError)
  | unparsable (line : String)
  | diverged (instructions : Nat) (expected : String) (actual : TraceLine)
  | bus (fault : BusFault)
  deriving DecidableEq

/-- What is told about a failed run. -/
def TraceError.report : TraceError → Report
  | .cartridge error => error.report
  | .unparsable line => ⟨"unparsable reference line: " ++ line, none⟩
  | .diverged instructions expected actual =>
      ⟨"diverged after " ++ instructions.repr ++ " instructions\nexpected: " ++ expected ++
        "\n  actual: " ++ actual.render, none⟩
  | .bus fault => ⟨fault.message, none⟩

/-- The lines written by a run, its result (the number of instructions executed, unless it failed)
and its events. -/
structure TraceOutcome where
  lines : Array TraceLine
  result : Except TraceError Nat
  events : Array Event

/-- The text written by a run. -/
def TraceOutcome.text (outcome : TraceOutcome) : String :=
  outcome.lines.foldl (fun text line => text ++ line.render ++ "\n") ""

/-! ## Reference logs -/

/-- The lines of a reference log that hold more than white space. -/
def referenceLines (log : String) : List String :=
  ((Text.lines log.toList).filter fun line => line.any (!Text.isBlank ·)).map String.ofList

/-- What the comparison of a line with a reference log says. -/
inductive Comparison where
  /-- The line agrees; this much of the log is left. -/
  | agrees (rest : Option (List String))
  /-- The log has no line left. -/
  | exhausted
  | fails (error : TraceError)

/-- Compare the line that follows some instructions with a reference log. -/
def compareLine (instructions : Nat) (line : TraceLine) : Option (List String) → Comparison
  | none => .agrees none
  | some [] => .exhausted
  | some (expected :: rest) =>
      match TraceLine.read? expected with
      | none => .fails (.unparsable expected)
      | some parsed =>
          if line.sameState parsed then .agrees (some rest)
          else .fails (.diverged instructions expected line)

/-! ## Running -/

/-- Whether the instruction at the program counter makes no progress: it is an opcode without an
assigned operation or jumps to itself. -/
def Cpu.jammed (c : Cpu) (memory : UInt16 → UInt8) : Bool :=
  let d := decodeAt memory c.regs.pc
  d.instruction.op == .unassigned ||
    d.instruction.op == .jmp && d.instruction.mode == .absolute && d.operand == c.regs.pc

/-- A trace run in progress. -/
structure Tracer where
  cpu : Cpu
  board : Board
  /-- What is left of the reference log. -/
  reference : Option (List String)
  lines : Array TraceLine
  /-- The instructions executed so far. -/
  executed : Nat

namespace Tracer

/-- Write a line. -/
def write (t : Tracer) (line : TraceLine) : Tracer :=
  { t with board := t.board.note [.traced line], lines := t.lines.push line }

/-- End the run. -/
def finish (t : Tracer) (events : List Event) (result : Except TraceError Nat) : TraceOutcome :=
  ⟨t.lines, result, (t.board.note events).events⟩

/-- Trace at most some more instructions. -/
def run (stopOnJam : Bool) : Nat → Tracer → TraceOutcome
  | 0, t => t.finish [] (.ok t.executed)
  | limit + 1, t =>
      let line := t.cpu.traceLine t.board.peek
      let t := t.write line
      match compareLine t.executed line t.reference with
      | .fails error => t.finish [] (.error error)
      | .exhausted => t.finish [.referenceExhausted t.executed] (.ok t.executed)
      | .agrees rest =>
          if stopOnJam && t.cpu.jammed t.board.peek then
            t.finish [.stopped line] (.ok t.executed)
          else
            match t with
            | ⟨cpu, board, _, lines, executed⟩ =>
                match cpu.stepOn board #[] with
                | ⟨.ok (_, cpu), board, _⟩ =>
                    run stopOnJam limit ⟨cpu, board, rest, lines, executed + 1⟩
                | ⟨.error fault, board, _⟩ =>
                    finish ⟨cpu, board, rest, lines, executed⟩ [] (.error (.bus fault))

end Tracer

namespace TraceSettings

/-- The processor after the reset, with its cycles past and the settings applied. -/
def prepare (s : TraceSettings) (c : Cpu) : Cpu :=
  let rested := c.drain
  { rested with
    clockCount := s.startCycles
    regs.pc := s.entry.getD rested.regs.pc
    regs.status := s.status.elim rested.regs.status Status.ofByte }

/-- The standard wiring of a cartridge, on which its events are noted. -/
def wired (c : Cartridge) (events : List Event) : Board :=
  (Board.ofSpace (some c) (.mapped (Wiring.referenceBus c))).note
    (events ++ Wiring.referenceEvents c)

/-- Run a trace from the end of the reset. -/
def runFrom (s : TraceSettings) : Attempt Cpu → TraceOutcome
  | ⟨.ok cpu, board, _⟩ =>
      Tracer.run s.stopOnJam s.instructions
        ⟨s.prepare cpu, board, s.reference.map referenceLines, #[], 0⟩
  | ⟨.error fault, board, _⟩ => ⟨#[], .error (.bus fault), board.events⟩

/-- Run a trace of a cartridge. -/
def runCartridge (s : TraceSettings) (c : Cartridge) (events : List Event) : TraceOutcome :=
  s.runFrom (Cpu.powerOn.resetOn (wired c events) #[])

/-- Run a trace of the cartridge in an image. -/
def run (s : TraceSettings) (image : Array UInt8) : TraceOutcome :=
  let events := Cartridge.imageEvents image
  match Cartridge.ofImage image with
  | .error error => ⟨#[], .error (.cartridge error), events.toArray⟩
  | .ok c => s.runCartridge c events

end TraceSettings

end NesMachine
