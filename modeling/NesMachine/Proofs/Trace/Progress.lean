import NesMachine.Proofs.Trace.Log
import NesMachine.Proofs.Wiring.Attempts

/-!
# The progress of a trace run

On the standard wiring of an accepted cartridge no access is a fault, so a trace run is decided by
the comparison of each line and by the test for progress alone (`Tracer.run_succ`). Without a
reference log the run writes the lines of `Tracer.written`, and against the log of just these lines
it ends in the same way (`Tracer.run_own_log`).
-/

set_option autoImplicit false

namespace NesMachine

namespace Tracer

/-- The line that is written next. -/
def line (t : Tracer) : TraceLine :=
  t.cpu.traceLine t.board.peek

/-- The run after its next line and its next instruction. -/
def advance (t : Tracer) : Tracer :=
  let ended := t.cpu.step.run (t.write t.line).board
  { t.write t.line with
    cpu := ended.1.2
    board := ended.2.note (t.cpu.clockEvent? ended.1.2).toList
    executed := t.executed + 1 }

/-- The run with some lines as what is left of its reference log. -/
def against (t : Tracer) (reference : Option (List String)) : Tracer :=
  { t with reference }

/-- A run stops at an instruction that makes no progress. -/
def stops (stopOnJam : Bool) (t : Tracer) : Bool :=
  stopOnJam && t.cpu.jammed t.board.peek

/-- The lines that are written without a reference log. -/
def written (stopOnJam : Bool) : Nat → Tracer → List TraceLine
  | 0, _ => []
  | limit + 1, t =>
      t.line :: if t.stops stopOnJam then [] else written stopOnJam limit t.advance

/-- A run on the standard wiring of a cartridge. -/
def OnReference (c : Cartridge) (t : Tracer) : Prop :=
  ∃ past, Wiring.ReferenceBoard c past t.board

variable {c : Cartridge} {t : Tracer}

/-! ## One instruction -/

theorem OnReference.advance (h : t.OnReference c) : t.advance.OnReference c := by
  obtain ⟨past, hboard⟩ := h
  obtain ⟨calls, hcalls⟩ := (hboard.note [.traced t.line]).run t.cpu.step
  exact ⟨past ++ calls, hcalls.note _⟩

/-- A run writes its line, and what the comparison of the line says and whether the instruction
makes progress decide how it goes on. -/
theorem run_succ (h : t.OnReference c) (stopOnJam : Bool) (limit : Nat)
    (reference : Option (List String)) :
    run stopOnJam (limit + 1) (t.against reference) =
      match compareLine t.executed t.line reference with
      | .fails error => (t.write t.line).finish [] (.error error)
      | .exhausted =>
          (t.write t.line).finish [.referenceExhausted t.executed] (.ok t.executed)
      | .agrees rest =>
          if t.stops stopOnJam then (t.write t.line).finish [.stopped t.line] (.ok t.executed)
          else run stopOnJam limit (t.advance.against rest) := by
  obtain ⟨past, hboard⟩ := h
  have hstep := (hboard.note [.traced t.line]).stepOn_eq t.cpu #[]
  -- Writing the line comes before the comparison and changes neither the count nor any peek.
  rw [run]
  dsimp only [against, write, line] at hstep ⊢
  cases compareLine t.executed (t.cpu.traceLine t.board.peek) reference with
  | fails error => rfl
  | exhausted => rfl
  | agrees rest =>
    dsimp only
    rw [hstep]
    rfl

/-- A line agrees with its own text. -/
theorem compareLine_render {line : TraceLine} (h : line.Plain) (instructions : Nat)
    (rest : List String) :
    compareLine instructions line (some (line.render :: rest)) = .agrees (some rest) := by
  have hsame : line.sameState line = true := by simp [TraceLine.sameState]
  simp only [compareLine, TraceLine.read?_render h.toPrintable, hsame, if_true]

/-! ## Runs -/

/-- Every line that is written is plain. -/
theorem plain_of_mem_written {stopOnJam : Bool} {limit : Nat} {line : TraceLine}
    (h : line ∈ t.written stopOnJam limit) : line.Plain := by
  induction limit generalizing t with
  | zero => cases h
  | succ limit ih =>
    rcases List.mem_cons.1 h with rfl | hrest
    · exact t.cpu.plain_traceLine t.board.peek
    · split at hrest
      · cases hrest
      · exact ih hrest

/-- Without a reference log the lines of `written` are added. -/
theorem lines_run (h : t.OnReference c) (stopOnJam : Bool) (limit : Nat) :
    (run stopOnJam limit (t.against none)).lines.toList =
      t.lines.toList ++ t.written stopOnJam limit := by
  induction limit generalizing t with
  | zero => exact (List.append_nil _).symm
  | succ limit ih =>
    rw [run_succ h, written]
    show (if t.stops stopOnJam then _ else run stopOnJam limit (t.advance.against none)
      : TraceOutcome).lines.toList = _
    have hpush : (t.write t.line).lines.toList = t.lines.toList ++ [t.line] := Array.toList_push
    split
    · exact hpush
    · rw [ih h.advance]
      show (t.write t.line).lines.toList ++ _ = _
      rw [hpush, List.append_assoc, List.singleton_append]

/-- Against the log of the lines that it writes without one, a run ends in the same way. -/
theorem run_own_log (h : t.OnReference c) (stopOnJam : Bool) (limit : Nat) :
    run stopOnJam limit (t.against (some ((t.written stopOnJam limit).map TraceLine.render))) =
      run stopOnJam limit (t.against none) := by
  induction limit generalizing t with
  | zero => rfl
  | succ limit ih =>
    have hline : t.line.Plain := t.cpu.plain_traceLine t.board.peek
    -- Each line consumes the text of itself and leaves that of the lines behind it.
    rw [run_succ h, run_succ h, written, List.map_cons, compareLine_render hline]
    show (if t.stops stopOnJam then _ else _) = (if t.stops stopOnJam then _ else _)
    split
    · rfl
    · exact ih h.advance

/-- Where a run does not stop for want of progress, all the instructions are executed. -/
theorem result_run (h : t.OnReference c) (limit : Nat) :
    (run false limit (t.against none)).result = .ok (t.executed + limit) := by
  induction limit generalizing t with
  | zero => rfl
  | succ limit ih =>
    rw [run_succ h]
    show (run false limit (t.advance.against none)).result = _
    rw [ih h.advance]
    show Except.ok (t.executed + 1 + limit) = _
    rw [Nat.add_right_comm, Nat.add_assoc]

end Tracer

/-! ## The start of a run -/

namespace TraceSettings

/-- The settings with some reference log, or without one. -/
def against (s : TraceSettings) (reference : Option String) : TraceSettings :=
  { s with reference }

/-- The run that settings start with the processor and the board after a reset, without a reference
log. -/
def startWith (s : TraceSettings) (reset : Cpu × Board) : Tracer :=
  ⟨s.prepare reset.1, reset.2, none, #[], 0⟩

/-- The run that settings start on the wiring of a cartridge, without a reference log. -/
def start (s : TraceSettings) (c : Cartridge) (events : List Event) : Tracer :=
  s.startWith (Cpu.powerOn.reset.run (wired c events))

variable {image : Array UInt8} {c : Cartridge}

theorem referenceBoard_wired (hc : Cartridge.ofImage image = .ok c) (events : List Event) :
    Wiring.ReferenceBoard c [] (wired c events) :=
  (Wiring.ReferenceBoard.start hc).note _

theorem start_onReference (hc : Cartridge.ofImage image = .ok c) (s : TraceSettings)
    (events : List Event) : (s.start c events).OnReference c := by
  obtain ⟨calls, hcalls⟩ := (referenceBoard_wired hc events).run Cpu.powerOn.reset
  exact ⟨[] ++ calls, hcalls⟩

/-- A trace of an accepted image is the run from its start. -/
theorem run_against (hc : Cartridge.ofImage image = .ok c) (s : TraceSettings)
    (reference : Option String) :
    (s.against reference).run image = Tracer.run s.stopOnJam s.instructions
      ((s.start c (Cartridge.imageEvents image)).against (reference.map referenceLines)) := by
  have hreset := (referenceBoard_wired hc (Cartridge.imageEvents image)).resetOn_eq Cpu.powerOn #[]
  rw [run, hc]
  show runCartridge (s.against reference) c _ = _
  rw [runCartridge, hreset, start]
  rfl

/-- A trace of an accepted image that has no reference log and does not stop for want of progress
executes all the instructions. -/
theorem result_run (hc : Cartridge.ofImage image = .ok c) {s : TraceSettings}
    (hjam : s.stopOnJam = false) : ((s.against none).run image).result = .ok s.instructions := by
  have hstart := start_onReference hc s (Cartridge.imageEvents image)
  have hexecuted : (s.start c (Cartridge.imageEvents image)).executed = 0 := rfl
  rw [run_against hc, hjam, Option.map_none, Tracer.result_run hstart, hexecuted, Nat.zero_add]

end TraceSettings

end NesMachine
