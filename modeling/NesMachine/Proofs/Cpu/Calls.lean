import NesMachine.Proofs.Cpu.Boundary

/-!
# Calls to the processor

A host drives the processor by five calls, between which the processor keeps its state. Any sequence
of them is one program, which returns what the calls answer: a step tells the cycles that it took.
On a bus the calls run one after the other (`Cpu.run_session_cons`), and what every call keeps holds
after any calls (`Cpu.returns_session`).
-/

set_option autoImplicit false

namespace NesMachine

universe v

/-- What a host can ask of the processor. -/
inductive CpuCall where
  | clock | step | reset | irq | nmi
  deriving DecidableEq

namespace CpuCall

/-- A call as a program. A step answers the number of its cycles and the other calls nothing. -/
def program : CpuCall → Cpu → Program (Option UInt32 × Cpu)
  | .clock, c => return (none, ← c.clock)
  | .step, c => do
      let (count, c) ← c.step
      return (some count, c)
  | .reset, c => return (none, ← c.reset)
  | .irq, c => return (none, ← c.irq)
  | .nmi, c => return (none, ← c.nmi)

end CpuCall

namespace Cpu

/-- Some calls one after the other, with their answers. -/
def session : List CpuCall → Cpu → Program (List (Option UInt32) × Cpu)
  | [], c => return ([], c)
  | call :: rest, c => do
      let (answer, c) ← call.program c
      let (answers, c) ← session rest c
      return (answer :: answers, c)

section Running

variable {β : Type v} [Bus β]

theorem run_program_step (c : Cpu) (bus : β) :
    (CpuCall.step.program c).run bus =
      ((some (c.step.run bus).1.1, (c.step.run bus).1.2), (c.step.run bus).2) := by
  rw [CpuCall.program, Program.run_bind]
  rfl

theorem run_session_cons (call : CpuCall) (rest : List CpuCall) (c : Cpu) (bus : β) :
    (session (call :: rest) c).run bus =
      let first := (call.program c).run bus
      let others := (session rest first.1.2).run first.2
      ((first.1.1 :: others.1.1, others.1.2), others.2) := by
  simp only [session, Program.run_bind]
  rfl

/-- Calls behind others go on from the processor and the bus that these leave. -/
theorem run_session_append (first rest : List CpuCall) (c : Cpu) (bus : β) :
    (session (first ++ rest) c).run bus =
      let earlier := (session first c).run bus
      let later := (session rest earlier.1.2).run earlier.2
      ((earlier.1.1 ++ later.1.1, later.1.2), later.2) := by
  induction first generalizing c bus with
  | nil => rfl
  | cons call others ih =>
    simp only [List.cons_append, run_session_cons, ih]

/-- Whether one of some calls, made one after the other, meets a test when its turn comes. -/
def anyCall (test : CpuCall → Cpu → β → Bool) : List CpuCall → Cpu → β → Bool
  | [], _, _ => false
  | call :: rest, c, bus =>
      let after := (call.program c).run bus
      test call c bus || anyCall test rest after.1.2 after.2

end Running

/-- What every call keeps, any calls keep. -/
theorem returns_session {P : Cpu → Prop}
    (hcall : ∀ (call : CpuCall) (c : Cpu), P c → (call.program c).Returns fun ended => P ended.2)
    (calls : List CpuCall) {c : Cpu} (hc : P c) :
    (session calls c).Returns fun ended => P ended.2 := by
  induction calls generalizing c with
  | nil => exact hc
  | cons call rest ih =>
    apply (hcall call c hc).bind
    rintro ⟨answer, after⟩ hafter
    apply (ih hafter).bind
    rintro ⟨answers, last⟩ hlast
    exact hlast

end Cpu

end NesMachine
