import NesMachine.Proofs.Cpu.InterruptTiming
import NesMachine.Proofs.Cpu.StatusMarks

/-!
# Requests do not nest

A call that takes an interrupt, or that executes a software break or `SEI`, masks requests
(`CpuCall.masked_after_masks`). From then on every call leaves them masked unless it executes one of
the three operations that can unmask them, or is a reset (`CpuCall.masked_after`), and so do any
calls (`Cpu.masked_session`). Meanwhile a request does nothing at all, and a non-maskable interrupt
is taken all the same (`Cpu.requests_stay_masked`).
-/

set_option autoImplicit false

namespace NesMachine

universe v

/-- Requests for an interrupt are masked. -/
def Status.Masked (s : Status) : Prop :=
  s.interruptDisable = true

namespace Op

/-- The operations that mask requests. -/
def maskers : List Op :=
  [.brk, .sei]

/-- The operations that may unmask requests. -/
def unmaskers : List Op :=
  [.cli, .plp, .rti]

/-- No other operation unmasks requests. -/
theorem maintains_masked {op : Op} (hop : op ∉ unmaskers) : op.action.Maintains Status.Masked := by
  cases op with
  | cli | plp | rti => exact absurd (by decide) hop
  | adc | sbc | and | ora | eor | bit | cmp | cpx | cpy | lda | ldx | ldy | pla =>
    intro r value h
    exact h
  | asl | lsr | rol | ror | inc | dec =>
    intro r value h
    exact h
  | inx | iny | dex | dey | tax | tay | tsx | txa | txs | tya | clc | sec | cld | sed | clv | nop
  | unassigned =>
    intro r h
    exact h
  | sei =>
    intro r h
    exact rfl
  | brk =>
    intro s h
    exact rfl
  | sta | stx | sty | bcc | bcs | bne | beq | bpl | bmi | bvc | bvs | jmp | jsr | rts | pha | php =>
    trivial

end Op

namespace Cpu

open Program

/-- A masker masks requests, whatever the status. -/
theorem returns_perform_masked {op : Op} (hop : op ∈ Op.maskers) (d : Cpu) :
    (d.perform op.action).Returns fun ended => ended.regs.status.Masked := by
  cases op with
  | brk =>
    intro low high
    exact rfl
  | sei => exact rfl
  | _ => exact absurd hop (by decide)

end Cpu

namespace CpuCall

section Calls

variable {β : Type v} [Bus β]

/-- Whether a call executes an operation of a list: a clock or a step does when it starts an
instruction. -/
def executes (ops : List Op) (call : CpuCall) (c : Cpu) (bus : β) : Bool :=
  match call with
  | .clock | .step => c.complete && decide ((c.nextInstruction bus).op ∈ ops)
  | .reset | .irq | .nmi => false

/-- Whether a call masks requests: it takes an interrupt or executes a masker. -/
def masks (call : CpuCall) (c : Cpu) (bus : β) : Bool :=
  match call with
  | .nmi => true
  | .irq => !c.regs.status.interruptDisable
  | .clock | .step | .reset => call.executes Op.maskers c bus

/-- Whether a call may unmask requests: it is a reset or executes an unmasker. -/
def unmasks (call : CpuCall) (c : Cpu) (bus : β) : Bool :=
  call == .reset || call.executes Op.unmaskers c bus

variable {call : CpuCall} {c : Cpu} {bus : β} {ops : List Op}

/-- A call that executes an operation ends with the registers that its action leaves. -/
theorem exists_executed (hc : c.complete = true) (hcall : call = .clock ∨ call = .step) (bus : β) :
    ∃ (d : Cpu) (later : β), d.regs.status = { c.regs.status with unused := true } ∧
      ((call.program c).run bus).1.2.regs =
        ((d.perform (c.nextInstruction bus).op.action).run later).1.regs := by
  obtain ⟨d, addrs, hfound, -, hregs, -⟩ := exists_acting hc hcall bus
  refine ⟨d, Bus.afterReads bus addrs, ?_, hregs⟩
  rw [hfound]
  rfl

theorem regs_of_busy (hc : c.complete = false) (hcall : call = .clock ∨ call = .step) (bus : β) :
    ((call.program c).run bus).1.2.regs = c.regs := by
  rcases hcall with rfl | rfl
  · rw [program, Cpu.clock_of_busy hc]
    rfl
  · rw [Cpu.run_program_step, Cpu.step_of_busy hc]
    rfl

theorem masked_of_takes {p : Program Cpu} {vector : UInt16} {cycles : UInt8}
    (h : c.Takes bus p vector cycles) : (p.run bus).1.regs.status.Masked := by
  rw [h.state_eq]
  exact rfl

theorem executes_eq (hcall : call = .clock ∨ call = .step) (ops : List Op) (c : Cpu) (bus : β) :
    call.executes ops c bus = (c.complete && decide ((c.nextInstruction bus).op ∈ ops)) := by
  rcases hcall with rfl | rfl <;> rfl

/-- Requests are masked after a masker. -/
theorem masked_after_masker (hcall : call = .clock ∨ call = .step)
    (h : call.executes Op.maskers c bus = true) :
    ((call.program c).run bus).1.2.regs.status.Masked := by
  rw [executes_eq hcall] at h
  obtain ⟨hc, hop⟩ := Bool.and_eq_true_iff.1 h
  obtain ⟨d, later, -, hregs⟩ := exists_executed hc hcall bus
  rw [hregs]
  exact (Cpu.returns_perform_masked (of_decide_eq_true hop) d).run later

/-- Requests stay masked while no unmasker is executed. -/
theorem masked_after_clock (hcall : call = .clock ∨ call = .step) (hmasked : c.regs.status.Masked)
    (h : call.executes Op.unmaskers c bus = false) :
    ((call.program c).run bus).1.2.regs.status.Masked := by
  rw [executes_eq hcall] at h
  -- Within an instruction nothing is executed, and at a boundary it is no unmasker.
  cases hc : c.complete with
  | false =>
    rw [regs_of_busy hc hcall bus]
    exact hmasked
  | true =>
    rw [hc, Bool.true_and] at h
    obtain ⟨d, later, hstatus, hregs⟩ := exists_executed hc hcall bus
    have hfound : d.regs.status.Masked := by
      rw [hstatus]
      exact hmasked
    rw [hregs]
    exact (Cpu.returns_perform_status (Op.maintains_masked (of_decide_eq_false h)) hfound).run later

/-- Requests are masked after a call that masks them. -/
theorem masked_after_masks (h : call.masks c bus = true) :
    ((call.program c).run bus).1.2.regs.status.Masked := by
  cases call with
  | clock => exact masked_after_masker (.inl rfl) h
  | step => exact masked_after_masker (.inr rfl) h
  | nmi =>
    rw [program, Cpu.nmi_eq]
    exact masked_of_takes (c.takes_interrupt bus nmiVector 8)
  | irq =>
    have hunmasked : c.regs.status.interruptDisable = false := by
      simpa [masks] using h
    rw [program, Cpu.irq_of_unmasked hunmasked]
    exact masked_of_takes (c.takes_interrupt bus irqVector 7)
  | reset => cases h

/-- Requests stay masked through a call that does not unmask them. -/
theorem masked_after (hmasked : c.regs.status.Masked) (h : call.unmasks c bus = false) :
    ((call.program c).run bus).1.2.regs.status.Masked := by
  obtain ⟨hreset, hexecutes⟩ := Bool.or_eq_false_iff.1 h
  cases call with
  | clock => exact masked_after_clock (.inl rfl) hmasked hexecutes
  | step => exact masked_after_clock (.inr rfl) hmasked hexecutes
  | nmi => exact masked_after_masks rfl
  | irq =>
    rw [program, Cpu.irq_of_masked hmasked]
    exact hmasked
  | reset => cases hreset

end Calls

end CpuCall

namespace Cpu

section Runs

variable {β : Type v} [Bus β]

/-- Requests stay masked through calls of which none unmasks them. -/
theorem masked_session (calls : List CpuCall) (c : Cpu) (bus : β) (hc : c.regs.status.Masked)
    (h : anyCall CpuCall.unmasks calls c bus = false) :
    ((session calls c).run bus).1.2.regs.status.Masked := by
  -- On the calls, the first one first: it leaves requests masked for the others.
  induction calls generalizing c bus with
  | nil => exact hc
  | cons call rest ih =>
    obtain ⟨hfirst, hrest⟩ := Bool.or_eq_false_iff.1 h
    rw [run_session_cons]
    exact ih _ _ (CpuCall.masked_after hc hfirst) hrest

/-- What holds while requests are masked. -/
structure Shielded (c : Cpu) (bus : β) : Prop where
  masked : c.regs.status.interruptDisable = true
  /-- A request changes neither the processor nor the bus, and makes no access. -/
  irq_run : c.irq.run bus = (c, bus)
  irq_accesses : c.irq.accesses bus = []
  /-- A non-maskable interrupt is taken. -/
  nmi_taken : c.Takes bus c.nmi nmiVector 8

/-- Requests do not nest. From a call that takes an interrupt or executes `BRK` or `SEI`, and until
a reset or the next `CLI`, `PLP` or `RTI` that is executed, requests are masked whatever calls are
made. -/
theorem requests_stay_masked (call : CpuCall) (calls : List CpuCall) (c : Cpu) (bus : β)
    (hmasks : call.masks c bus = true)
    (hcalls : anyCall CpuCall.unmasks calls ((call.program c).run bus).1.2
      ((call.program c).run bus).2 = false) :
    let ended := (session (call :: calls) c).run bus
    ended.1.2.Shielded ended.2 := by
  intro ended
  have hmasked : ended.1.2.regs.status.Masked := by
    show ((session (call :: calls) c).run bus).1.2.regs.status.Masked
    rw [run_session_cons]
    exact masked_session calls _ _ (CpuCall.masked_after_masks hmasks) hcalls
  constructor
  · exact hmasked
  · rw [irq_of_masked hmasked]
    rfl
  · rw [irq_of_masked hmasked]
    rfl
  · rw [nmi_eq]
    exact takes_interrupt ended.1.2 ended.2 nmiVector 8

/-- After `SEI` requests stay masked through the three clocks of `PHP` with requests between them,
and through a no-operation. -/
theorem requests_stay_masked_across_push :
    let memory := ((FlatMemory.zero.write 0x0010 0x78).write 0x0011 0x08).write 0x0012 0xEA
    let c : Cpu := { powerOn with regs.pc := 0x0010 }
    let calls : List CpuCall := [.clock, .irq, .clock, .irq, .clock, .irq, .step]
    let ended := (session (.step :: calls) c).run memory
    CpuCall.step.masks c memory = true ∧
      anyCall CpuCall.unmasks calls (c.step.run memory).1.2 (c.step.run memory).2 = false ∧
      ended.1.2.Shielded ended.2 ∧ ended.1.2.regs.pc = 0x0013 := by
  intro memory c calls ended
  have hmasks : CpuCall.step.masks c memory = true := by decide +kernel
  have hcalls : anyCall CpuCall.unmasks calls (c.step.run memory).1.2 (c.step.run memory).2 =
      false := by
    decide +kernel
  refine ⟨hmasks, hcalls, ?_, by decide +kernel⟩
  apply requests_stay_masked .step calls c memory hmasks
  rw [run_program_step]
  exact hcalls

end Runs

end Cpu

end NesMachine
