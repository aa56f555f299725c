import NesMachine.Proofs.Cpu.Cost
import NesMachine.Proofs.Cpu.Stack

/-!
# The break and unused flags

The unused flag has no latch and reads as one, and the break flag exists only in the copies of the
status on the stack. In every state that calls to a processor at power on lead to, on any bus, the
live status therefore has unused set and break clear, and a copy that is pushed then differs from it
in its break mark alone: instructions set the mark, interrupts leave it clear
(`Cpu.status_marks_reached`).

What carries the invariant is a property of the status that all operations maintain
(`Action.Maintains`): it passes through one action (`Cpu.returns_perform_status`), one instruction
(`Cpu.returns_begin_status`) and one call (`Cpu.returns_call_live`), and so through any calls. From
a status that does not have the marks so, a step sets unused, and break goes with the first status
that is taken off the stack (`Cpu.marks_step`).
-/

set_option autoImplicit false

namespace NesMachine

universe v

/-! ## Properties of the status -/

/-- An action maintains a property of the status: the functions on registers keep it, a status
from the stack has it, and it does not depend on the mask that a break sets. -/
def Action.Maintains (P : Status → Prop) : Action → Prop
  | .load result | .pull result => ∀ r value, P r.status → P (result r value).status
  | .modify result => ∀ r value, P r.status → P (result r value).2.status
  | .internal result => ∀ r, P r.status → P (result r).status
  | .comeBackFromHandler => ∀ value, P (.pulled value)
  | .softwareBreak => ∀ s, P s → P { s with interruptDisable := true }
  | .store _ | .branch _ | .push _ | .jump | .jumpSaving | .comeBack => True

/-- The marks of a live status: unused is set and break is clear. -/
structure Status.Live (s : Status) : Prop where
  unused : s.unused = true
  breakMark : s.breakMark = false

/-- Maintenance is a matter of which statuses have the property. -/
theorem Action.Maintains.congr {P Q : Status → Prop} {a : Action} (h : a.Maintains P)
    (hiff : ∀ s, P s ↔ Q s) : a.Maintains Q :=
  (funext fun s => propext (hiff s) : P = Q) ▸ h

namespace Op

/-- The operations that take a status off the stack. -/
def statusPullers : List Op :=
  [.plp, .rti]

/-- No other operation touches the marks, whatever they are. -/
theorem maintains_marks {op : Op} (hop : op ∉ statusPullers) (unused breakMark : Bool) :
    op.action.Maintains fun s => s.unused = unused ∧ s.breakMark = breakMark := by
  cases op with
  | plp | rti => exact absurd (by decide) hop
  | adc | sbc | and | ora | eor | bit | cmp | cpx | cpy | lda | ldx | ldy | pla =>
    intro r value h
    exact h
  | asl | lsr | rol | ror | inc | dec =>
    intro r value h
    exact h
  | inx | iny | dex | dey | tax | tay | tsx | txa | txs | tya | clc | sec | cli | sei | cld | sed
  | clv | nop | unassigned =>
    intro r h
    exact h
  | brk =>
    intro s h
    exact h
  | sta | stx | sty | bcc | bcs | bne | beq | bpl | bmi | bvc | bvs | jmp | jsr | rts | pha | php =>
    trivial

/-- A live status stays one, since the two operations that take a status off the stack set its
marks. -/
theorem maintains_live (op : Op) : op.action.Maintains Status.Live := by
  by_cases hop : op ∈ statusPullers
  · cases op with
    | plp =>
      intro r value h
      exact ⟨rfl, rfl⟩
    | rti =>
      intro value
      exact ⟨rfl, rfl⟩
    | _ => exact absurd hop (by decide)
  · exact (maintains_marks hop true false).congr fun s =>
      ⟨fun h => ⟨h.1, h.2⟩, fun h => ⟨h.unused, h.breakMark⟩⟩

end Op

/-- Setting unused sets bit 5 of the status byte. -/
theorem Status.toByte_unused (s : Status) :
    { s with unused := true }.toByte = s.toByte ||| 0x20 := by
  have all : ∀ i : Fin 256,
      { ofByte (UInt8.ofFin i) with unused := true }.toByte = UInt8.ofFin i ||| 0x20 := by
    decide +kernel
  have hbyte := all s.toByte.toFin
  rw [UInt8.ofFin_toFin, ofByte_toByte] at hbyte
  exact hbyte

/-- What is pushed has the flags of the status, with the mark of who pushed it and unused set. -/
theorem Status.ofByte_pushed (s : Status) (byInstruction : Bool) :
    ofByte (s.pushed byInstruction) = { s with breakMark := byInstruction, unused := true } := by
  rw [pushed, ofByte_toByte]

namespace Cpu

open Program

variable {P : Status → Prop}

theorem status_branch (c : Cpu) (taken : Bool) :
    (c.branch taken).regs.status = c.regs.status := by
  cases taken <;> rfl

/-- The property passes through an action that maintains it. -/
theorem returns_perform_status {c : Cpu} {a : Action} (ha : a.Maintains P)
    (hc : P c.regs.status) : (c.perform a).Returns fun ended => P ended.regs.status := by
  cases a with
  | load result =>
    have hresult := fun value => ha c.regs value hc
    by_cases hmode : c.latches.mode = .implied <;>
      simp [perform, loadOperand, hmode, readByte, Returns, hresult]
  | modify result =>
    have hresult := fun value => ha c.regs value hc
    by_cases hmode : c.latches.mode = .implied <;>
      simp [perform, loadOperand, storeOperand, hmode, readByte, writeByte, Returns, hresult]
  | internal result => exact ha c.regs hc
  | pull result =>
    intro value
    exact ha { c.regs with sp := c.regs.sp + 1 } value hc
  | comeBackFromHandler =>
    intro value low high
    exact ha value
  | softwareBreak =>
    intro low high
    exact ha c.regs.status hc
  | comeBack =>
    intro low high
    exact hc
  | branch taken =>
    show P (c.branch _).regs.status
    rw [status_branch]
    exact hc
  | store value => exact hc
  | push value => exact hc
  | jump => exact hc
  | jumpSaving => exact hc

/-- The property passes through an instruction, which sets unused and then carries out its
operation. -/
theorem returns_begin_status {c : Cpu} (hops : ∀ op : Op, op.action.Maintains P)
    (hc : P { c.regs.status with unused := true }) :
    c.begin.Returns fun done => P done.regs.status := by
  rw [begin_eq]
  intro opcode
  apply (returns_resolve (c.started opcode) (lookup opcode).mode).bind
  rintro ⟨crossed, found⟩ ⟨hregs, -, -⟩
  have hfound : P found.regs.status := by
    rw [hregs]
    exact hc
  apply (returns_perform_status (hops (lookup opcode).op) hfound).bind
  intro done hdone
  exact hdone

/-- The entry into a handler masks requests and leaves the other flags. -/
theorem returns_enterHandler_live {c : Cpu} (hc : c.regs.status.Live) (byInstruction : Bool)
    (vector : UInt16) :
    (c.enterHandler byInstruction vector).Returns fun entered => entered.regs.status.Live := by
  intro low high
  exact ⟨hc.unused, hc.breakMark⟩

theorem returns_clock_live {c : Cpu} (hc : c.regs.status.Live) :
    c.clock.Returns fun after => after.regs.status.Live := by
  cases hcomplete : c.complete with
  | false =>
    -- Only the counters move within an instruction.
    rw [clock_of_busy hcomplete]
    exact hc
  | true =>
    rw [clock_of_complete hcomplete]
    apply (returns_begin_status Op.maintains_live ⟨rfl, hc.breakMark⟩).bind
    intro done hdone
    exact hdone

/-- Every call leaves a live status. -/
theorem returns_call_live (call : CpuCall) (c : Cpu) (hc : c.regs.status.Live) :
    (call.program c).Returns fun ended => ended.2.regs.status.Live := by
  cases call with
  | clock =>
    apply (returns_clock_live hc).bind
    intro after hafter
    exact hafter
  | step =>
    rw [CpuCall.program, step, bind_assoc]
    apply (returns_clock_live hc).bind
    intro started hstarted
    show started.drain.regs.status.Live
    rw [regs_drain]
    exact hstarted
  | reset =>
    intro low high
    exact ⟨rfl, rfl⟩
  | irq =>
    rw [CpuCall.program, irq]
    split
    · exact hc
    · rw [bind_assoc]
      apply (returns_enterHandler_live hc false irqVector).bind
      intro entered hentered
      exact hentered
  | nmi =>
    rw [CpuCall.program, nmi, bind_assoc]
    apply (returns_enterHandler_live hc false nmiVector).bind
    intro entered hentered
    exact hentered

end Cpu

/-! ## The marks of any status -/

namespace Cpu

open Program

/-- A status from the stack has unused set and break clear. -/
theorem returns_perform_live {op : Op} (hop : op ∈ Op.statusPullers) (c : Cpu) :
    (c.perform op.action).Returns fun ended => ended.regs.status.Live := by
  cases op with
  | plp =>
    intro value
    exact ⟨rfl, rfl⟩
  | rti =>
    intro value low high
    exact ⟨rfl, rfl⟩
  | _ => exact absurd hop (by decide)

/-- A step from a boundary sets unused, and break stays as it is unless a status is taken off the
stack. -/
theorem marks_step {β : Type v} [Bus β] {c : Cpu} (hc : c.complete = true) (bus : β) :
    let after := (c.step.run bus).1.2.regs.status
    after.unused = true ∧
      (after.breakMark = true ↔
        c.regs.status.breakMark = true ∧ (c.nextInstruction bus).op ∉ Op.statusPullers) := by
  intro after
  let found := ((c.started (Bus.read bus c.regs.pc).1).resolve (c.nextInstruction bus).mode).run
    (Bus.read bus c.regs.pc).2
  have hafter : after =
      ((found.1.2.perform (c.nextInstruction bus).op.action).run found.2).1.regs.status := by
    show (c.step.run bus).1.2.regs.status = _
    rw [regs_step hc, run_begin]
    rfl
  have hregs : found.1.2.regs.status = { c.regs.status with unused := true } := by
    rw [((returns_resolve _ _).run _).1]
    rfl
  rw [hafter]
  by_cases hop : (c.nextInstruction bus).op ∈ Op.statusPullers
  · obtain ⟨hunused, hbreak⟩ := (returns_perform_live hop found.1.2).run found.2
    rw [hunused, hbreak]
    simp [hop]
  · have hmaintains := Op.maintains_marks hop true c.regs.status.breakMark
    have hfound : found.1.2.regs.status.unused = true ∧
        found.1.2.regs.status.breakMark = c.regs.status.breakMark := by
      rw [hregs]
      exact ⟨rfl, rfl⟩
    obtain ⟨hunused, hbreak⟩ := (returns_perform_status hmaintains hfound).run found.2
    rw [hunused, hbreak]
    simp [hop]

end Cpu

/-! ## Saving the status -/

section Saving

variable {β : Type v} [Bus β]

/-- The bytes that a call pushes before the status, and the break mark of the status that it pushes
then, if the call saves the status: a push of the status, a break, or an interrupt that is taken. -/
def CpuCall.statusSaved? (call : CpuCall) (c : Cpu) (bus : β) : Option (List UInt8 × Bool) :=
  -- A break comes back past the byte behind its opcode.
  let behindBreak := c.regs.pc + 2
  match call with
  | .clock | .step =>
      if c.complete then
        match (c.nextInstruction bus).op with
        | .php => some ([], true)
        | .brk => some ([highByte behindBreak, lowByte behindBreak], true)
        | _ => none
      else none
  | .nmi => some ([highByte c.regs.pc, lowByte c.regs.pc], false)
  | .irq =>
      if c.regs.status.interruptDisable then none
      else some ([highByte c.regs.pc, lowByte c.regs.pc], false)
  | .reset => none

namespace CpuCall

variable {call : CpuCall} {c : Cpu} {bus : β} {before : List UInt8} {mark : Bool}

/-- An instruction that saves the status pushes the frame of its operation. -/
theorem exists_frame_of_statusSaved? (hcall : call = .clock ∨ call = .step)
    (h : call.statusSaved? c bus = some (before, mark)) :
    c.complete = true ∧ ∃ f : Frame,
      (c.nextInstruction bus).op.stackMove c.regs = .push f ∧
        f.bytes = before ++ [c.regs.status.pushed mark] := by
  have hdefinition : call.statusSaved? c bus =
      if c.complete then
        match (c.nextInstruction bus).op with
        | .php => some ([], true)
        | .brk => some ([highByte (c.regs.pc + 2), lowByte (c.regs.pc + 2)], true)
        | _ => none
      else none := by
    rcases hcall with rfl | rfl <;> rfl
  rw [hdefinition] at h
  obtain ⟨hc, h⟩ := Option.ite_none_right_eq_some.1 h
  refine ⟨hc, ?_⟩
  split at h
  · rename_i hop
    cases h
    exact ⟨.status c.regs.status, by rw [hop]; rfl, rfl⟩
  · rename_i hop
    cases h
    exact ⟨.handler true c.regs.status (c.regs.pc + 2), by rw [hop]; rfl, rfl⟩
  · cases h

/-- An instruction that saves the status pushes it behind the other bytes of its frame. -/
theorem writes_of_instruction (hcall : call = .clock ∨ call = .step)
    (h : call.statusSaved? c bus = some (before, mark)) :
    ((call.program c).accesses bus).filter Access.isWrite =
      stackWrites c.regs.sp (before ++ [c.regs.status.pushed mark]) := by
  obtain ⟨hc, f, hmove, hbytes⟩ := exists_frame_of_statusSaved? hcall h
  obtain ⟨d, addrs, hregs, hmode, -, hwrites⟩ := exists_acting hc hcall bus
  rw [hwrites, ← hbytes]
  exact (Cpu.perform_push hmove hregs (hmode ▸ goesWith_lookup _) _).2

/-- A call that saves the status pushes it behind the other bytes and writes nothing else. -/
theorem writes_of_statusSaved? (h : call.statusSaved? c bus = some (before, mark)) :
    ((call.program c).accesses bus).filter Access.isWrite =
      stackWrites c.regs.sp (before ++ [c.regs.status.pushed mark]) := by
  cases call with
  | clock | step => exact writes_of_instruction (by simp) h
  | nmi =>
    cases h
    exact (enterHandler_push c false nmiVector bus).2
  | irq =>
    obtain ⟨hmask, h⟩ := Option.ite_none_left_eq_some.1 h
    cases h
    rw [program, Cpu.irq, if_neg hmask]
    exact (enterHandler_push c false irqVector bus).2
  | reset => cases h

end CpuCall

/-! ## Main statement -/

/-- The processor and the bus after some calls to a processor at power on. -/
def reached (bus : β) (calls : List CpuCall) : Cpu × β :=
  let ended := (Cpu.session calls .powerOn).run bus
  (ended.1.2, ended.2)

/-- After any calls on any bus the live status has unused set and break clear, and a call that then
saves the status pushes a byte with unused set, with break set by an instruction and clear by an
interrupt, and with all the other flags as they are before the call. -/
theorem status_marks_reached (bus : β) (calls : List CpuCall) :
    let s := reached bus calls
    s.1.regs.status.unused = true ∧ s.1.regs.status.breakMark = false ∧
      ∀ (call : CpuCall) (before : List UInt8) (mark : Bool),
        call.statusSaved? s.1 s.2 = some (before, mark) →
          ∃ pushed, ((call.program s.1).accesses s.2).filter Access.isWrite =
              stackWrites s.1.regs.sp (before ++ [pushed]) ∧
            Status.ofByte pushed =
              { s.1.regs.status with breakMark := mark, unused := true } := by
  intro s
  have hlive : s.1.regs.status.Live :=
    (Cpu.returns_session Cpu.returns_call_live calls ⟨rfl, rfl⟩).run bus
  refine ⟨hlive.unused, hlive.breakMark, ?_⟩
  intro call before mark hsaved
  exact ⟨s.1.regs.status.pushed mark, CpuCall.writes_of_statusSaved? hsaved,
    s.1.regs.status.ofByte_pushed mark⟩

end Saving

/-- A status with break set and unused clear is taken off the stack. The live status has neither
mark from it: a push by an instruction then stores `FF`, and an interrupt stores `EF`. -/
theorem status_marks_reached_pulled_byte :
    let memory := ((FlatMemory.zero.write 0x0000 0x28).write 0x0001 0x08).write 0x0101 0xDF
    let s := reached memory [.step]
    CpuCall.step.statusSaved? s.1 s.2 = some ([], true) ∧
      CpuCall.nmi.statusSaved? s.1 s.2 = some ([0x00, 0x01], false) ∧
      (∃ pushed, ((CpuCall.step.program s.1).accesses s.2).filter Access.isWrite =
          stackWrites s.1.regs.sp [pushed] ∧
        Status.ofByte pushed = { s.1.regs.status with breakMark := true, unused := true }) ∧
      ((CpuCall.step.program s.1).accesses s.2).filter Access.isWrite = [.write 0x0101 0xFF] ∧
      ((CpuCall.nmi.program s.1).accesses s.2).filter Access.isWrite =
        [.write 0x0101 0x00, .write 0x0100 0x01, .write 0x01FF 0xEF] := by
  intro memory s
  have hstep : CpuCall.step.statusSaved? s.1 s.2 = some ([], true) := by decide +kernel
  have hnmi : CpuCall.nmi.statusSaved? s.1 s.2 = some ([0x00, 0x01], false) := by decide +kernel
  obtain ⟨-, -, hsaves⟩ := status_marks_reached memory [.step]
  exact ⟨hstep, hnmi, hsaves .step [] true hstep, by decide +kernel, by decide +kernel⟩

end NesMachine
