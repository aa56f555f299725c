import NesMachine.Bus.Flat
import NesMachine.Proofs.Agreement
import NesMachine.Proofs.Cpu.Boundary
import NesMachine.Proofs.Cpu.Calls

/-!
# Hidden state does not matter

Besides its registers and the cycles that remain, the processor holds latches, the last opcode and a
count of cycles. None of these is ever used before it is set again: the addressing mode of every
opcode sets the latch that its operation uses (`suits_lookup`). So two processors that differ in
hidden state only stay alike through any calls on any bus, and after a reset any two do
(`Cpu.session_ignores_hidden_state`).
-/

set_option autoImplicit false

namespace NesMachine

universe v

open Program

/-! ## Modes that suit actions -/

/-- Two processors have the same in the latch that an addressing mode sets. -/
def AddressingMode.SetsAlike (mode : AddressingMode) (l m : Latches) : Prop :=
  match mode with
  | .implied => l.operand = m.operand
  | .relative => l.displacement = m.displacement
  | _ => l.address = m.address

/-- The action uses no latch but the one that the addressing mode sets. -/
def Action.suits : Action → AddressingMode → Bool
  | .load _, mode | .modify _, mode => mode ≠ .relative
  | .store _, mode | .jump, mode | .jumpSaving, mode => mode ≠ .implied ∧ mode ≠ .relative
  | .branch _, mode => mode = .relative
  | _, _ => true

/-- In every row of the opcode table the addressing mode suits the operation. -/
theorem suits_lookup (opcode : UInt8) :
    (lookup opcode).op.action.suits (lookup opcode).mode = true := by
  have all : ∀ i : Fin 256, (lookup (UInt8.ofFin i)).op.action.suits
      (lookup (UInt8.ofFin i)).mode = true := by decide +kernel
  exact all opcode.toFin

namespace Cpu

/-! ## Processors that are alike -/

/-- Two processors agree on the registers and the cycles that remain, and the second has counted
`lag` cycles more. -/
structure Alike (lag : UInt64) (c d : Cpu) : Prop where
  regs_eq : c.regs = d.regs
  remaining_eq : c.remaining = d.remaining
  clockCount_eq : d.clockCount = c.clockCount + lag

/-- Two processors are alike, and the instruction in progress has set its latch alike. -/
structure Located (lag : UInt64) (mode : AddressingMode) (c d : Cpu) : Prop
    extends Alike lag c d where
  mode_eq : c.latches.mode = mode
  other_mode_eq : d.latches.mode = mode
  setsAlike : mode.SetsAlike c.latches d.latches

variable {lag : UInt64} {c d : Cpu} {mode : AddressingMode}

theorem Alike.tick (h : Alike lag c d) : Alike lag c.tick d.tick := by
  obtain ⟨hregs, hremaining, hcount⟩ := h
  constructor
  · exact hregs
  · exact congrArg (· - 1) hremaining
  · show d.clockCount + 1 = c.clockCount + 1 + lag
    rw [hcount]
    grind

theorem Alike.drain (h : Alike lag c d) : Alike lag c.drain d.drain := by
  rw [Cpu.drain, Cpu.drain, ← h.remaining_eq]
  generalize c.remaining.toNat = n
  induction n with
  | zero => exact h
  | succ n ih => exact ih.tick

theorem Alike.complete_eq (h : Alike lag c d) : c.complete = d.complete := by
  rw [complete, complete, h.remaining_eq]

/-! ## One instruction -/

/-- Addressing modes set their latch from the registers and the bus. -/
theorem agree_resolve (h : Alike lag c d) (hc : c.latches.mode = mode)
    (hd : d.latches.mode = mode) :
    Agree (fun found other => found.1 = other.1 ∧ Located lag mode found.2 other.2)
      (c.resolve mode) (d.resolve mode) := by
  obtain ⟨regs, latches, _, remaining, count⟩ := c
  obtain ⟨_, other, _, _, _⟩ := d
  obtain ⟨hregs, hremaining, hcount⟩ := h
  dsimp only at hregs hremaining hcount
  subst hregs hremaining hcount
  -- What the latches held before is in no result, so the results are alike at every leaf.
  cases mode with
  | implied | immediate => exact .done ⟨rfl, ⟨rfl, rfl, rfl⟩, hc, hd, rfl⟩
  | zeroPage | zeroPageX | zeroPageY | relative =>
    exact .read fun operand => .done ⟨rfl, ⟨rfl, rfl, rfl⟩, hc, hd, rfl⟩
  | absolute | absoluteX | absoluteY =>
    exact .read fun low => .read fun high => .done ⟨rfl, ⟨rfl, rfl, rfl⟩, hc, hd, rfl⟩
  | indexedIndirect | indirectIndexed =>
    exact .read fun cell => .read fun low => .read fun high =>
      .done ⟨rfl, ⟨rfl, rfl, rfl⟩, hc, hd, rfl⟩
  | indirect =>
    exact .read fun pointerLow => .read fun pointerHigh => .read fun low => .read fun high =>
      .done ⟨rfl, ⟨rfl, rfl, rfl⟩, hc, hd, rfl⟩

theorem Located.address_eq (h : Located lag mode c d) (himplied : mode ≠ .implied)
    (hrelative : mode ≠ .relative) : c.latches.address = d.latches.address := by
  have hset := h.setsAlike
  cases mode with
  | implied => exact absurd rfl himplied
  | relative => exact absurd rfl hrelative
  | _ => exact hset

theorem agree_enterHandler (h : Alike lag c d) (byInstruction : Bool) (vector : UInt16) :
    Agree (Alike lag) (c.enterHandler byInstruction vector)
      (d.enterHandler byInstruction vector) := by
  obtain ⟨regs, _, _, remaining, count⟩ := c
  obtain ⟨_, _, _, _, _⟩ := d
  obtain ⟨hregs, hremaining, hcount⟩ := h
  dsimp only at hregs hremaining hcount
  subst hregs hremaining hcount
  exact .write (.write (.write (.read fun low => .read fun high => .done ⟨rfl, rfl, rfl⟩)))

/-- Reading the operand uses the latch that the mode has set. -/
theorem agree_loadOperand (h : Located lag mode c d) (hrelative : mode ≠ .relative) :
    Agree (fun loaded other => loaded.1 = other.1 ∧ Located lag mode loaded.2 other.2)
      c.loadOperand d.loadOperand := by
  by_cases himplied : mode = .implied
  · have hset := h.setsAlike
    rw [himplied] at hset
    rw [loadOperand, loadOperand, h.mode_eq, h.other_mode_eq, if_pos himplied, if_pos himplied]
    exact .done ⟨hset, h⟩
  · have haddress := h.address_eq himplied hrelative
    rw [loadOperand, loadOperand, h.mode_eq, h.other_mode_eq, if_neg himplied, if_neg himplied,
      haddress]
    refine .read fun value => .done ⟨rfl, ⟨h.regs_eq, h.remaining_eq, h.clockCount_eq⟩, h.mode_eq,
      h.other_mode_eq, ?_⟩
    cases mode with
    | implied => exact absurd rfl himplied
    | relative => exact absurd rfl hrelative
    | _ => exact haddress

/-- Putting a value back uses the address that the mode has set. -/
theorem agree_storeOperand (h : Located lag mode c d) (hrelative : mode ≠ .relative)
    (value : UInt8) : Agree (Alike lag) (c.storeOperand value) (d.storeOperand value) := by
  by_cases himplied : mode = .implied
  · rw [storeOperand, storeOperand, h.mode_eq, h.other_mode_eq, if_pos himplied, if_pos himplied,
      h.regs_eq]
    exact .done ⟨rfl, h.remaining_eq, h.clockCount_eq⟩
  · rw [storeOperand, storeOperand, h.mode_eq, h.other_mode_eq, if_neg himplied, if_neg himplied,
      h.address_eq himplied hrelative]
    exact .write (.done h.toAlike)

theorem Alike.withRegs (h : Alike lag c d) (regs : Registers) :
    Alike lag { c with regs } { d with regs } :=
  ⟨rfl, h.remaining_eq, h.clockCount_eq⟩

theorem Located.withRegs (h : Located lag mode c d) (regs : Registers) :
    Located lag mode { c with regs } { d with regs } :=
  ⟨h.toAlike.withRegs regs, h.mode_eq, h.other_mode_eq, h.setsAlike⟩

theorem agree_pushWord (h : Located lag mode c d) (value : UInt16) :
    Agree (Located lag mode) (c.pushWord value) (d.pushWord value) := by
  simp only [pushWord, push, h.regs_eq]
  exact .write (.write (.done ((h.withRegs _).withRegs _)))

/-- An action that suits the mode uses the latch that the mode has set, and no other. -/
theorem agree_perform (h : Located lag mode c d) {a : Action} (ha : a.suits mode = true) :
    Agree (Alike lag) (c.perform a) (d.perform a) := by
  have hregs := h.regs_eq
  cases a with
  | load result =>
    apply (agree_loadOperand h (of_decide_eq_true ha)).bind
    rintro ⟨operand, loaded⟩ ⟨_, other⟩ ⟨rfl, hloaded⟩
    dsimp only at hloaded ⊢
    rw [hloaded.regs_eq]
    exact .done (hloaded.toAlike.withRegs _)
  | modify result =>
    apply (agree_loadOperand h (of_decide_eq_true ha)).bind
    rintro ⟨operand, loaded⟩ ⟨_, other⟩ ⟨rfl, hloaded⟩
    dsimp only at hloaded ⊢
    rw [hloaded.regs_eq]
    exact agree_storeOperand (hloaded.withRegs _) (of_decide_eq_true ha) _
  | store value =>
    obtain ⟨himplied, hrelative⟩ := of_decide_eq_true ha
    rw [perform, perform, h.address_eq himplied hrelative, hregs]
    exact .write (.done h.toAlike)
  | internal result =>
    rw [perform, perform, hregs]
    exact .done (h.toAlike.withRegs _)
  | branch taken =>
    have hset := h.setsAlike
    rw [of_decide_eq_true ha] at hset
    rw [perform, perform, branch, branch, hregs, hset, h.remaining_eq]
    cases taken d.regs.status with
    | false => exact .done h.toAlike
    | true => exact .done ⟨rfl, rfl, h.clockCount_eq⟩
  | push value =>
    rw [perform, perform, push, push, hregs]
    exact .write (.done (h.toAlike.withRegs _))
  | pull result =>
    rw [perform, perform, pull, pull, hregs]
    exact .read fun value => .done (h.toAlike.withRegs _)
  | jump =>
    obtain ⟨himplied, hrelative⟩ := of_decide_eq_true ha
    rw [perform, perform, h.address_eq himplied hrelative, hregs]
    exact .done (h.toAlike.withRegs _)
  | jumpSaving =>
    obtain ⟨himplied, hrelative⟩ := of_decide_eq_true ha
    rw [perform, perform, hregs]
    apply (agree_pushWord h _).bind
    intro saved other hsaved
    rw [hsaved.regs_eq, hsaved.address_eq himplied hrelative]
    exact .done (hsaved.toAlike.withRegs _)
  | comeBack =>
    rw [perform, perform]
    simp only [pullWord, pull, hregs]
    exact .read fun low => .read fun high => .done (h.toAlike.withRegs _)
  | comeBackFromHandler =>
    rw [perform, perform]
    simp only [pullWord, pull, hregs]
    exact .read fun status => .read fun low => .read fun high => .done (h.toAlike.withRegs _)
  | softwareBreak => exact agree_enterHandler h.toAlike true irqVector

/-- An instruction fetches its opcode, and from then on its mode and action suit each other. -/
theorem agree_begin (h : Alike lag c d) : Agree (Alike lag) c.begin d.begin := by
  rw [begin_eq, begin_eq, h.regs_eq]
  refine .read fun opcode => ?_
  have hstarted : Alike lag (c.started opcode) (d.started opcode) := by
    refine ⟨?_, rfl, h.clockCount_eq⟩
    rw [started, started, h.regs_eq]
  apply (agree_resolve hstarted rfl rfl).bind
  rintro ⟨crossed, found⟩ ⟨_, other⟩ ⟨rfl, hfound⟩
  apply (agree_perform hfound (suits_lookup opcode)).bind
  intro ended other hended
  refine .done ⟨hended.regs_eq, ?_, hended.clockCount_eq⟩
  rw [charged, charged, hended.remaining_eq]

/-! ## Calls -/

/-- A clock starts an instruction in both or in none. -/
theorem agree_clock (h : Alike lag c d) : Agree (Alike lag) c.clock d.clock := by
  rw [clock, clock, ← h.complete_eq]
  cases c.complete with
  | false => exact .done h.tick
  | true => exact (agree_begin h).bind fun _ _ hdone => .done hdone.tick

/-- The lag cancels in the count of a step. -/
theorem agree_step (h : Alike lag c d) :
    Agree (fun p q => p.1 = q.1 ∧ Alike lag p.2 q.2) c.step d.step := by
  apply (agree_clock h).bind
  intro started other hstarted
  have hfinished := hstarted.drain
  have hcount : started.drain.clockCount - c.clockCount =
      other.drain.clockCount - d.clockCount := by
    rw [hfinished.clockCount_eq, h.clockCount_eq]
    grind
  exact .done ⟨congrArg UInt64.toUInt32 hcount, hfinished⟩

/-- A reset makes any two processors alike. -/
theorem agree_reset (c d : Cpu) :
    Agree (Alike (d.clockCount - c.clockCount)) c.reset d.reset := by
  refine .read fun low => .read fun high => .done ⟨rfl, rfl, ?_⟩
  show d.clockCount = c.clockCount + (d.clockCount - c.clockCount)
  grind

theorem agree_irq (h : Alike lag c d) : Agree (Alike lag) c.irq d.irq := by
  rw [irq, irq, h.regs_eq]
  cases d.regs.status.interruptDisable with
  | true => exact .done h
  | false =>
    exact (agree_enterHandler h false irqVector).bind fun _ _ hentered =>
      .done ⟨hentered.regs_eq, rfl, hentered.clockCount_eq⟩

theorem agree_nmi (h : Alike lag c d) : Agree (Alike lag) c.nmi d.nmi :=
  (agree_enterHandler h false nmiVector).bind fun _ _ hentered =>
    .done ⟨hentered.regs_eq, rfl, hentered.clockCount_eq⟩

/-- Processors that are alike answer a call alike and stay so. -/
theorem agree_call (h : Alike lag c d) (call : CpuCall) :
    Agree (fun p q => p.1 = q.1 ∧ Alike lag p.2 q.2) (call.program c) (call.program d) := by
  cases call with
  | clock => exact (agree_clock h).bind fun _ _ hafter => .done ⟨rfl, hafter⟩
  | step =>
    apply (agree_step h).bind
    rintro ⟨count, after⟩ ⟨_, other⟩ ⟨rfl, hafter⟩
    exact .done ⟨rfl, hafter⟩
  | reset =>
    have hlag : d.clockCount - c.clockCount = lag := by
      rw [h.clockCount_eq]
      grind
    rw [← hlag]
    exact (agree_reset c d).bind fun _ _ hafter => .done ⟨rfl, hafter⟩
  | irq => exact (agree_irq h).bind fun _ _ hafter => .done ⟨rfl, hafter⟩
  | nmi => exact (agree_nmi h).bind fun _ _ hafter => .done ⟨rfl, hafter⟩

/-- By induction on the calls, processors that are alike stay so. -/
theorem agree_session (h : Alike lag c d) (calls : List CpuCall) :
    Agree (fun p q => p.1 = q.1 ∧ Alike lag p.2 q.2) (session calls c) (session calls d) := by
  induction calls generalizing c d with
  | nil => exact .done ⟨rfl, h⟩
  | cons call rest ih =>
    apply (agree_call h call).bind
    rintro ⟨answer, after⟩ ⟨_, other⟩ ⟨rfl, hafter⟩
    apply (ih hafter).bind
    rintro ⟨answers, last⟩ ⟨_, other⟩ ⟨rfl, hlast⟩
    exact .done ⟨rfl, hlast⟩

/-- After a reset the past does not matter. -/
theorem agree_session_reset (c d : Cpu) (calls : List CpuCall) :
    Agree (fun p q => p.1 = q.1 ∧ Alike (d.clockCount - c.clockCount) p.2 q.2)
      (session (.reset :: calls) c) (session (.reset :: calls) d) := by
  have hcall : Agree (fun p q => p.1 = q.1 ∧ Alike (d.clockCount - c.clockCount) p.2 q.2)
      (CpuCall.reset.program c) (CpuCall.reset.program d) :=
    (agree_reset c d).bind fun _ _ hafter => .done ⟨rfl, hafter⟩
  apply hcall.bind
  rintro ⟨answer, after⟩ ⟨_, other⟩ ⟨rfl, hafter⟩
  apply (agree_session hafter calls).bind
  rintro ⟨answers, last⟩ ⟨_, other⟩ ⟨rfl, hlast⟩
  exact .done ⟨rfl, hlast⟩

/-! ## Two processors on equal buses -/

section Running

variable {β : Type v} [Bus β]

/-- Some calls cannot tell two processors apart: from equal buses they answer the same, make the
same accesses and leave equal buses, registers and cycles that remain. The counts of cycles keep
their difference. -/
structure Coincide (c d : Cpu) (bus : β) (calls : List CpuCall) : Prop where
  answers_eq : ((session calls c).run bus).1.1 = ((session calls d).run bus).1.1
  accesses_eq : (session calls c).accesses bus = (session calls d).accesses bus
  bus_eq : ((session calls c).run bus).2 = ((session calls d).run bus).2
  regs_eq : ((session calls c).run bus).1.2.regs = ((session calls d).run bus).1.2.regs
  remaining_eq :
    ((session calls c).run bus).1.2.remaining = ((session calls d).run bus).1.2.remaining
  clockCount_sub :
    ((session calls d).run bus).1.2.clockCount - ((session calls c).run bus).1.2.clockCount =
      d.clockCount - c.clockCount

/-- Calls that agree cannot tell processors apart. -/
theorem coincide_of_agree {calls : List CpuCall}
    (h : Agree (fun p q => p.1 = q.1 ∧ Alike (d.clockCount - c.clockCount) p.2 q.2)
      (session calls c) (session calls d)) (bus : β) : Coincide c d bus calls := by
  obtain ⟨⟨hanswers, halike⟩, hbus, haccesses⟩ := h.run bus
  refine ⟨hanswers, haccesses, hbus, halike.regs_eq, halike.remaining_eq, ?_⟩
  rw [halike.clockCount_eq]
  grind

/-- Registers and the cycles that remain are all the state that matters: no calls on any bus tell
processors apart that have these in common. And after a reset none tell any two apart, whatever was
in progress. -/
theorem session_ignores_hidden_state (c d : Cpu) (bus : β) (calls : List CpuCall) :
    (c.regs = d.regs → c.remaining = d.remaining → Coincide c d bus calls) ∧
      Coincide c d bus (.reset :: calls) := by
  refine ⟨fun hregs hremaining => ?_, coincide_of_agree (agree_session_reset c d calls) bus⟩
  have hcount : d.clockCount = c.clockCount + (d.clockCount - c.clockCount) := by grind
  exact coincide_of_agree (agree_session ⟨hregs, hremaining, hcount⟩ calls) bus

end Running

/-- A store goes to the address that it sets and not to the one left over from earlier. -/
theorem session_ignores_stale_address :
    let memory := ((FlatMemory.zero.write 0 0x8D).write 1 0x00).write 2 0x02
    let fresh := powerOn
    let stale : Cpu :=
      { fresh with latches := ⟨.relative, 1, 0x1234, 3⟩, opcode := 0xD0, clockCount := 7 }
    fresh.regs = stale.regs ∧ fresh.remaining = stale.remaining ∧
      Coincide fresh stale memory [.step, .irq, .clock, .nmi, .reset, .step] ∧
      (session [.step] stale).accesses memory =
        [.read 0 0x8D, .read 1 0x00, .read 2 0x02, .write 0x0200 0] := by
  intro memory fresh stale
  have hignores := session_ignores_hidden_state fresh stale memory
    [.step, .irq, .clock, .nmi, .reset, .step]
  exact ⟨rfl, rfl, hignores.1 rfl rfl, by decide +kernel⟩

end Cpu

end NesMachine
