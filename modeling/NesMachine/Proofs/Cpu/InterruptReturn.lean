import NesMachine.Proofs.Cpu.Cost
import NesMachine.Proofs.Cpu.Stack

/-!
# Coming back from an interrupt

An interrupt saves the program counter and the status in three cells of the stack and goes on at a
handler. If the handler starts with the return from it, and not in one of these cells, the return
undoes the interrupt: all the registers are as before, and memory differs in the three cells alone
(`Cpu.interrupts_transparent`).

A non-maskable interrupt, a request and a software break enter a handler in the same way
(`Cpu.Enters`): they differ in the vector, in the break mark of the saved status, in the address to
come back to and in their cycles. One lemma about the return (`Cpu.Enters.comesBack`) serves all
three.
-/

set_option autoImplicit false

namespace NesMachine

open Cpu (stackCell)

/-! ## Handlers -/

/-- Where the handler of a vector starts. -/
def FlatMemory.handlerAt (m : FlatMemory) (vector : UInt16) : UInt16 :=
  word (m.peek vector) (m.peek (vector + 1))

/-- The cells in which an interrupt saves the program counter and the status. -/
def savedCells (sp : UInt8) : List UInt16 :=
  [stackCell sp, stackCell (sp - 1), stackCell (sp - 2)]

/-- The handler of a vector starts with the return from a handler, and does not start in a cell that
the interrupt overwrites. -/
structure StartsWithReturn (m : FlatMemory) (vector : UInt16) (sp : UInt8) : Prop where
  op_eq : (lookup (m.peek (m.handlerAt vector))).op = .rti
  apart : m.handlerAt vector ∉ savedCells sp

/-- Pushing a frame with the way back from a handler changes the three cells alone. -/
theorem FlatMemory.peek_of_notMem_savedCells {sp : UInt8} {addr : UInt16}
    (h : addr ∉ savedCells sp) (m : FlatMemory) (byInstruction : Bool) (flags : Status)
    (back : UInt16) :
    (m.afterAccesses (stackWrites sp (Frame.handler byInstruction flags back).bytes)).peek addr =
      m.peek addr := by
  apply FlatMemory.peek_afterAccesses_of_not_written
  intro value hmem
  have hsp : sp - 1 - 1 = sp - 2 := by grind
  simp only [Frame.bytes, stackWrites, hsp, List.mem_cons, Access.write.injEq, List.not_mem_nil,
    or_false] at hmem
  apply h
  simp only [savedCells, List.mem_cons, List.not_mem_nil, or_false]
  exact hmem.imp And.left (Or.imp And.left And.left)

/-- A vector that does not lie in page one is the same after a push. -/
theorem FlatMemory.handlerAt_of_pushed {vector : UInt16} (hlow : highByte vector ≠ 0x01)
    (hhigh : highByte (vector + 1) ≠ 0x01) (m : FlatMemory) (sp : UInt8) (values : List UInt8) :
    (m.afterAccesses (stackWrites sp values)).handlerAt vector = m.handlerAt vector := by
  have hkeeps : ∀ addr, highByte addr ≠ 0x01 →
      (m.afterAccesses (stackWrites sp values)).peek addr = m.peek addr := by
    intro addr haddr
    apply FlatMemory.peek_afterAccesses_of_not_written
    intro value hmem
    exact haddr (highByte_of_mem_stackWrites hmem)
  rw [handlerAt, hkeeps vector hlow, hkeeps (vector + 1) hhigh]
  rfl

namespace Cpu

/-! ## The rows of the two operations -/

/-- The return from a handler and the software break have one row each. -/
theorem lookup_of_handler_op (opcode : UInt8) :
    ((lookup opcode).op = .rti → lookup opcode = ⟨.rti, .implied, 6, true⟩) ∧
      ((lookup opcode).op = .brk → lookup opcode = ⟨.brk, .immediate, 7, true⟩) := by
  have all : ∀ i : Fin 256,
      ((lookup (UInt8.ofFin i)).op = .rti →
        lookup (UInt8.ofFin i) = ⟨.rti, .implied, 6, true⟩) ∧
      ((lookup (UInt8.ofFin i)).op = .brk →
        lookup (UInt8.ofFin i) = ⟨.brk, .immediate, 7, true⟩) := by decide +kernel
  exact all opcode.toFin

/-! ## Entering a handler -/

/-- The processor at the first instruction of a handler: A, X and Y are as before, and the stack
pointer is three lower. -/
structure Entered (c : Cpu) (start : UInt16) (cycles : UInt64) (e : Cpu) : Prop where
  complete : e.complete = true
  clockCount_eq : e.clockCount = c.clockCount + cycles
  regs_eq : e.regs =
    { c.regs with
      sp := c.regs.sp - 3
      pc := start
      status := { c.regs.status with interruptDisable := true, unused := true } }

/-- Some calls enter the handler of a vector and leave the way back on the stack. -/
def Enters (c : Cpu) (m : FlatMemory) (calls : List CpuCall) (answers : List (Option UInt32))
    (cycles : UInt64) (vector : UInt16) (f : Frame) : Prop :=
  ∃ e, (session calls c).run m =
      ((answers, e), m.afterAccesses (stackWrites c.regs.sp f.bytes)) ∧
    c.Entered (m.handlerAt vector) cycles e

/-- The entry saves the way back and loads the vector. -/
theorem run_enterHandler (c : Cpu) (byInstruction : Bool) {vector : UInt16}
    (hlow : highByte vector ≠ 0x01) (hhigh : highByte (vector + 1) ≠ 0x01) (m : FlatMemory) :
    (c.enterHandler byInstruction vector).run m =
      ({ c with
          regs.sp := c.regs.sp - 3
          regs.pc := m.handlerAt vector
          regs.status.interruptDisable := true },
        m.afterAccesses
          (stackWrites c.regs.sp (Frame.handler byInstruction c.regs.status c.regs.pc).bytes)) := by
  have hsp : c.regs.sp - 1 - 1 - 1 = c.regs.sp - 3 := by grind
  -- The vector is read behind the pushes, from the memory that they changed.
  rw [← m.handlerAt_of_pushed hlow hhigh c.regs.sp
    (Frame.handler byInstruction c.regs.status c.regs.pc).bytes, ← hsp]
  rfl

variable {c : Cpu} {m : FlatMemory}

/-- What a step from a boundary does with frames is read off its opcode. -/
theorem stackMove_step (hc : c.complete = true) (m : FlatMemory) :
    CpuCall.step.stackMove (c, m) = (lookup (m.peek c.regs.pc)).op.stackMove c.regs :=
  if_pos hc

theorem after_step (c : Cpu) (m : FlatMemory) :
    CpuCall.step.after (c, m) = ((c.step.run m).1.2, (c.step.run m).2) := by
  rw [CpuCall.after, run_program_step]

/-- An interrupt line and the step that waits for its sequence enter the handler. -/
theorem enters_of_request {call : CpuCall} {vector : UInt16} {cycles : UInt8}
    (hunused : c.regs.status.unused = true) (hlow : highByte vector ≠ 0x01)
    (hhigh : highByte (vector + 1) ≠ 0x01) (hcycles : cycles ≠ 0)
    (hcall : (call.program c).run m =
      let entered := (c.enterHandler false vector).run m
      ((none, { entered.1 with remaining := cycles }), entered.2)) :
    c.Enters m [call, .step] [none, some cycles.toUInt32] cycles.toUInt64 vector
      (.handler false c.regs.status c.regs.pc) := by
  rw [run_enterHandler c false hlow hhigh m] at hcall
  obtain ⟨busy, hbusy⟩ : ∃ busy : Cpu, busy = { c with
      regs.sp := c.regs.sp - 3
      regs.pc := m.handlerAt vector
      regs.status.interruptDisable := true
      remaining := cycles } := ⟨_, rfl⟩
  have hcomplete : busy.complete = false := by
    rw [hbusy]
    exact beq_eq_false_iff_ne.2 hcycles
  -- The call leaves all its cycles to spend, so the step waits and fetches nothing.
  refine ⟨busy.waited busy.remaining.toNat, ?_, ?_⟩
  · rw [run_session_cons, hcall]
    dsimp only
    rw [← hbusy, run_session_cons, CpuCall.program, step_of_busy hcomplete]
    rw [hbusy]
    rfl
  · rw [waited_remaining, hbusy]
    refine ⟨rfl, rfl, ?_⟩
    dsimp only
    rw [← hunused]

/-- A software break takes seven cycles, saves the way back past the byte after its opcode, and
goes on at the handler. -/
theorem step_of_break (hc : c.complete = true) (hop : (lookup (m.peek c.regs.pc)).op = .brk) :
    (c.step.run m).1.1 = 7 ∧
      (c.step.run m).2 = m.afterAccesses
        (stackWrites c.regs.sp (Frame.handler true c.regs.status (c.regs.pc + 2)).bytes) ∧
      (c.step.run m).1.2.regs =
        { c.regs with
          sp := c.regs.sp - 3
          pc := m.handlerAt irqVector
          status := { c.regs.status with interruptDisable := true, unused := true } } := by
  have hnext : c.nextInstruction m = ⟨.brk, .immediate, 7, true⟩ := (lookup_of_handler_op _).2 hop
  have hmove : CpuCall.step.stackMove (c, m) =
      .push (.handler true c.regs.status (c.regs.pc + 2)) := by
    rw [stackMove_step hc, hop]
    rfl
  have hne : CpuCall.step.stackMove (c, m) ≠ .other := by
    rw [hmove]
    exact StackMove.noConfusion
  have hafter := CpuCall.memory_after .step (c, m)
  obtain ⟨-, d, hfound, -, hended, -⟩ := CpuCall.exists_perform (by simp) hne
  rw [after_step] at hafter hended
  rw [(CpuCall.after_push hmove).2] at hafter
  dsimp only at hended
  refine ⟨?_, hafter, ?_⟩
  · rw [count_step_of_plain hc m (by rw [hnext]; decide) (by rw [hnext]; decide), hnext]
    rfl
  · rw [hended, hop, Op.action, perform, run_enterHandler d true (by decide) (by decide), hfound]
    rfl

theorem enters_of_break (hc : c.complete = true)
    (hop : (lookup (m.peek c.regs.pc)).op = .brk) :
    c.Enters m [.step] [some 7] 7 irqVector
      (.handler true c.regs.status (c.regs.pc + 2)) := by
  obtain ⟨hcount, hmemory, hregs⟩ := step_of_break hc hop
  refine ⟨(c.step.run m).1.2, ?_, complete_step c m, ?_, hregs⟩
  · rw [run_session_cons, run_program_step, hcount, hmemory]
    rfl
  · rw [clockCount_step, hcount]
    rfl

/-! ## Coming back -/

/-- Some calls enter a handler and come back from it: they end at a boundary, all registers are as
before but for the address to go on at, and memory differs in the three saved cells alone. -/
structure ComesBack (c : Cpu) (m : FlatMemory) (calls : List CpuCall)
    (answers : List (Option UInt32)) (cycles : UInt64) (back : UInt16) : Prop where
  answers_eq : ((session calls c).run m).1.1 = answers
  complete : ((session calls c).run m).1.2.complete = true
  clockCount_eq : ((session calls c).run m).1.2.clockCount = c.clockCount + cycles
  regs_eq : ((session calls c).run m).1.2.regs = { c.regs with pc := back }
  memory_eq : ∀ addr, addr ∉ savedCells c.regs.sp →
    ((session calls c).run m).2.peek addr = m.peek addr

/-- A return from a handler takes six cycles, takes the frame off the stack and leaves memory as it
is. -/
theorem step_of_return (hc : c.complete = true) (hop : (lookup (m.peek c.regs.pc)).op = .rti)
    {byInstruction : Bool} {flags : Status} {back : UInt16} {base : UInt8}
    (hheld : Holds m base (Frame.handler byInstruction flags back).bytes)
    (hsp : c.regs.sp = base - 3) :
    (c.step.run m).1.1 = 6 ∧ (c.step.run m).2 = m ∧
      (c.step.run m).1.2.regs =
        { c.regs with
          sp := base
          pc := back
          status := { flags with breakMark := false, unused := true } } := by
  have hnext : c.nextInstruction m = ⟨.rti, .implied, 6, true⟩ := (lookup_of_handler_op _).1 hop
  have hmove : CpuCall.step.stackMove (c, m) =
      .pull (Frame.handler byInstruction flags back).kind := by
    rw [stackMove_step hc, hop]
    rfl
  have hne : CpuCall.step.stackMove (c, m) ≠ .other := by
    rw [hmove]
    exact StackMove.noConfusion
  -- Nothing lies below the frame that the stack ends with.
  have hheld : Holds m base ([] ++ (Frame.handler byInstruction flags back).bytes) := hheld
  obtain ⟨⟨hstatus, hpc⟩, htop, hwrites⟩ := CpuCall.after_pull hmove hheld hsp
  obtain ⟨-, d, hfound, -, hended, -⟩ := CpuCall.exists_perform (by simp) hne
  have hafter := CpuCall.memory_after .step (c, m)
  rw [hwrites] at hafter
  rw [after_step] at hstatus hpc htop hended hafter
  refine ⟨?_, hafter, ?_⟩
  · rw [count_step_of_plain hc m (by rw [hnext]; decide) (by rw [hnext]; decide), hnext]
    rfl
  · dsimp only at hstatus hpc htop hended
    -- A, X and Y are not in the frame: they stay since the return writes the other three alone.
    have hkeeps : (c.step.run m).1.2.regs =
        { c.regs with
          sp := (c.step.run m).1.2.regs.sp
          pc := (c.step.run m).1.2.regs.pc
          status := (c.step.run m).1.2.regs.status } := by
      have hsame : ((d.perform Op.rti.action).run m).1.regs =
          { d.regs with
            sp := ((d.perform Op.rti.action).run m).1.regs.sp
            pc := ((d.perform Op.rti.action).run m).1.regs.pc
            status := ((d.perform Op.rti.action).run m).1.regs.status } := rfl
      rw [hended, hop]
      apply hsame.trans
      rw [hfound]
      rfl
    have hbase : (c.step.run m).1.2.regs.sp = base := htop.trans (UInt8.sub_zero _)
    rw [hkeeps, hstatus, hpc, hbase]

/-- Whatever calls enter a handler that starts with the return, one more step comes back. -/
theorem Enters.comesBack {calls : List CpuCall} {answers : List (Option UInt32)} {cycles : UInt64}
    {vector : UInt16} {byInstruction : Bool} {back : UInt16}
    (h : c.Enters m calls answers cycles vector (.handler byInstruction c.regs.status back))
    (hhandler : StartsWithReturn m vector c.regs.sp) (hbreak : c.regs.status.breakMark = false)
    (hunused : c.regs.status.unused = true) :
    c.ComesBack m (calls ++ [.step]) (answers ++ [some 6]) (cycles + 6) back := by
  obtain ⟨e, hrun, hentered⟩ := h
  let frame := Frame.handler byInstruction c.regs.status back
  let pushed := m.afterAccesses (stackWrites c.regs.sp frame.bytes)
  have hpc : e.regs.pc = m.handlerAt vector := by
    rw [hentered.regs_eq]
  -- The return is fetched from the memory just written, where it still is.
  have hop : (lookup (pushed.peek e.regs.pc)).op = .rti := by
    rw [hpc, FlatMemory.peek_of_notMem_savedCells hhandler.apart]
    exact hhandler.op_eq
  have hheld : Holds pushed c.regs.sp frame.bytes := by
    have hframe := (Holds.nil m c.regs.sp).append frame.bytes (by decide : 0 + 3 ≤ 256)
    have hbase : c.regs.sp - UInt8.ofNat ([] : List UInt8).length = c.regs.sp := UInt8.sub_zero _
    rw [hbase] at hframe
    exact hframe
  have hsp : e.regs.sp = c.regs.sp - 3 := by
    rw [hentered.regs_eq]
  obtain ⟨hcount, hmemory, hregs⟩ := step_of_return hentered.complete hop hheld hsp
  have hcomplete := complete_step e pushed
  have hclock := clockCount_step e pushed
  have hlast : (session (calls ++ [.step]) c).run m =
      ((answers ++ [some 6], (e.step.run pushed).1.2), pushed) := by
    rw [run_session_append, hrun]
    dsimp only
    rw [run_session_cons, run_program_step, hcount, hmemory]
    rfl
  constructor
  · rw [hlast]
  · rw [hlast]
    exact hcomplete
  · rw [hlast, hclock, hcount, hentered.clockCount_eq, UInt64.add_assoc]
    rfl
  · rw [hlast, hregs, hentered.regs_eq, ← hbreak, ← hunused]
  · intro addr haddr
    rw [hlast]
    exact m.peek_of_notMem_savedCells haddr byInstruction c.regs.status back

/-! ## Main statement -/

/-- Interrupts are transparent. If their handler starts with the return, outside the three cells
that they save to, a non-maskable interrupt and a request that is not masked give back all the
registers, and a software break gives back all but the program counter, which is past its two bytes.
Memory changes in the three cells alone. -/
theorem interrupts_transparent (c : Cpu) (m : FlatMemory) (hc : c.complete = true)
    (hbreak : c.regs.status.breakMark = false) (hunused : c.regs.status.unused = true) :
    (StartsWithReturn m nmiVector c.regs.sp →
        c.ComesBack m [.nmi, .step, .step] [none, some 8, some 6] (8 + 6) c.regs.pc) ∧
      (StartsWithReturn m irqVector c.regs.sp →
        (c.regs.status.interruptDisable = false →
          c.ComesBack m [.irq, .step, .step] [none, some 7, some 6] (7 + 6) c.regs.pc) ∧
        ((lookup (m.peek c.regs.pc)).op = .brk →
          c.ComesBack m [.step, .step] [some 7, some 6] (7 + 6) (c.regs.pc + 2))) := by
  refine ⟨?_, ?_⟩
  · intro hhandler
    have hcall : (CpuCall.nmi.program c).run m =
        let entered := (c.enterHandler false nmiVector).run m
        ((none, { entered.1 with remaining := 8 }), entered.2) := rfl
    have henters : c.Enters m [.nmi, .step] [none, some 8] 8 nmiVector
        (.handler false c.regs.status c.regs.pc) :=
      enters_of_request hunused (by decide) (by decide) (by decide) hcall
    exact henters.comesBack hhandler hbreak hunused
  · intro hhandler
    refine ⟨?_, ?_⟩
    · intro hmask
      have hcall : (CpuCall.irq.program c).run m =
          let entered := (c.enterHandler false irqVector).run m
          ((none, { entered.1 with remaining := 7 }), entered.2) := by
        rw [CpuCall.program, irq, hmask]
        rfl
      have henters : c.Enters m [.irq, .step] [none, some 7] 7 irqVector
          (.handler false c.regs.status c.regs.pc) :=
        enters_of_request hunused (by decide) (by decide) (by decide) hcall
      exact henters.comesBack hhandler hbreak hunused
    · intro hop
      exact (enters_of_break hc hop).comesBack hhandler hbreak hunused

/-- The stack pointer wraps within the frame, and the software break is the last byte of memory, so
its way back wraps too. -/
theorem interrupts_transparent_wrapped_stack :
    let memory := ((FlatMemory.zero.write 0xFFFA 0x20).write 0xFFFE 0x20).write 0x0020 0x40
    let c : Cpu :=
      { powerOn with regs := ⟨0x11, 0x22, 0x33, 0x01, 0xFFFF, { Status.initial with carry := true }⟩ }
    (c.complete = true ∧ c.regs.status.breakMark = false ∧ c.regs.status.unused = true ∧
      c.regs.status.interruptDisable = false ∧ StartsWithReturn memory nmiVector c.regs.sp ∧
      StartsWithReturn memory irqVector c.regs.sp ∧
      (lookup (memory.peek c.regs.pc)).op = .brk ∧
      savedCells c.regs.sp = [0x0101, 0x0100, 0x01FF]) ∧
      c.ComesBack memory [.nmi, .step, .step] [none, some 8, some 6] 14 0xFFFF ∧
      c.ComesBack memory [.irq, .step, .step] [none, some 7, some 6] 13 0xFFFF ∧
      c.ComesBack memory [.step, .step] [some 7, some 6] 13 0x0001 := by
  intro memory c
  have hpeek : ∀ addr, memory.peek addr =
      if addr = 0x0020 then 0x40
      else if addr = 0xFFFE then 0x20
      else if addr = 0xFFFA then 0x20 else 0x00 := by
    intro addr
    rw [FlatMemory.peek_write, FlatMemory.peek_write, FlatMemory.peek_write, FlatMemory.peek_zero]
  have hline : memory.handlerAt nmiVector = 0x0020 := by
    rw [FlatMemory.handlerAt, hpeek, hpeek]
    decide
  have hrequest : memory.handlerAt irqVector = 0x0020 := by
    rw [FlatMemory.handlerAt, hpeek, hpeek]
    decide
  have hop : (lookup (memory.peek 0x0020)).op = .rti := by
    rw [hpeek]
    decide
  have hbreak : (lookup (memory.peek c.regs.pc)).op = .brk := by
    rw [hpeek]
    decide
  have hnmi : StartsWithReturn memory nmiVector c.regs.sp := by
    refine ⟨?_, ?_⟩ <;> rw [hline]
    · exact hop
    · decide
  have hirq : StartsWithReturn memory irqVector c.regs.sp := by
    refine ⟨?_, ?_⟩ <;> rw [hrequest]
    · exact hop
    · decide
  obtain ⟨hfromNmi, hothers⟩ := interrupts_transparent c memory rfl rfl rfl
  obtain ⟨hfromIrq, hfromBreak⟩ := hothers hirq
  refine ⟨⟨rfl, rfl, rfl, rfl, hnmi, hirq, hbreak, by decide⟩, ?_, ?_, ?_⟩
  · exact hfromNmi hnmi
  · exact hfromIrq rfl
  · have hback : c.regs.pc + 2 = 0x0001 := by decide
    rw [← hback]
    exact hfromBreak hbreak

end Cpu

end NesMachine
