import NesMachine.Proofs.Cpu.Decoding

/-!
# The accesses of an instruction

A step from an instruction boundary fetches the opcode, makes the reads of the addressing mode and
then the accesses of the operation, in this order and without any others
(`Cpu.step_makes_exactly`). Two relations say which these are: `Finds` gives for each addressing
mode its reads and the address of the operand, with the three ways to wrap (within page zero, within
the page of a pointer, and at the top of memory), and `Acts` gives for each operation what it does
at that address, on the stack and at the vector. The bytes are those that the bus returns when it
takes the accesses in their order (`Bus.Takes`), so the bus may be one whose reads have effects.
-/

set_option autoImplicit false

namespace NesMachine

universe u v

/-! ## Accesses that a bus takes -/

section Takes

variable {α : Type u} {β : Type v} [Bus β]

/-- A bus takes some accesses one after the other and becomes another bus. A read is noted with the
byte that the bus returns at that moment. -/
inductive Bus.Takes : β → List Access → β → Prop
  | nil (bus : β) : Takes bus [] bus
  | read {bus later : β} {rest : List Access} (addr : UInt16)
      (hrest : Takes (Bus.read bus addr).2 rest later) :
      Takes bus (.read addr (Bus.read bus addr).1 :: rest) later
  | write {bus later : β} {rest : List Access} (addr : UInt16) (value : UInt8)
      (hrest : Takes (Bus.write bus addr value) rest later) :
      Takes bus (.write addr value :: rest) later

theorem Program.takes (p : Program α) (bus : β) :
    Bus.Takes bus (p.accesses bus) (p.run bus).2 := by
  induction p generalizing bus with
  | done a => exact .nil bus
  | read addr next ih => exact .read addr (ih _ _)
  | write addr value next ih => exact .write addr value (ih _)

end Takes

/-! ## The reads of addressing modes -/

/-- `Finds pc x y mode made ea`: behind the opcode at `pc`, and with the index registers `x` and
`y`, an addressing mode makes the reads `made` and finds the operand at `ea`. There is no such
address when the operand is in A or is the distance of a branch. -/
inductive Finds (pc : UInt16) (x y : UInt8) :
    AddressingMode → List Access → Option UInt16 → Prop
  | implied : Finds pc x y .implied [] none
  | immediate : Finds pc x y .immediate [] (some pc)
  | zeroPage (cell : UInt8) : Finds pc x y .zeroPage [.read pc cell] (some (word cell 0))
  | zeroPageX (cell : UInt8) :
      Finds pc x y .zeroPageX [.read pc cell] (some (word (cell + x) 0))
  | zeroPageY (cell : UInt8) :
      Finds pc x y .zeroPageY [.read pc cell] (some (word (cell + y) 0))
  | relative (distance : UInt8) : Finds pc x y .relative [.read pc distance] none
  | absolute (low high : UInt8) :
      Finds pc x y .absolute [.read pc low, .read (pc + 1) high] (some (word low high))
  | absoluteX (low high : UInt8) :
      Finds pc x y .absoluteX [.read pc low, .read (pc + 1) high]
        (some (word low high + x.toUInt16))
  | absoluteY (low high : UInt8) :
      Finds pc x y .absoluteY [.read pc low, .read (pc + 1) high]
        (some (word low high + y.toUInt16))
  | indirect (low high targetLow targetHigh : UInt8) :
      Finds pc x y .indirect
        [.read pc low, .read (pc + 1) high, .read (word low high) targetLow,
          .read (word (low + 1) high) targetHigh]
        (some (word targetLow targetHigh))
  | indexedIndirect (cell low high : UInt8) :
      Finds pc x y .indexedIndirect
        [.read pc cell, .read (word (cell + x) 0) low, .read (word (cell + x + 1) 0) high]
        (some (word low high))
  | indirectIndexed (cell low high : UInt8) :
      Finds pc x y .indirectIndexed
        [.read pc cell, .read (word cell 0) low, .read (word (cell + 1) 0) high]
        (some (word low high + y.toUInt16))

/-- Where the operand of the instruction in progress is in memory, if it is there. -/
def Cpu.operandAddress? (c : Cpu) : Option UInt16 :=
  match c.latches.mode with
  | .implied | .relative => none
  | _ => some c.latches.address

/-- A mode makes its reads and leaves the address of the operand. -/
theorem Cpu.finds_resolve {β : Type v} [Bus β] (c : Cpu) (bus : β) {mode : AddressingMode}
    (hmode : c.latches.mode = mode) :
    Finds c.regs.pc c.regs.x c.regs.y mode ((c.resolve mode).accesses bus)
      ((c.resolve mode).run bus).1.2.operandAddress? := by
  obtain ⟨regs, ⟨inProgress, operand, address, displacement⟩, opcode, remaining, count⟩ := c
  dsimp only at hmode
  subst hmode
  -- Every run below is a fixed list of reads, so its bytes can be read off the constructor.
  cases inProgress with
  | implied => exact .implied
  | immediate => exact .immediate
  | zeroPage => exact .zeroPage _
  | zeroPageX => exact .zeroPageX _
  | zeroPageY => exact .zeroPageY _
  | relative => exact .relative _
  | absolute => exact .absolute _ _
  | absoluteX => exact .absoluteX _ _
  | absoluteY => exact .absoluteY _ _
  | indirect =>
    simp only [resolve, fetchWord, fetchByte, Program.readByte, Program.read_bind,
      Program.done_bind, Program.pure_eq_done, readWordInPage_word]
    exact .indirect _ _ _ _
  | indexedIndirect =>
    simp only [resolve, readWordInPage_word]
    exact .indexedIndirect _ _ _
  | indirectIndexed =>
    simp only [resolve, readWordInPage_word]
    exact .indirectIndexed _ _ _

/-! ## The accesses of operations -/

open Cpu (stackCell)

namespace Op

/-- The operations that read their operand and leave it as it is. -/
def readers : List Op :=
  [.adc, .sbc, .and, .ora, .eor, .bit, .cmp, .cpx, .cpy, .lda, .ldx, .ldy]

/-- The operations that shift their operand, which may be A. -/
def shifts : List Op :=
  [.asl, .lsr, .rol, .ror]

/-- What an operation makes of an operand that it rewrites, given the carry as a number. -/
def rewritten? (carry value : UInt8) : Op → Option UInt8
  | .inc => some (value + 1)
  | .dec => some (value - 1)
  | .asl => some (value <<< 1)
  | .lsr => some (value >>> 1)
  | .rol => some ((value <<< 1) + carry)
  | .ror => some ((value >>> 1) + 0x80 * carry)
  | _ => none

/-- The register that an operation stores at the address of its operand. -/
def stored? (r : Registers) : Op → Option UInt8
  | .sta => some r.a
  | .stx => some r.x
  | .sty => some r.y
  | _ => none

/-- The byte that an operation puts on the stack. -/
def pushed? (r : Registers) : Op → Option UInt8
  | .pha => some r.a
  | .php => some (r.status.pushed true)
  | _ => none

/-- The operations that take a byte off the stack. -/
def pulls : List Op :=
  [.pla, .plp]

/-- The operations that leave the bus alone. -/
def silent : List Op :=
  [.inx, .iny, .dex, .dey, .tax, .tay, .tsx, .txa, .txs, .tya, .clc, .sec, .cli, .sei, .cld, .sed,
    .clv, .jmp, .nop, .unassigned] ++ branches

/-- Whether the addressing mode provides what an operation needs. A call and a break are as long as
their modes make them, since they save the address behind them. -/
def goesWith (op : Op) (mode : AddressingMode) : Bool :=
  match op with
  | .jsr => mode = .absolute
  | .brk => mode = .immediate
  | _ =>
    if op ∈ shifts then mode ≠ .relative
    else if op ∈ readers ++ [.inc, .dec, .sta, .stx, .sty] then
      mode ≠ .implied ∧ mode ≠ .relative
    else true

end Op

/-- `Acts r op ea made`: with the registers `r` before the instruction and the operand at `ea`, an
operation makes the accesses `made`. -/
inductive Acts (r : Registers) : Op → Option UInt16 → List Access → Prop
  | reads {op : Op} (hop : op ∈ Op.readers) (ea : UInt16) (value : UInt8) :
      Acts r op (some ea) [.read ea value]
  | rewrites {op : Op} {value result : UInt8} (hop : op.rewritten? r.carryByte value = some result)
      (ea : UInt16) : Acts r op (some ea) [.read ea value, .write ea result]
  | rewritesA {op : Op} (hop : op ∈ Op.shifts) : Acts r op none []
  | stores {op : Op} {value : UInt8} (hop : op.stored? r = some value) (ea : UInt16) :
      Acts r op (some ea) [.write ea value]
  | pushes {op : Op} {value : UInt8} (hop : op.pushed? r = some value) (ea : Option UInt16) :
      Acts r op ea [.write (stackCell r.sp) value]
  | pulls {op : Op} (hop : op ∈ Op.pulls) (ea : Option UInt16) (value : UInt8) :
      Acts r op ea [.read (stackCell (r.sp + 1)) value]
  | jsr (ea : Option UInt16) :
      Acts r .jsr ea
        [.write (stackCell r.sp) (highByte (r.pc + 2)),
          .write (stackCell (r.sp - 1)) (lowByte (r.pc + 2))]
  | rts (ea : Option UInt16) (low high : UInt8) :
      Acts r .rts ea
        [.read (stackCell (r.sp + 1)) low, .read (stackCell (r.sp + 2)) high]
  | rti (ea : Option UInt16) (status low high : UInt8) :
      Acts r .rti ea
        [.read (stackCell (r.sp + 1)) status, .read (stackCell (r.sp + 2)) low,
          .read (stackCell (r.sp + 3)) high]
  | brk (ea : Option UInt16) (low high : UInt8) :
      Acts r .brk ea
        [.write (stackCell r.sp) (highByte (r.pc + 2)),
          .write (stackCell (r.sp - 1)) (lowByte (r.pc + 2)),
          .write (stackCell (r.sp - 2)) (r.status.pushed true),
          .read 0xFFFE low, .read 0xFFFF high]
  | silent {op : Op} (hop : op ∈ Op.silent) (ea : Option UInt16) : Acts r op ea []

/-- The rows of the opcode table pair operations with modes that suit them. -/
theorem goesWith_lookup (opcode : UInt8) :
    (lookup opcode).op.goesWith (lookup opcode).mode = true := by
  have all : ∀ i : Fin 256,
      (lookup (UInt8.ofFin i)).op.goesWith (lookup (UInt8.ofFin i)).mode = true := by
    decide +kernel
  exact all opcode.toFin

namespace Cpu

section Performing

variable {β : Type v} [Bus β] {d : Cpu} {ea : UInt16}

theorem operandAddress?_eq_some_iff :
    d.operandAddress? = some ea ↔
      d.latches.mode ≠ .implied ∧ d.latches.mode ≠ .relative ∧ d.latches.address = ea := by
  rw [operandAddress?]
  cases d.latches.mode <;> simp

theorem accesses_load (hea : d.operandAddress? = some ea) (bus : β)
    (result : Registers → UInt8 → Registers) :
    (d.perform (.load result)).accesses bus = [.read ea (Bus.read bus ea).1] := by
  obtain ⟨hmode, -, rfl⟩ := operandAddress?_eq_some_iff.1 hea
  rw [perform, loadOperand, if_neg hmode]
  rfl

theorem accesses_modify (hea : d.operandAddress? = some ea) (bus : β)
    (result : Registers → UInt8 → UInt8 × Registers) :
    (d.perform (.modify result)).accesses bus =
      [.read ea (Bus.read bus ea).1, .write ea (result d.regs (Bus.read bus ea).1).1] := by
  obtain ⟨hmode, -, rfl⟩ := operandAddress?_eq_some_iff.1 hea
  simp [perform, loadOperand, storeOperand, hmode, Program.readByte, Program.writeByte,
    Program.accesses]

theorem accesses_modify_implied (hmode : d.latches.mode = .implied) (bus : β)
    (result : Registers → UInt8 → UInt8 × Registers) :
    (d.perform (.modify result)).accesses bus = [] := by
  rw [perform, loadOperand, if_pos hmode]
  simp [storeOperand, hmode, Program.accesses]

/-- An operation that needs its operand in memory has it there. -/
theorem exists_operandAddress (h : d.latches.mode ≠ .implied ∧ d.latches.mode ≠ .relative) :
    ∃ ea, d.operandAddress? = some ea :=
  ⟨d.latches.address, operandAddress?_eq_some_iff.2 ⟨h.1, h.2, rfl⟩⟩

/-- The action of an operation makes the accesses of the operation, where `r` are the registers
before the instruction. -/
theorem acts_perform (bus : β) {r : Registers} {op : Op}
    (hregs : d.regs = { r with
      pc := r.pc + 1 + UInt16.ofNat d.latches.mode.operandLength, status.unused := true })
    (hpair : op.goesWith d.latches.mode = true) :
    Acts r op d.operandAddress? ((d.perform op.action).accesses bus) := by
  cases op with
  | adc | sbc | and | ora | eor | bit | cmp | cpx | cpy | lda | ldx | ldy =>
    obtain ⟨ea, hea⟩ := exists_operandAddress (of_decide_eq_true hpair)
    rw [hea, Op.action, accesses_load hea]
    exact .reads (by decide) _ _
  | inc | dec =>
    obtain ⟨ea, hea⟩ := exists_operandAddress (of_decide_eq_true hpair)
    rw [hea, Op.action, accesses_modify hea]
    exact .rewrites rfl _
  | asl | lsr | rol | ror =>
    by_cases himplied : d.latches.mode = .implied
    · have hea : d.operandAddress? = none := by rw [operandAddress?, himplied]
      rw [hea, Op.action, accesses_modify_implied himplied]
      exact .rewritesA (by decide)
    · obtain ⟨ea, hea⟩ := exists_operandAddress ⟨himplied, of_decide_eq_true hpair⟩
      rw [hea, Op.action, accesses_modify hea, hregs]
      exact .rewrites rfl _
  | sta | stx | sty =>
    obtain ⟨ea, hea⟩ := exists_operandAddress (of_decide_eq_true hpair)
    obtain ⟨-, -, rfl⟩ := operandAddress?_eq_some_iff.1 hea
    rw [hea, Op.action, perform, hregs]
    exact .stores rfl _
  | pha | php =>
    rw [Op.action, perform, push, hregs]
    exact .pushes rfl _
  | pla | plp =>
    rw [Op.action, perform, pull, hregs]
    exact .pulls (by decide) _ _
  | jsr =>
    have hmode : d.latches.mode = .absolute := of_decide_eq_true hpair
    have hback : r.pc + 1 + UInt16.ofNat d.latches.mode.operandLength - 1 = r.pc + 2 := by
      rw [hmode]
      show r.pc + 1 + 2 - 1 = r.pc + 2
      grind
    rw [Op.action, perform, pushWord, push, hregs, hback]
    exact .jsr _
  | rts =>
    have htwo : r.sp + 1 + 1 = r.sp + 2 := by grind
    rw [Op.action, perform]
    simp only [pullWord, pull, hregs]
    show Acts r .rts _ [.read (stackCell (r.sp + 1)) _, .read (stackCell (r.sp + 1 + 1)) _]
    rw [htwo]
    exact .rts _ _ _
  | rti =>
    have htwo : r.sp + 1 + 1 = r.sp + 2 := by grind
    have hthree : r.sp + 2 + 1 = r.sp + 3 := by grind
    rw [Op.action, perform]
    simp only [pull, pullWord, hregs]
    show Acts r .rti _ [.read (stackCell (r.sp + 1)) _, .read (stackCell (r.sp + 1 + 1)) _,
      .read (stackCell (r.sp + 1 + 1 + 1)) _]
    rw [htwo, hthree]
    exact .rti _ _ _ _
  | brk =>
    have hmode : d.latches.mode = .immediate := of_decide_eq_true hpair
    have hback : r.pc + 1 + UInt16.ofNat d.latches.mode.operandLength = r.pc + 2 := by
      rw [hmode]
      show r.pc + 1 + 1 = r.pc + 2
      grind
    have htwo : r.sp - 1 - 1 = r.sp - 2 := by grind
    rw [Op.action, perform, enterHandler, pushWord, push, hregs, hback]
    show Acts r .brk _ [.write (stackCell r.sp) (highByte (r.pc + 2)),
      .write (stackCell (r.sp - 1)) (lowByte (r.pc + 2)),
      .write (stackCell (r.sp - 1 - 1)) (r.status.pushed true), .read 0xFFFE _, .read 0xFFFF _]
    rw [htwo]
    exact .brk _ _ _
  | _ => exact .silent (by decide) _

end Performing

/-! ## Steps -/

section Step

variable {β : Type v} [Bus β]

/-- A step makes exactly the accesses of its instruction: it fetches the opcode, makes the reads of
the addressing mode and then the accesses of the operation, and the bus takes these in this order.
-/
def MakesExactly (c : Cpu) (bus : β) : Prop :=
  ∃ (opcode : UInt8) (finding acting : List Access) (ea : Option UInt16),
    c.step.accesses bus = .read c.regs.pc opcode :: (finding ++ acting) ∧
      Finds (c.regs.pc + 1) c.regs.x c.regs.y (lookup opcode).mode finding ea ∧
      Acts c.regs (lookup opcode).op ea acting ∧
      Bus.Takes bus (c.step.accesses bus) (c.step.run bus).2

/-- A step from an instruction boundary makes exactly the accesses of the instruction at the program
counter, on any bus and from any registers. -/
theorem step_makes_exactly (c : Cpu) (hc : c.complete = true) (bus : β) : c.MakesExactly bus := by
  -- What the bus returns at the program counter is the opcode; the rest runs on the bus after it.
  let opcode := (Bus.read bus c.regs.pc).1
  let afterOpcode := (Bus.read bus c.regs.pc).2
  let finding := (c.started opcode).resolve (lookup opcode).mode
  let found := (finding.run afterOpcode).1.2
  obtain ⟨hregs, -, hmode⟩ :=
    (returns_resolve (c.started opcode) (lookup opcode).mode).run afterOpcode
  have hfinds := finds_resolve (c.started opcode) afterOpcode
    (rfl : (c.started opcode).latches.mode = (lookup opcode).mode)
  have hfound : found.latches.mode = (lookup opcode).mode := hmode
  have hacts : Acts c.regs (lookup opcode).op found.operandAddress?
      ((found.perform (lookup opcode).op.action).accesses (finding.run afterOpcode).2) := by
    apply acts_perform
    · rw [hfound]
      exact hregs
    · rw [hfound]
      exact goesWith_lookup opcode
  refine ⟨opcode, finding.accesses afterOpcode, _, found.operandAddress?, ?_, hfinds, hacts,
    c.step.takes bus⟩
  rw [accesses_step hc, accesses_begin]

end Step

/-- A subtraction reads its pointer around the end of page zero, low byte at `00FF` and high byte at
`0000`, and with Y added it finds its operand around the end of memory. -/
theorem step_makes_exactly_wrapped_pointer :
    let memory := (((FlatMemory.zero.write 0x0010 0xF1).write 0x0011 0xFF).write 0x00FF 0xF0).write
      0x0000 0xFF
    let c : Cpu := { Cpu.powerOn with regs.pc := 0x0010, regs.y := 0x21 }
    c.complete = true ∧ c.MakesExactly memory ∧
      c.step.accesses memory = [.read 0x0010 0xF1, .read 0x0011 0xFF, .read 0x00FF 0xF0,
        .read 0x0000 0xFF, .read 0x0011 0xFF] := by
  intro memory c
  exact ⟨rfl, step_makes_exactly c rfl memory, by decide +kernel⟩

end Cpu

end NesMachine
