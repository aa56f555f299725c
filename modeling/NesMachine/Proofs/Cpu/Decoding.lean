import NesMachine.Disassembly
import NesMachine.Proofs.Cpu.Control
import NesMachine.Proofs.Text.Numeral
import NesMachine.Proofs.Wiring.Reference

/-!
# The disassembler and the processor agree

What is decoded at the program counter tells what the next step does (`Cpu.step_follows_decodeAt`):
which bytes the instruction takes, which opcode the processor holds afterwards, where it goes on,
and which addresses a call and a break put on the stack. The bus is any one whose reads are peeks;
the decoder looks at it and the step runs on it.
-/

set_option autoImplicit false

namespace NesMachine

universe v

/-! ## Decoded instructions -/

theorem operand_decodeAt_word {memory : UInt16 → UInt8} {addr : UInt16}
    (h : (lookup (memory addr)).mode.operandLength = 2) :
    (decodeAt memory addr).operand = word (memory (addr + 1)) (memory (addr + 2)) := by
  simp only [decodeAt, h]

/-- An instruction with a byte as operand has the byte behind the opcode as low byte of the
operand. -/
theorem lowByte_operand_decodeAt {memory : UInt16 → UInt8} {addr : UInt16}
    (h : (lookup (memory addr)).mode.operandLength = 1) :
    lowByte (decodeAt memory addr).operand = memory (addr + 1) := by
  simp only [decodeAt, h, lowByte_word]

theorem operandLength_cases (mode : AddressingMode) :
    mode.operandLength = 0 ∨ mode.operandLength = 1 ∨ mode.operandLength = 2 := by
  cases mode <;> decide

theorem bytes_decodeAt (memory : UInt16 → UInt8) (addr : UInt16) :
    (decodeAt memory addr).bytes =
      (List.range (decodeAt memory addr).size).map fun i => memory (addr + UInt16.ofNat i) := by
  have hinstruction : (decodeAt memory addr).instruction = lookup (memory addr) := rfl
  have hopcode : (decodeAt memory addr).opcode = memory addr := rfl
  rw [Decoded.size, Instruction.size, Decoded.bytes, hinstruction, hopcode]
  rcases operandLength_cases (lookup (memory addr)).mode with hnone | hbyte | hword
  · simp [hnone]
  · simp [hbyte, lowByte_operand_decodeAt hbyte, List.range_succ]
  · simp [hword, operand_decodeAt_word hword, List.range_succ]

/-! ## Operations that set the program counter -/

namespace Op

/-- When an operation takes a branch. -/
def takesBranch : Op → Status → Bool
  | .bcc, s => !s.carry
  | .bcs, s => s.carry
  | .bne, s => !s.zero
  | .beq, s => s.zero
  | .bpl, s => !s.negative
  | .bmi, s => s.negative
  | .bvc, s => !s.overflow
  | .bvs, s => s.overflow
  | _, _ => false

/-- The operations besides branches that set the program counter. -/
def leaps : List Op :=
  [.jmp, .jsr, .rts, .rti, .brk]

/-- The action of an operation branches, leaps or leaves the program counter. -/
theorem action_cases (op : Op) :
    op.action = .branch op.takesBranch ∨ op ∈ leaps ∨
      op.action.setsPc = false ∧ ∀ s, op.takesBranch s = false := by
  cases op <;> first
    | exact .inl (congrArg Action.branch (funext fun _ => rfl))
    | exact .inr (.inl (by decide))
    | exact .inr (.inr ⟨rfl, fun _ => rfl⟩)

/-- The operations that branch. -/
def branches : List Op :=
  [.bcc, .bcs, .bne, .beq, .bpl, .bmi, .bvc, .bvs]

theorem mem_branches_of_takesBranch {op : Op} {s : Status} (h : op.takesBranch s = true) :
    op ∈ branches := by
  cases op <;> first | decide | cases h

theorem action_of_mem_branches {op : Op} (h : op ∈ branches) :
    op.action = .branch op.takesBranch := by
  rcases op.action_cases with hbranch | hleap | ⟨hsets, -⟩
  · exact hbranch
  · cases op <;> first | exact absurd h (by decide) | exact absurd hleap (by decide)
  · cases op <;> first | exact absurd h (by decide) | cases hsets

end Op

/-- The addressing modes of the operations that set the program counter. -/
theorem modes_lookup (opcode : UInt8) :
    ((lookup opcode).op ∈ Op.branches → (lookup opcode).mode = .relative) ∧
      ((lookup opcode).op = .jmp → (lookup opcode).mode = .absolute ∨
        (lookup opcode).mode = .indirect) ∧
      ((lookup opcode).op = .jsr → (lookup opcode).mode = .absolute) := by
  have all : ∀ i : Fin 256,
      ((lookup (UInt8.ofFin i)).op ∈ Op.branches → (lookup (UInt8.ofFin i)).mode = .relative) ∧
        ((lookup (UInt8.ofFin i)).op = .jmp → (lookup (UInt8.ofFin i)).mode = .absolute ∨
          (lookup (UInt8.ofFin i)).mode = .indirect) ∧
        ((lookup (UInt8.ofFin i)).op = .jsr → (lookup (UInt8.ofFin i)).mode = .absolute) := by
    decide +kernel
  exact all opcode.toFin

/-! ## The instruction at the program counter -/

namespace Cpu

section Step

variable {β : Type v} [Bus β] {c : Cpu} {bus : β}

/-- The processor when the operand of the instruction at the program counter has been found in a
view of the memory. -/
def located (c : Cpu) (memory : UInt16 → UInt8) : Cpu :=
  (((c.started (memory c.regs.pc)).resolve (lookup (memory c.regs.pc)).mode).view memory).2

/-- When the operand is found, the program counter is behind the instruction. -/
theorem regs_located (c : Cpu) (memory : UInt16 → UInt8) :
    (c.located memory).regs =
      { c.regs with
        pc := c.regs.pc + UInt16.ofNat (decodeAt memory c.regs.pc).size
        status.unused := true } := by
  have hfound := (returns_resolve (c.started (memory c.regs.pc))
    (lookup (memory c.regs.pc)).mode).view memory
  have hsize : UInt16.ofNat (decodeAt memory c.regs.pc).size =
      1 + UInt16.ofNat (lookup (memory c.regs.pc)).mode.operandLength := UInt16.ofNat_add ..
  rw [located, hfound.1, hsize, ← UInt16.add_assoc]
  rfl

theorem opcode_located (c : Cpu) (memory : UInt16 → UInt8) :
    (c.located memory).opcode = memory c.regs.pc :=
  ((returns_resolve (c.started (memory c.regs.pc))
    (lookup (memory c.regs.pc)).mode).view memory).2.1

/-- A step from a boundary carries out the action of the decoded instruction. -/
theorem step_of_readsArePeeks (hbus : Bus.ReadsArePeeks bus) (hc : c.complete = true) :
    let d := decodeAt (Bus.peek bus) c.regs.pc
    let ended := (c.located (Bus.peek bus)).perform d.instruction.op.action
    ∃ later : β,
      (c.step.run bus).1.2.regs = (ended.run later).1.regs ∧
        (c.step.run bus).1.2.opcode = (ended.run later).1.opcode ∧
        (c.step.accesses bus).filter Access.isWrite =
          (ended.accesses later).filter Access.isWrite := by
  intro d ended
  obtain ⟨later, hrun, hwrites⟩ := begin_of_readsArePeeks c hbus
  refine ⟨later, ?_, ?_, ?_⟩
  · rw [regs_step hc, hrun]
    rfl
  · rw [opcode_step hc, hrun]
    rfl
  · rw [accesses_step hc]
    exact hwrites

/-- Conditions of branches do not look at the bit that fetching sets. -/
theorem takesBranch_unused (op : Op) (s : Status) :
    op.takesBranch { s with unused := true } = op.takesBranch s := by
  cases op <;> rfl

/-- What the decoded instruction at the program counter tells about a step: `memory` is what the
decoder sees, and `writes` are the writes of the step. -/
structure Follows (d : Decoded) (memory : UInt16 → UInt8) (before after : Cpu)
    (writes : List Access) : Prop where
  /-- The bytes are those in memory from the program counter on. -/
  bytes_eq : d.bytes =
    (List.range d.size).map fun i => memory (before.regs.pc + UInt16.ofNat i)
  /-- The step executes the opcode. -/
  opcode_eq : after.opcode = d.opcode
  /-- Without a taken branch or a leap the next instruction is the one behind. -/
  pc_next : d.instruction.op.takesBranch before.regs.status = false →
    d.instruction.op ∉ Op.leaps → after.regs.pc = before.regs.pc + UInt16.ofNat d.size
  /-- A taken branch goes to the address in the text of its operand. -/
  pc_branch : d.instruction.op.takesBranch before.regs.status = true →
    d.operandText = "$" ++ Text.Hex.wordText after.regs.pc ∧
      Text.readAddress d.operandText = .ok after.regs.pc
  /-- A jump is absolute or indirect. -/
  jump_mode : d.instruction.op = .jmp →
    d.instruction.mode = .absolute ∨ d.instruction.mode = .indirect
  /-- An absolute jump goes to its operand. -/
  pc_jump : d.instruction.op = .jmp → d.instruction.mode = .absolute →
    after.regs.pc = d.operand
  /-- An indirect jump goes to the word at its operand, which is read within one page. -/
  pc_jumpIndirect : d.instruction.op = .jmp → d.instruction.mode = .indirect →
    after.regs.pc = word (memory d.operand)
      (memory (word (lowByte d.operand + 1) (highByte d.operand)))
  /-- A call goes to its operand. -/
  pc_call : d.instruction.op = .jsr → after.regs.pc = d.operand
  /-- A call saves the address of its own last byte. -/
  writes_call : d.instruction.op = .jsr →
    writes = wordPushed before.regs.sp (before.regs.pc + UInt16.ofNat d.size - 1)
  /-- A break saves the address behind it, and then the status. -/
  writes_break : d.instruction.op = .brk → ∃ status,
    writes = wordPushed before.regs.sp (before.regs.pc + UInt16.ofNat d.size) ++
      [.write (stackCell (before.regs.sp - 2)) status]

/-- Without a taken branch or a leap the program counter ends behind the instruction. -/
theorem pc_step_of_next (hbus : Bus.ReadsArePeeks bus) (hc : c.complete = true) :
    let d := decodeAt (Bus.peek bus) c.regs.pc
    d.instruction.op.takesBranch c.regs.status = false → d.instruction.op ∉ Op.leaps →
      (c.step.run bus).1.2.regs.pc = c.regs.pc + UInt16.ofNat d.size := by
  intro d hstay hleap
  obtain ⟨later, hregs, -, -⟩ := step_of_readsArePeeks hbus hc
  have hlocated := regs_located c (Bus.peek bus)
  rw [hregs]
  rcases d.instruction.op.action_cases with hbranch | hmem | ⟨hsets, -⟩
  · -- A branch that is not taken.
    have hcondition : d.instruction.op.takesBranch (c.located (Bus.peek bus)).regs.status =
        false := by
      rw [hlocated, takesBranch_unused, hstay]
    rw [hbranch, perform, hcondition]
    show (c.located (Bus.peek bus)).regs.pc = _
    rw [hlocated]
  · exact absurd hmem hleap
  · -- An operation whose action never sets the program counter.
    have hpc := (returns_perform_pc (c.located (Bus.peek bus)) hsets
      d.instruction.op.keeps_pc).run later
    rw [hpc, hlocated]

/-- A taken branch goes to its target. -/
theorem pc_step_of_branch (hbus : Bus.ReadsArePeeks bus) (hc : c.complete = true) :
    let d := decodeAt (Bus.peek bus) c.regs.pc
    d.instruction.op.takesBranch c.regs.status = true →
      (c.step.run bus).1.2.regs.pc = d.branchTarget := by
  intro d htaken
  obtain ⟨later, hregs, -, -⟩ := step_of_readsArePeeks hbus hc
  have hlocated := regs_located c (Bus.peek bus)
  have hmem := Op.mem_branches_of_takesBranch htaken
  have hmode : (lookup (Bus.peek bus c.regs.pc)).mode = .relative := (modes_lookup _).1 hmem
  -- Fetching changes the status, but no bit that a branch looks at.
  have hcondition : d.instruction.op.takesBranch (c.located (Bus.peek bus)).regs.status =
      true := by
    rw [hlocated, takesBranch_unused, htaken]
  have hdistance : (c.located (Bus.peek bus)).latches.displacement =
      signExtend (lowByte d.operand) := by
    rw [located, hmode, displacement_view_relative, lowByte_operand_decodeAt (by rw [hmode]; rfl)]
    rfl
  -- The distance counts from behind the instruction, which takes two bytes.
  have hsize : d.size = 2 := by
    show 1 + (lookup (Bus.peek bus c.regs.pc)).mode.operandLength = 2
    rw [hmode]
    rfl
  rw [hregs, Op.action_of_mem_branches hmem, perform, hcondition]
  show (c.located (Bus.peek bus)).regs.pc + (c.located (Bus.peek bus)).latches.displacement = _
  rw [hdistance, hlocated, Decoded.branchTarget]
  show c.regs.pc + UInt16.ofNat d.size + _ = _
  rw [hsize]
  rfl

/-- The text of the operand of a branch is its target. -/
theorem operandText_of_branch {d : Decoded} (h : d.instruction.mode = .relative) :
    d.operandText = "$" ++ Text.Hex.wordText d.branchTarget ∧
      Text.readAddress d.operandText = .ok d.branchTarget := by
  have htext : d.operandText = String.ofList ('$' :: Text.Hex.ofWord d.branchTarget) := by
    rw [Decoded.operandText, Decoded.operandChars, h]
  refine ⟨?_, ?_⟩
  · rw [htext, Text.Hex.wordText]
    have happend : String.ofList (['$'] ++ Text.Hex.ofWord d.branchTarget) =
        String.ofList ['$'] ++ String.ofList (Text.Hex.ofWord d.branchTarget) :=
      String.ofList_append
    exact happend
  · rw [htext]
    exact Text.readAddress_marked _

theorem address_located_absolute {memory : UInt16 → UInt8}
    (hmode : (lookup (memory c.regs.pc)).mode = .absolute) :
    (c.located memory).latches.address = (decodeAt memory c.regs.pc).operand := by
  rw [located, hmode, address_view_absolute, operand_decodeAt_word (by rw [hmode]; rfl)]
  show word (memory (c.regs.pc + 1)) (memory (c.regs.pc + 1 + 1)) = _
  rw [UInt16.add_assoc]
  rfl

/-- In the indirect mode the operand is found at the address that the code points to. -/
theorem address_located_indirect {memory : UInt16 → UInt8}
    (hmode : (lookup (memory c.regs.pc)).mode = .indirect) :
    (c.located memory).latches.address =
      let pointer := (decodeAt memory c.regs.pc).operand
      word (memory pointer) (memory (word (lowByte pointer + 1) (highByte pointer))) := by
  have hpointer : (decodeAt memory c.regs.pc).operand =
      word (memory (c.regs.pc + 1)) (memory (c.regs.pc + 1 + 1)) := by
    rw [operand_decodeAt_word (by rw [hmode]; rfl), UInt16.add_assoc]
    rfl
  rw [located, hmode, address_view_indirect, hpointer]
  rfl

theorem pc_step_of_jump (hbus : Bus.ReadsArePeeks bus) (hc : c.complete = true)
    (hop : (decodeAt (Bus.peek bus) c.regs.pc).instruction.op = .jmp) :
    (c.step.run bus).1.2.regs.pc = (c.located (Bus.peek bus)).latches.address := by
  obtain ⟨later, hregs, -, -⟩ := step_of_readsArePeeks hbus hc
  rw [hregs, hop]
  rfl

/-- A call goes to the address of its operand and saves that of its own last byte. -/
theorem step_of_call (hbus : Bus.ReadsArePeeks bus) (hc : c.complete = true)
    (hop : (decodeAt (Bus.peek bus) c.regs.pc).instruction.op = .jsr) :
    (c.step.run bus).1.2.regs.pc = (decodeAt (Bus.peek bus) c.regs.pc).operand ∧
      (c.step.accesses bus).filter Access.isWrite = wordPushed c.regs.sp
        (c.regs.pc + UInt16.ofNat (decodeAt (Bus.peek bus) c.regs.pc).size - 1) := by
  obtain ⟨later, hregs, -, hwrites⟩ := step_of_readsArePeeks hbus hc
  have hmode : (lookup (Bus.peek bus c.regs.pc)).mode = .absolute := (modes_lookup _).2.2 hop
  refine ⟨?_, ?_⟩
  · rw [hregs, hop, ← address_located_absolute hmode]
    rfl
  · rw [hwrites, hop]
    show ((c.located (Bus.peek bus)).perform .jumpSaving |>.accesses later).filter _ = _
    rw [writes_jumpSaving, regs_located]

/-- A break saves the address behind it and the status. -/
theorem writes_step_of_break (hbus : Bus.ReadsArePeeks bus) (hc : c.complete = true)
    (hop : (decodeAt (Bus.peek bus) c.regs.pc).instruction.op = .brk) :
    ∃ status, (c.step.accesses bus).filter Access.isWrite =
      wordPushed c.regs.sp
          (c.regs.pc + UInt16.ofNat (decodeAt (Bus.peek bus) c.regs.pc).size) ++
        [.write (stackCell (c.regs.sp - 2)) status] := by
  obtain ⟨later, -, -, hwrites⟩ := step_of_readsArePeeks hbus hc
  refine ⟨(c.located (Bus.peek bus)).regs.status.pushed true, ?_⟩
  rw [hwrites, hop]
  show ((c.located (Bus.peek bus)).perform .softwareBreak |>.accesses later).filter _ = _
  have hsp : c.regs.sp - 1 - 1 = c.regs.sp - 2 := by grind
  rw [writes_softwareBreak, regs_located, hsp]

theorem opcode_step_eq (hbus : Bus.ReadsArePeeks bus) (hc : c.complete = true) :
    (c.step.run bus).1.2.opcode = (decodeAt (Bus.peek bus) c.regs.pc).opcode := by
  obtain ⟨later, -, hopcode, -⟩ := step_of_readsArePeeks hbus hc
  rw [hopcode, (returns_perform_opcode _ _).run later, opcode_located]
  rfl

/-- A step does what the decoded instruction at the program counter tells. -/
def StepFollows (c : Cpu) (bus : β) : Prop :=
  Follows (decodeAt (Bus.peek bus) c.regs.pc) (Bus.peek bus) c (c.step.run bus).1.2
    ((c.step.accesses bus).filter Access.isWrite)

/-- On a bus whose reads are peeks, a step from a boundary follows the decoder. -/
theorem stepFollows_of_readsArePeeks (hbus : Bus.ReadsArePeeks bus) (hc : c.complete = true) :
    StepFollows c bus where
  bytes_eq := bytes_decodeAt _ _
  opcode_eq := opcode_step_eq hbus hc
  pc_next := pc_step_of_next hbus hc
  pc_branch htaken := by
    have hmode := (modes_lookup _).1 (Op.mem_branches_of_takesBranch htaken)
    rw [pc_step_of_branch hbus hc htaken]
    exact operandText_of_branch hmode
  jump_mode := (modes_lookup _).2.1
  pc_jump hop hmode := (pc_step_of_jump hbus hc hop).trans (address_located_absolute hmode)
  pc_jumpIndirect hop hmode :=
    (pc_step_of_jump hbus hc hop).trans (address_located_indirect hmode)
  pc_call hop := (step_of_call hbus hc hop).1
  writes_call hop := (step_of_call hbus hc hop).2
  writes_break hop := writes_step_of_break hbus hc hop

end Step

/-- A step from an instruction boundary follows the decoder on every bus whose reads are peeks:
among them flat memory, and the processor's bus of any accepted cartridge after any calls. -/
theorem step_follows_decodeAt (c : Cpu) (hc : c.complete = true) :
    (∀ {β : Type v} [Bus β] (bus : β), Bus.ReadsArePeeks bus → StepFollows c bus) ∧
      (∀ memory : FlatMemory, StepFollows c memory) ∧
      ∀ {image : Array UInt8} {cartridge : Cartridge}, Cartridge.ofImage image = .ok cartridge →
        ∀ past : List BusCall, StepFollows c (Bus.afterCalls
          (Board.ofSpace (some cartridge) (.mapped (Wiring.referenceBus cartridge))) past) := by
  refine ⟨fun bus hbus => stepFollows_of_readsArePeeks hbus hc,
    fun memory => stepFollows_of_readsArePeeks memory.readsArePeeks hc,
    fun hcartridge past => stepFollows_of_readsArePeeks ?_ hc⟩
  have hboard := Wiring.ReferenceBoard.afterCalls hcartridge past
  exact Bus.readsArePeeks_of_read_eq hboard.read_eq

/-- A break at the top of zeroed memory takes its second byte from the bottom and saves the address
behind it. -/
theorem break_at_top_of_memory :
    let c : Cpu := { Cpu.powerOn with regs.pc := 0xFFFF, regs.sp := 0xFD }
    c.complete = true ∧ StepFollows c FlatMemory.zero ∧
      ∃ status, (c.step.accesses FlatMemory.zero).filter Access.isWrite =
        [.write 0x01FD 0x00, .write 0x01FC 0x01, .write 0x01FB status] := by
  intro c
  have hstep := (step_follows_decodeAt.{0} c rfl).2.1 FlatMemory.zero
  have hop : (decodeAt (Bus.peek FlatMemory.zero) c.regs.pc).instruction = lookup 0 :=
    congrArg lookup (FlatMemory.peek_zero _)
  obtain ⟨status, hwrites⟩ := hstep.writes_break (by rw [hop]; rfl)
  have hpushed : wordPushed 0xFD (0xFFFF + UInt16.ofNat (lookup 0).size) =
      [.write 0x01FD 0x00, .write 0x01FC 0x01] := by decide
  have hcell : stackCell (0xFD - 2) = 0x01FB := by decide
  refine ⟨rfl, hstep, status, ?_⟩
  rw [hwrites, Decoded.size, hop, hpushed, hcell]
  rfl

end Cpu

end NesMachine
