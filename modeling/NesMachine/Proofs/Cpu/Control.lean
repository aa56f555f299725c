import NesMachine.Proofs.Cpu.Boundary

/-!
# The program counter during an instruction

The addressing mode moves the program counter past the operand and changes no other register
(`returns_resolve`). After that only branches, jumps, returns and breaks set it: every other
operation leaves it (`returns_perform_pc`). What a jump to a subroutine and a software break put on
the stack is read off their accesses (`writes_jumpSaving`, `writes_softwareBreak`).

On a bus whose reads are peeks, the operand is found without the bus (`begin_of_readsArePeeks`).
-/

set_option autoImplicit false

namespace NesMachine

universe v

open Program

/-! ## Finding the operand -/

namespace Cpu

/-- The byte behind the low byte of a pointer is on the pointer's page. -/
theorem readWordInPage_word (low high : UInt8) :
    readWordInPage (word low high) = (do
      let first ← Program.readByte (word low high)
      let second ← Program.readByte (word (low + 1) high)
      return word first second) := by
  rw [readWordInPage, lowByte_word, highByte_word]

theorem readsOnly_resolve (c : Cpu) (mode : AddressingMode) : (c.resolve mode).ReadsOnly := by
  cases mode <;>
    simp [resolve, fetchByte, fetchWord, readWordInPage, readByte, ReadsOnly]

/-- The program counter moves past the operand; the other registers, the opcode and the mode of the
instruction stay. -/
theorem returns_resolve (c : Cpu) (mode : AddressingMode) :
    (c.resolve mode).Returns fun found =>
      found.2.regs = { c.regs with pc := c.regs.pc + UInt16.ofNat mode.operandLength } ∧
        found.2.opcode = c.opcode ∧ found.2.latches.mode = c.latches.mode := by
  cases mode <;>
    simp [resolve, fetchByte, fetchWord, readWordInPage, readByte, Returns, aim, aimIndexed,
      AddressingMode.operandLength, UInt16.add_assoc]

theorem address_view_absolute (c : Cpu) (memory : UInt16 → UInt8) :
    ((c.resolve .absolute).view memory).2.latches.address =
      word (memory c.regs.pc) (memory (c.regs.pc + 1)) :=
  rfl

theorem address_view_indirect (c : Cpu) (memory : UInt16 → UInt8) :
    ((c.resolve .indirect).view memory).2.latches.address =
      let pointer := word (memory c.regs.pc) (memory (c.regs.pc + 1))
      word (memory pointer) (memory (word (lowByte pointer + 1) (highByte pointer))) :=
  rfl

theorem displacement_view_relative (c : Cpu) (memory : UInt16 → UInt8) :
    ((c.resolve .relative).view memory).2.latches.displacement =
      signExtend (memory c.regs.pc) :=
  rfl

end Cpu

/-! ## Operations that leave the program counter -/

/-- Whether an action sets the program counter. -/
def Action.setsPc : Action → Bool
  | .branch _ | .jump | .jumpSaving | .comeBack | .comeBackFromHandler | .softwareBreak => true
  | _ => false

/-- The functions of an action on the registers leave a part of them alone. -/
def Action.Keeps {γ : Type} (field : Registers → γ) : Action → Prop
  | .load result | .pull result => ∀ r value, field (result r value) = field r
  | .modify result => ∀ r value, field (result r value).2 = field r
  | .internal result => ∀ r, field (result r) = field r
  | _ => True

/-- No operation computes on the program counter. -/
theorem Op.keeps_pc (op : Op) : op.action.Keeps Registers.pc := by
  cases op <;>
    simp [action, Action.Keeps, Registers.setA, Registers.setX, Registers.setY,
      Registers.withResult, Registers.adc, Registers.sbc, Registers.compare, Registers.bitTest,
      Registers.withCarry, Registers.asl, Registers.lsr, Registers.rol, Registers.ror,
      Registers.inc, Registers.dec, Registers.yield]

namespace Cpu

/-- An action that does not set the program counter leaves it. -/
theorem returns_perform_pc (c : Cpu) {a : Action} (ha : a.setsPc = false)
    (hkeeps : a.Keeps Registers.pc) :
    (c.perform a).Returns fun ended => ended.regs.pc = c.regs.pc := by
  cases a with
  | load result =>
    have hresult := hkeeps c.regs
    by_cases hmode : c.latches.mode = .implied <;>
      simp [perform, loadOperand, hmode, readByte, Returns, hresult]
  | modify result =>
    have hresult := hkeeps c.regs
    by_cases hmode : c.latches.mode = .implied <;>
      simp [perform, loadOperand, storeOperand, hmode, readByte, writeByte, Returns, hresult]
  | pull result =>
    have hresult := hkeeps { c.regs with sp := c.regs.sp + 1 }
    simp [perform, pull, readByte, Returns, hresult]
  | internal result => exact hkeeps c.regs
  | store value => exact rfl
  | push value => exact rfl
  | branch | jump | jumpSaving | comeBack | comeBackFromHandler | softwareBreak => cases ha

theorem opcode_branch (c : Cpu) (taken : Bool) : (c.branch taken).opcode = c.opcode := by
  cases taken <;> rfl

/-- No action changes the opcode. -/
theorem returns_perform_opcode (c : Cpu) (a : Action) :
    (c.perform a).Returns fun ended => ended.opcode = c.opcode := by
  cases a with
  | load result =>
    by_cases hmode : c.latches.mode = .implied <;>
      simp [perform, loadOperand, hmode, readByte, Returns]
  | modify result =>
    by_cases hmode : c.latches.mode = .implied <;>
      simp [perform, loadOperand, storeOperand, hmode, readByte, writeByte, Returns]
  | branch taken => exact opcode_branch c _
  | _ =>
    simp [perform, push, pull, pushWord, pullWord, enterHandler, readWord, readByte, writeByte,
      Returns]

/-! ## Saved addresses -/

/-- The writes that save a word on the stack. -/
def wordPushed (sp : UInt8) (value : UInt16) : List Access :=
  [.write (stackCell sp) (highByte value), .write (stackCell (sp - 1)) (lowByte value)]

section Saving

variable {β : Type v} [Bus β]

/-- A jump to a subroutine saves the address before the next instruction. -/
theorem writes_jumpSaving (c : Cpu) (bus : β) :
    ((c.perform .jumpSaving).accesses bus).filter Access.isWrite =
      wordPushed c.regs.sp (c.regs.pc - 1) :=
  rfl

/-- A software break saves the program counter and the status, marked as pushed by an
instruction. -/
theorem writes_softwareBreak (c : Cpu) (bus : β) :
    ((c.perform .softwareBreak).accesses bus).filter Access.isWrite =
      wordPushed c.regs.sp c.regs.pc ++
        [.write (stackCell (c.regs.sp - 1 - 1)) (c.regs.status.pushed true)] :=
  rfl

/-! ## One instruction -/

/-- On a bus whose reads are peeks, an instruction is its action on the operand that the view of the
memory gives, on what is then the bus. -/
theorem begin_of_readsArePeeks (c : Cpu) {bus : β} (hbus : Bus.ReadsArePeeks bus) :
    let opcode := Bus.peek bus c.regs.pc
    let found := ((c.started opcode).resolve (lookup opcode).mode).view (Bus.peek bus)
    let ended := found.2.perform (lookup opcode).op.action
    ∃ later : β,
      (c.begin.run bus).1 = (ended.run later).1.charged (lookup opcode).op found.1 ∧
        (c.begin.accesses bus).filter Access.isWrite =
          (ended.accesses later).filter Access.isWrite := by
  intro opcode found ended
  have hopcode : (Bus.read bus c.regs.pc).1 = opcode := hbus.read_eq _
  have hreads := readsOnly_resolve (c.started opcode) (lookup opcode).mode
  obtain ⟨hfound, -, -⟩ := hreads.run_eq (hbus.read c.regs.pc)
  -- Only the action writes: the fetch and the addressing mode are reads.
  have hsilent := hreads.writes_eq_nil (Bus.read bus c.regs.pc).2
  rw [hbus.peek_read] at hfound
  refine ⟨(((c.started opcode).resolve (lookup opcode).mode).run
    (Bus.read bus c.regs.pc).2).2, ?_, ?_⟩
  · rw [begin_eq]
    simp only [readByte, read_bind, done_bind, Program.run, hopcode, run_bind, pure_eq_done]
    rw [hfound]
  · rw [begin_eq]
    simp only [readByte, read_bind, done_bind, accesses, hopcode, accesses_bind, pure_eq_done,
      List.filter_cons, List.filter_append, hsilent, List.append_nil, List.nil_append]
    rw [hfound]
    rfl

end Saving

end Cpu

end NesMachine
