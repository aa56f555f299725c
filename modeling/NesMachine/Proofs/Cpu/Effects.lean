import NesMachine.Proofs.Cpu.MultiByte
import NesMachine.Proofs.Cpu.StatusMarks

/-!
# What an instruction changes

Each part of the registers is changed by a few operations only (`Part.changers`), and every other
operation leaves it alone (`Op.leaves`). What an action leaves alone passes through a step from a
boundary (`Cpu.get_step`), so a step changes a part only if its operation is one of these.

The stack pointer moves by a fixed distance (`Cpu.sp_step`), and zero and negative describe the
8-bit result of the operations that set them (`Cpu.describes_step`). The opcodes that are not
documented move the program counter and set unused, and that is all (`Cpu.idles_step`).
-/

set_option autoImplicit false

namespace NesMachine

universe v

/-! ## Parts of the registers -/

/-- The parts of the registers that instructions compute, without the program counter and the unused
flag, which every instruction sets. -/
inductive Part where
  | a | x | y | sp
  | carry | zero | interruptDisable | decimal | breakMark | overflow | negative
  deriving DecidableEq

namespace Part

/-- What a part holds: a byte or a flag. -/
def Value : Part → Type
  | .a | .x | .y | .sp => UInt8
  | .carry | .zero | .interruptDisable | .decimal | .breakMark | .overflow | .negative => Bool

/-- The value of a part. -/
def get (r : Registers) : (p : Part) → p.Value
  | .a => r.a
  | .x => r.x
  | .y => r.y
  | .sp => r.sp
  | .carry => r.status.carry
  | .zero => r.status.zero
  | .interruptDisable => r.status.interruptDisable
  | .decimal => r.status.decimal
  | .breakMark => r.status.breakMark
  | .overflow => r.status.overflow
  | .negative => r.status.negative

end Part

namespace Op

/-- The operations that set zero and negative: loads, arithmetic and logic, comparisons, shifts,
counting, transfers to A, X or Y, and what takes A or the status off the stack. -/
def describers : List Op :=
  [.lda, .ldx, .ldy, .adc, .sbc, .and, .ora, .eor, .bit, .cmp, .cpx, .cpy, .asl, .lsr, .rol, .ror,
    .inc, .dec, .inx, .iny, .dex, .dey, .tax, .tay, .tsx, .txa, .tya, .pla, .plp, .rti]

/-- The stack pointer that an operation leaves. -/
def stackPointer (r : Registers) : Op → UInt8
  | .pha | .php => r.sp - 1
  | .pla | .plp => r.sp + 1
  | .jsr => r.sp - 2
  | .rts => r.sp + 2
  | .rti => r.sp + 3
  | .brk => r.sp - 3
  | .txs => r.x
  | _ => r.sp

end Op

namespace Part

/-- The operations that may change a part, wherever their operand is. -/
def changers : Part → List Op
  | .a => [.adc, .sbc, .and, .ora, .eor, .lda, .pla, .txa, .tya]
  | .x => [.ldx, .tax, .tsx, .inx, .dex]
  | .y => [.ldy, .tay, .iny, .dey]
  | .sp => [.pha, .php, .pla, .plp, .jsr, .rts, .rti, .brk, .txs]
  | .carry => [.adc, .sbc, .cmp, .cpx, .cpy, .asl, .lsr, .rol, .ror, .clc, .sec, .plp, .rti]
  | .overflow => [.adc, .sbc, .bit, .clv, .plp, .rti]
  | .decimal => [.cld, .sed, .plp, .rti]
  | .interruptDisable => [.cli, .sei, .brk, .plp, .rti]
  | .breakMark => Op.statusPullers
  | .zero | .negative => Op.describers

/-- An operation may change a part. A shift changes A if its operand is there. -/
def ChangedBy (p : Part) (mode : AddressingMode) (op : Op) : Prop :=
  op ∈ p.changers ∨ p = .a ∧ op ∈ Op.shifts ∧ mode = .implied

end Part

/-! ## What actions leave alone -/

/-- An action leaves a part of the registers alone. Nothing is asked of the ways in which an action
goes on elsewhere, since the program counter is no part. -/
def Action.Leaves (p : Part) (mode : AddressingMode) : Action → Prop
  | .load result => ∀ r value, p.get (result r value) = p.get r
  | .modify result =>
    (∀ r value, p.get (result r value).2 = p.get r) ∧
      (mode = .implied → ∀ (r : Registers) (a : UInt8), p.get { r with a } = p.get r)
  | .internal result => ∀ r, p.get (result r) = p.get r
  | .pull result => ∀ (r : Registers) (sp value : UInt8),
      p.get (result { r with sp } value) = p.get r
  | .push _ | .jumpSaving | .comeBack => ∀ (r : Registers) (sp : UInt8),
      p.get { r with sp } = p.get r
  | .comeBackFromHandler => ∀ (r : Registers) (sp : UInt8) (status : Status),
      p.get { r with sp, status } = p.get r
  | .softwareBreak => ∀ (r : Registers) (sp : UInt8),
      p.get { r with sp, status.interruptDisable := true } = p.get r
  | .store _ | .branch _ | .jump => True

/-- An operation that may not change a part leaves it alone. -/
theorem Op.leaves {p : Part} {op : Op} {mode : AddressingMode} (h : ¬ p.ChangedBy mode op)
    (hpair : op.goesWith mode = true) : op.action.Leaves p mode := by
  obtain ⟨hlist, hshift⟩ := not_or.1 h
  -- By the kind of the action. For each part the operation either leaves it by definition or is in
  -- its list.
  cases op with
  | adc | sbc | and | ora | eor | bit | cmp | cpx | cpy | lda | ldx | ldy =>
    intro r value
    cases p <;> first | rfl | exact absurd (by decide) hlist
  | asl | lsr | rol | ror =>
    refine ⟨fun r value => ?_, fun himplied r value => ?_⟩
    · cases p <;> first | rfl | exact absurd (by decide) hlist
    · cases p with
      -- A is not in the list of any shift: it changes only if the operand is there.
      | a => exact absurd ⟨rfl, by decide, himplied⟩ hshift
      | _ => rfl
  | inc | dec =>
    refine ⟨fun r value => ?_, fun himplied => ?_⟩
    · cases p <;> first | rfl | exact absurd (by decide) hlist
    · exact absurd himplied (of_decide_eq_true hpair).1
  | inx | iny | dex | dey | tax | tay | tsx | txa | txs | tya | clc | sec | cli | sei | cld | sed
  | clv | nop | unassigned =>
    intro r
    cases p <;> first | rfl | exact absurd (by decide) hlist
  | pla | plp =>
    intro r sp value
    cases p <;> first | rfl | exact absurd (by decide) hlist
  | pha | php | jsr | rts =>
    intro r sp
    cases p <;> first | rfl | exact absurd (by decide) hlist
  | rti =>
    intro r sp status
    cases p <;> first | rfl | exact absurd (by decide) hlist
  | brk =>
    intro r sp
    cases p <;> first | rfl | exact absurd (by decide) hlist
  | sta | stx | sty | bcc | bcs | bne | beq | bpl | bmi | bvc | bvs | jmp => trivial

namespace Part

/-- The program counter and the unused flag belong to no part. -/
theorem get_aside (p : Part) (r : Registers) (pc : UInt16) (unused : Bool) :
    p.get { r with pc, status.unused := unused } = p.get r := by
  cases p <;> rfl

theorem get_pc (p : Part) (r : Registers) (pc : UInt16) : p.get { r with pc } = p.get r :=
  p.get_aside r pc r.status.unused

end Part

namespace Cpu

open Program

variable {p : Part} {a : Action}

/-- What an action leaves alone is as before when it has been carried out. -/
theorem returns_perform_get {d : Cpu} (ha : a.Leaves p d.latches.mode) :
    (d.perform a).Returns fun ended => p.get ended.regs = p.get d.regs := by
  cases a with
  | load result =>
    have hresult := ha d.regs
    by_cases hmode : d.latches.mode = .implied <;>
      simp [perform, loadOperand, hmode, readByte, Returns, hresult]
  | modify result =>
    obtain ⟨hresult, hA⟩ := ha
    by_cases hmode : d.latches.mode = .implied
    · simp [perform, loadOperand, storeOperand, hmode, Returns, hresult, hA hmode]
    · simp [perform, loadOperand, storeOperand, hmode, readByte, writeByte, Returns, hresult]
  | internal result => exact ha d.regs
  | pull result =>
    intro value
    exact ha d.regs (d.regs.sp + 1) value
  | push value => exact ha d.regs (d.regs.sp - 1)
  | jumpSaving =>
    let moved : Registers := { d.regs with sp := d.regs.sp - 1 - 1 }
    exact (p.get_pc moved d.latches.address).trans (ha d.regs _)
  | comeBack =>
    intro low high
    let moved : Registers := { d.regs with sp := d.regs.sp + 1 + 1 }
    exact (p.get_pc moved _).trans (ha d.regs _)
  | comeBackFromHandler =>
    intro value low high
    let moved : Registers :=
      { d.regs with sp := d.regs.sp + 1 + 1 + 1, status := .pulled value }
    exact (p.get_pc moved _).trans (ha d.regs _ _)
  | softwareBreak =>
    intro low high
    let moved : Registers :=
      { d.regs with sp := d.regs.sp - 1 - 1 - 1, status.interruptDisable := true }
    exact (p.get_pc moved _).trans (ha d.regs _)
  | branch taken =>
    show p.get (d.branch _).regs = _
    cases taken d.regs.status with
    | false => rfl
    | true => exact p.get_pc _ _
  | store value => exact rfl
  | jump => exact p.get_pc _ _

section Step

variable {β : Type v} [Bus β] {c : Cpu}

/-- A step from a boundary fetches the opcode, makes the reads that find the operand, and then
carries out the action of its operation on what is then the bus. -/
theorem exists_action (hc : c.complete = true) (bus : β) :
    ∃ (d : Cpu) (later : β) (finding : List Access),
      d.regs = operandFound c.regs d.latches.mode ∧
        d.latches.mode = (c.nextInstruction bus).mode ∧
        Finds (c.regs.pc + 1) c.regs.x c.regs.y (c.nextInstruction bus).mode finding
          d.operandAddress? ∧
        (c.step.run bus).1.2.regs =
          ((d.perform (c.nextInstruction bus).op.action).run later).1.regs ∧
        c.step.accesses bus = .read c.regs.pc (Bus.read bus c.regs.pc).1 ::
          (finding ++ (d.perform (c.nextInstruction bus).op.action).accesses later) := by
  let opcode := (Bus.read bus c.regs.pc).1
  let afterOpcode := (Bus.read bus c.regs.pc).2
  let finding := (c.started opcode).resolve (c.nextInstruction bus).mode
  obtain ⟨hregs, -, hmode⟩ :=
    (returns_resolve (c.started opcode) (c.nextInstruction bus).mode).run afterOpcode
  have hfinds := finds_resolve (c.started opcode) afterOpcode
    (rfl : (c.started opcode).latches.mode = (c.nextInstruction bus).mode)
  refine ⟨(finding.run afterOpcode).1.2, (finding.run afterOpcode).2,
    finding.accesses afterOpcode, ?_, hmode, hfinds, ?_, ?_⟩
  · rw [hmode]
    exact hregs
  · rw [regs_step hc, run_begin]
    rfl
  · rw [accesses_step hc, accesses_begin]
    rfl

/-- A step from a boundary changes a part of the registers only if its operation may. -/
theorem get_step (p : Part) (hc : c.complete = true) (bus : β)
    (h : ¬ p.ChangedBy (c.nextInstruction bus).mode (c.nextInstruction bus).op) :
    p.get (c.step.run bus).1.2.regs = p.get c.regs := by
  obtain ⟨d, later, -, hfound, hmode, -, hregs, -⟩ := exists_action hc bus
  have hleaves := Op.leaves h (goesWith_lookup _)
  rw [← hmode] at hleaves
  rw [hregs, (returns_perform_get hleaves).run later, hfound]
  exact p.get_aside c.regs _ true

/-! ## The stack pointer -/

/-- An operation that moves the stack pointer moves it by a fixed distance, or copies X. -/
theorem sp_perform {op : Op} (hop : op ∈ Part.sp.changers) (d : Cpu) (bus : β) :
    ((d.perform op.action).run bus).1.regs.sp = op.stackPointer d.regs := by
  cases op with
  | pha | php | pla | plp | txs => rfl
  | jsr =>
    show d.regs.sp - 1 - 1 = d.regs.sp - 2
    grind
  | rts =>
    show d.regs.sp + 1 + 1 = d.regs.sp + 2
    grind
  | rti =>
    show d.regs.sp + 1 + 1 + 1 = d.regs.sp + 3
    grind
  | brk =>
    show d.regs.sp - 1 - 1 - 1 = d.regs.sp - 3
    grind
  | _ => exact absurd hop (by decide)

theorem sp_step (hc : c.complete = true) (bus : β) :
    (c.step.run bus).1.2.regs.sp = (c.nextInstruction bus).op.stackPointer c.regs := by
  by_cases hmoves : (c.nextInstruction bus).op ∈ Part.sp.changers
  · obtain ⟨d, later, -, hfound, -, -, hregs, -⟩ := exists_action hc bus
    rw [hregs, sp_perform hmoves, hfound]
    cases (c.nextInstruction bus).op <;> rfl
  · have hkept := get_step .sp hc bus (not_or.2 ⟨hmoves, fun h => Part.noConfusion h.1⟩)
    have hstays : (c.nextInstruction bus).op.stackPointer c.regs = c.regs.sp := by
      generalize (c.nextInstruction bus).op = op at hmoves
      cases op <;> first | rfl | exact absurd (by decide) hmoves
    rw [hstays]
    exact hkept

end Step

end Cpu

/-! ## Results -/

/-- Zero and negative tell whether an 8-bit result is zero and whether it is negative. -/
structure Status.Describes (s : Status) (result : UInt8) : Prop where
  zero_eq : s.zero = (result == 0)
  negative_eq : s.negative = signBit result

namespace Op

/-- The register into which an operation puts its result, wherever its operand is. -/
def resultRegister? : Op → Option (Registers → UInt8)
  | .adc | .sbc | .and | .ora | .eor | .lda | .pla | .txa | .tya => some Registers.a
  | .ldx | .tax | .tsx | .inx | .dex => some Registers.x
  | .ldy | .tay | .iny | .dey => some Registers.y
  | _ => none

/-- The operations that put their result where their operand was. -/
def rewriters : List Op :=
  .inc :: .dec :: shifts

/-- `Yields before after mode made op result`: an operation that leads from some registers to others
and makes some accesses, of which the last one is its own, has a result of eight bits. -/
inductive Yields (before after : Registers) (mode : AddressingMode) (made : List Access) :
    Op → UInt8 → Prop
  /-- The result is in a register. -/
  | inRegister {op : Op} {register : Registers → UInt8}
      (hop : op.resultRegister? = some register) : Yields before after mode made op (register after)
  /-- The result of a comparison is the difference of a register and the operand that was read. -/
  | difference {op : Op} {register : Registers → UInt8} {ea : UInt16} {operand : UInt8}
      (hop : op.comparedRegister? = some register)
      (hlast : made.getLast? = some (.read ea operand)) :
      Yields before after mode made op (register before - operand)
  /-- The result is put back into A. -/
  | inA {op : Op} (hop : op ∈ rewriters) (hmode : mode = .implied) :
      Yields before after mode made op after.a
  /-- The result is put back into memory. -/
  | inMemory {op : Op} {ea : UInt16} {result : UInt8} (hop : op ∈ rewriters)
      (hmode : mode ≠ .implied) (hlast : made.getLast? = some (.write ea result)) :
      Yields before after mode made op result

end Op

/-- The result of an action is in a register, and the flags describe it. -/
def Action.DescribesIn (register : Registers → UInt8) : Action → Prop
  | .load result | .pull result =>
    ∀ r value, (result r value).status.Describes (register (result r value))
  | .internal result => ∀ r, (result r).status.Describes (register (result r))
  | _ => False

/-- What an action puts back is described by the flags. -/
def Action.DescribesRewritten : Action → Prop
  | .modify result => ∀ r value, (result r value).2.status.Describes (result r value).1
  | _ => False

namespace Op

variable {op : Op} {register : Registers → UInt8}

theorem describesIn_register (h : op.resultRegister? = some register) :
    op.action.DescribesIn register := by
  cases op with
  | adc | sbc | and | ora | eor | lda | ldx | ldy | pla =>
    cases h
    intro r value
    exact ⟨rfl, rfl⟩
  | inx | iny | dex | dey | tax | tay | tsx | txa | tya =>
    cases h
    intro r
    exact ⟨rfl, rfl⟩
  | _ => cases h

theorem describesRewritten_of_mem_rewriters (h : op ∈ rewriters) :
    op.action.DescribesRewritten := by
  cases op with
  | inc | dec | asl | lsr | rol | ror =>
    intro r value
    exact ⟨rfl, rfl⟩
  | _ => exact absurd h (by decide)

/-- The operations that describe a result are of three kinds. -/
theorem cases_of_mem_describers (h : op ∈ describers) (hother : op ∉ [.bit, .plp, .rti]) :
    (∃ register, op.resultRegister? = some register) ∨
      (∃ register, op.comparedRegister? = some register) ∨ op ∈ rewriters := by
  cases op with
  | adc | sbc | and | ora | eor | lda | pla | txa | tya | ldx | tax | tsx | inx | dex | ldy | tay
  | iny | dey => exact .inl ⟨_, rfl⟩
  | cmp | cpx | cpy => exact .inr (.inl ⟨_, rfl⟩)
  | inc | dec | asl | lsr | rol | ror => exact .inr (.inr (by decide))
  | bit | plp | rti => exact absurd (by decide) hother
  | _ => exact absurd h (by decide)

end Op

namespace Cpu

open Program

section Step

variable {β : Type v} [Bus β] {c d : Cpu} {op : Op} {register : Registers → UInt8}

/-- The flags describe a result in a register. -/
theorem returns_perform_describes {a : Action} (ha : a.DescribesIn register) :
    (d.perform a).Returns fun ended => ended.regs.status.Describes (register ended.regs) := by
  cases a with
  | load result =>
    have hresult := ha d.regs
    by_cases hmode : d.latches.mode = .implied <;>
      simp [perform, loadOperand, hmode, readByte, Returns, hresult]
  | pull result =>
    intro value
    exact ha _ value
  | internal result => exact ha d.regs
  | _ => exact ha.elim

/-- The flags describe a result that is put back into A. -/
theorem describes_inA {a : Action} (ha : a.DescribesRewritten) (hmode : d.latches.mode = .implied)
    (bus : β) :
    ((d.perform a).run bus).1.regs.status.Describes ((d.perform a).run bus).1.regs.a := by
  cases a with
  | modify result =>
    have hresult := ha d.regs d.latches.operand
    simpa [perform, loadOperand, storeOperand, hmode, Program.run] using hresult
  | _ => exact ha.elim

/-- The flags describe a result that is put back into memory by the last access. -/
theorem describes_inMemory {a : Action} (ha : a.DescribesRewritten) {ea : UInt16}
    (hea : d.operandAddress? = some ea) (bus : β) :
    ∃ operand result, (d.perform a).accesses bus = [.read ea operand, .write ea result] ∧
      ((d.perform a).run bus).1.regs.status.Describes result := by
  obtain ⟨hmode, -, haddress⟩ := operandAddress?_eq_some_iff.1 hea
  cases a with
  | modify result =>
    refine ⟨_, _, accesses_modify hea bus result, ?_⟩
    have hresult := ha d.regs (Bus.read bus ea).1
    simpa [perform, loadOperand, storeOperand, hmode, haddress, readByte, writeByte, Program.run]
      using hresult
  | _ => exact ha.elim

/-- The flags describe the difference of a register and the operand that is read. -/
theorem describes_difference (hop : op.comparedRegister? = some register) {ea : UInt16}
    (hea : d.operandAddress? = some ea) (bus : β) :
    ∃ operand, (d.perform op.action).accesses bus = [.read ea operand] ∧
      ((d.perform op.action).run bus).1.regs.status.Describes (register d.regs - operand) := by
  obtain ⟨hmode, -, rfl⟩ := operandAddress?_eq_some_iff.1 hea
  rw [Op.action_of_comparedRegister? hop]
  refine ⟨_, accesses_load hea bus _, ?_⟩
  rw [perform, loadOperand, if_neg hmode]
  exact ⟨rfl, rfl⟩

/-- An operation whose operand has to be in memory finds it there. -/
theorem exists_address_of_comparedRegister? (hop : op.comparedRegister? = some register)
    (hpair : op.goesWith d.latches.mode = true) : ∃ ea, d.operandAddress? = some ea := by
  apply exists_operandAddress
  cases op with
  | cmp | cpx | cpy => exact of_decide_eq_true hpair
  | _ => cases hop

theorem exists_address_of_rewriters (hop : op ∈ Op.rewriters)
    (hpair : op.goesWith d.latches.mode = true) (hmode : d.latches.mode ≠ .implied) :
    ∃ ea, d.operandAddress? = some ea := by
  apply exists_operandAddress
  cases op with
  | inc | dec => exact of_decide_eq_true hpair
  | asl | lsr | rol | ror => exact ⟨hmode, of_decide_eq_true hpair⟩
  | _ => exact absurd hop (by decide)

/-- After an operation that describes a result, zero and negative are those of the result. -/
theorem describes_step (hc : c.complete = true) (bus : β)
    (hop : (c.nextInstruction bus).op ∈ Op.describers)
    (hother : (c.nextInstruction bus).op ∉ [.bit, .plp, .rti]) :
    ∃ result, (c.nextInstruction bus).op.Yields c.regs (c.step.run bus).1.2.regs
        (c.nextInstruction bus).mode (c.step.accesses bus) result ∧
      (c.step.run bus).1.2.regs.status.Describes result := by
  obtain ⟨d, later, finding, hfound, hmode, -, hregs, haccesses⟩ := exists_action hc bus
  have hpair := goesWith_lookup (Bus.read bus c.regs.pc).1
  change (c.nextInstruction bus).op.goesWith (c.nextInstruction bus).mode = true at hpair
  rw [← hmode] at hpair
  -- The result is left in a register, is a difference, or is put back where the operand was.
  obtain ⟨register, hin⟩ | ⟨register, hcompared⟩ | hback :=
    Op.cases_of_mem_describers hop hother
  · refine ⟨_, .inRegister hin, ?_⟩
    rw [hregs]
    exact (returns_perform_describes (Op.describesIn_register hin)).run later
  · obtain ⟨ea, hea⟩ := exists_address_of_comparedRegister? hcompared hpair
    obtain ⟨operand, hread, hdescribes⟩ := describes_difference hcompared hea later
    rw [hfound, Op.register_operandFound hcompared] at hdescribes
    have hlast : (c.step.accesses bus).getLast? = some (.read ea operand) := by
      rw [haccesses, hread, ← List.cons_append, List.getLast?_concat]
    refine ⟨_, .difference hcompared hlast, ?_⟩
    rw [hregs]
    exact hdescribes
  · have hdescribed := Op.describesRewritten_of_mem_rewriters hback
    -- The operand was in A or in memory, as the mode says.
    by_cases himplied : d.latches.mode = .implied
    · refine ⟨_, .inA hback (hmode ▸ himplied), ?_⟩
      rw [hregs]
      exact describes_inA hdescribed himplied later
    · obtain ⟨ea, hea⟩ := exists_address_of_rewriters hback hpair himplied
      obtain ⟨operand, result, hwrite, hdescribes⟩ := describes_inMemory hdescribed hea later
      have hlast : (c.step.accesses bus).getLast? = some (.write ea result) := by
        rw [haccesses, hwrite, List.append_cons, ← List.cons_append, List.getLast?_concat]
      refine ⟨result, .inMemory hback (hmode ▸ himplied) hlast, ?_⟩
      rw [hregs]
      exact hdescribes

end Step

end Cpu

/-! ## Opcodes that are not documented -/

/-- The modes whose operand is known from the code alone. -/
def AddressingMode.direct : List AddressingMode :=
  [.implied, .immediate, .zeroPage, .zeroPageX, .zeroPageY, .relative, .absolute, .absoluteX,
    .absoluteY]

/-- Such a mode reads the operand bytes of the instruction alone. -/
theorem Finds.reads_of_direct {pc : UInt16} {x y : UInt8} {mode : AddressingMode}
    {made : List Access} {ea : Option UInt16} (h : Finds pc x y mode made ea)
    (hmode : mode ∈ AddressingMode.direct) :
    ∀ access ∈ made, ∃ (i : Nat) (value : UInt8), i < mode.operandLength ∧
      access = .read (pc + UInt16.ofNat i) value := by
  have hzero : pc + UInt16.ofNat 0 = pc := UInt16.add_zero pc
  intro access hmem
  cases h with
  | implied | immediate => cases hmem
  | zeroPage value | zeroPageX value | zeroPageY value | relative value =>
    obtain rfl := List.mem_singleton.1 hmem
    exact ⟨0, value, Nat.one_pos, by rw [hzero]⟩
  | absolute low high | absoluteX low high | absoluteY low high =>
    rcases List.mem_cons.1 hmem with rfl | hmem
    · exact ⟨0, low, Nat.two_pos, by rw [hzero]⟩
    · obtain rfl := List.mem_singleton.1 hmem
      exact ⟨1, high, Nat.one_lt_two, rfl⟩
  | indirect | indexedIndirect | indirectIndexed => exact absurd hmode (by decide)

/-- The opcodes that are not documented are those with one of two names. -/
theorem documented_lookup_eq_false_iff (opcode : UInt8) :
    (lookup opcode).documented = false ↔
      (lookup opcode).mnemonic = "*NOP" ∨ (lookup opcode).mnemonic = "???" := by
  have all : ∀ i : Fin 256, (lookup (UInt8.ofFin i)).documented = false ↔
      (lookup (UInt8.ofFin i)).mnemonic = "*NOP" ∨ (lookup (UInt8.ofFin i)).mnemonic = "???" := by
    decide +kernel
  exact all opcode.toFin

/-- The rows of opcodes that are not documented do nothing and take no operand from elsewhere. -/
theorem lookup_of_undocumented {opcode : UInt8} (h : (lookup opcode).documented = false) :
    (lookup opcode).op ∈ [Op.nop, Op.unassigned] ∧
      (lookup opcode).mode ∈ AddressingMode.direct := by
  have all : ∀ i : Fin 256, (lookup (UInt8.ofFin i)).documented = false →
      (lookup (UInt8.ofFin i)).op ∈ [Op.nop, Op.unassigned] ∧
        (lookup (UInt8.ofFin i)).mode ∈ AddressingMode.direct := by
    decide +kernel
  exact all opcode.toFin h

namespace Cpu

section Step

variable {β : Type v} [Bus β] {c : Cpu}

/-- A step reads the bytes of its instruction, moves the program counter past them and sets unused,
and that is all that it does with the bus and the registers. -/
structure Idles (c : Cpu) (bus : β) : Prop where
  regs_eq : (c.step.run bus).1.2.regs =
    { c.regs with
      pc := c.regs.pc + UInt16.ofNat (c.nextInstruction bus).size
      status.unused := true }
  reads : ∀ access ∈ c.step.accesses bus, ∃ (i : Nat) (value : UInt8),
    i < (c.nextInstruction bus).size ∧ access = .read (c.regs.pc + UInt16.ofNat i) value

/-- An opcode that is not documented only takes its time. -/
theorem idles_step (hc : c.complete = true) (bus : β)
    (h : (c.nextInstruction bus).documented = false) : c.Idles bus := by
  obtain ⟨hop, hdirect⟩ := lookup_of_undocumented h
  obtain ⟨d, later, finding, hfound, hmode, hfinds, hregs, haccesses⟩ := exists_action hc bus
  have hkind : (c.nextInstruction bus).op = .nop ∨ (c.nextInstruction bus).op = .unassigned :=
    (List.mem_cons.1 hop).imp_right List.mem_singleton.1
  have haction : (c.nextInstruction bus).op.action = .internal id := by
    rcases hkind with hop | hop <;> rw [hop] <;> rfl
  rw [haction] at hregs haccesses
  -- The action is the identity, so the step does nothing but find the operand.
  constructor
  · have hsize : UInt16.ofNat (c.nextInstruction bus).size =
        1 + UInt16.ofNat (c.nextInstruction bus).mode.operandLength := UInt16.ofNat_add ..
    have hended : ((d.perform (.internal id)).run later).1.regs = d.regs := rfl
    rw [hregs, hended, hfound, hmode, hsize, ← UInt16.add_assoc]
    rfl
  · have hnone : (d.perform (.internal id)).accesses later = [] := rfl
    rw [haccesses, hnone, List.append_nil]
    intro access hmem
    rcases List.mem_cons.1 hmem with rfl | hmem
    · have hzero : c.regs.pc + UInt16.ofNat 0 = c.regs.pc := UInt16.add_zero _
      exact ⟨0, _, Instruction.size_pos _, by rw [hzero]⟩
    · obtain ⟨i, value, hi, rfl⟩ := hfinds.reads_of_direct hdirect access hmem
      refine ⟨1 + i, value, Nat.add_lt_add_left hi 1, ?_⟩
      rw [UInt16.ofNat_add, ← UInt16.add_assoc]
      rfl

/-! ## Main statement -/

/-- What a step from a boundary may change. -/
structure Confined (c : Cpu) (bus : β) : Prop where
  /-- A part of the registers changes only by the operations that have it for a result. -/
  changes : ∀ p : Part, p.get (c.step.run bus).1.2.regs ≠ p.get c.regs →
    p.ChangedBy (c.nextInstruction bus).mode (c.nextInstruction bus).op
  /-- The stack pointer moves by the distance of the operation. -/
  sp_eq : (c.step.run bus).1.2.regs.sp = (c.nextInstruction bus).op.stackPointer c.regs
  /-- Break is never set. -/
  breakMark : (c.step.run bus).1.2.regs.status.breakMark = true →
    c.regs.status.breakMark = true
  /-- Unused is set. -/
  unused : (c.step.run bus).1.2.regs.status.unused = true
  /-- Zero and negative are those of the 8-bit result, if they are not copied from elsewhere. -/
  describes : (c.nextInstruction bus).op ∈ Op.describers →
    (c.nextInstruction bus).op ∉ [.bit, .plp, .rti] →
      ∃ result, (c.nextInstruction bus).op.Yields c.regs (c.step.run bus).1.2.regs
          (c.nextInstruction bus).mode (c.step.accesses bus) result ∧
        (c.step.run bus).1.2.regs.status.Describes result
  /-- An opcode that is not documented, which its name tells, only takes its time. -/
  idles : (c.nextInstruction bus).mnemonic = "*NOP" ∨ (c.nextInstruction bus).mnemonic = "???" →
    c.Idles bus

/-- One instruction changes what its operation has for a result and nothing else, for every opcode,
from every state at a boundary and on every bus. -/
theorem step_confined (c : Cpu) (hc : c.complete = true) (bus : β) : c.Confined bus := by
  obtain ⟨hunused, hbreak⟩ := marks_step hc bus
  constructor
  · intro p hchanged
    by_contra hother
    exact hchanged (get_step p hc bus hother)
  · exact sp_step hc bus
  · intro hset
    exact (hbreak.1 hset).1
  · exact hunused
  · intro hop hother
    exact describes_step hc bus hop hother
  · intro hname
    exact idles_step hc bus ((documented_lookup_eq_false_iff _).2 hname)

end Step

/-- An undocumented opcode at the top of memory, with its operand at the bottom, from a status with
break set and unused clear. A rotation in memory clears carry and yields `01`. -/
theorem step_confined_wrapped_idle :
    let idle := (FlatMemory.zero.write 0xFFFF 0x04).write 0x0000 0x60
    let c : Cpu :=
      { powerOn with
        regs.pc := 0xFFFF
        regs.status.breakMark := true
        regs.status.unused := false }
    let rotation := (FlatMemory.zero.write 0x0000 0x26).write 0x0001 0x60
    let d : Cpu := { powerOn with regs.a := 0x80, regs.status.carry := true }
    (c.complete = true ∧ c.Confined idle ∧ c.Idles idle ∧
      (c.step.run idle).1.2.regs =
        { c.regs with pc := 0x0001, status.unused := true }) ∧
    (d.complete = true ∧ d.Confined rotation ∧
      (d.step.run rotation).1.2.regs.status.Describes 0x01 ∧
      (d.step.run rotation).1.2.regs.status.carry = false) := by
  intro idle c rotation d
  have hnext : c.nextInstruction idle = lookup 0x04 := by
    have hpeek : idle.peek 0xFFFF = 0x04 := by
      rw [FlatMemory.peek_write, FlatMemory.peek_write]
      decide
    exact congrArg lookup hpeek
  have hidle := step_confined c rfl idle
  have hidles : c.Idles idle := hidle.idles (.inl (by rw [hnext]; decide))
  have hpast : c.regs.pc + UInt16.ofNat (lookup 0x04).size = 0x0001 := by decide
  have hregs := hidles.regs_eq
  rw [hnext, hpast] at hregs
  have hrotation := step_confined d rfl rotation
  refine ⟨⟨rfl, hidle, hidles, hregs⟩, rfl, hrotation, ⟨?_, ?_⟩, ?_⟩ <;> decide +kernel

end Cpu

end NesMachine
