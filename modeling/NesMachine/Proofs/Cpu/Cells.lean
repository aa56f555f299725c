import NesMachine.Proofs.Cpu.Cost
import NesMachine.Proofs.Cpu.Stack

/-!
# Operations on cells

What an operation does with an operand in a cell of flat memory is a function of the registers and
of the byte in the cell (`Action.registersAfter`, `Action.memoryAfter`), whatever the addressing
mode is (`Cpu.step_onCell`). So the effect of a piece of code is known from the operations that it
carries out and the cells of their operands (`Executes`), and neither its place nor its encoding
matters. Bytes that are stored in distinct cells are there in the end
(`FlatMemory.map_peek_storeAll`).
-/

set_option autoImplicit false

namespace NesMachine

/-! ## Actions on one cell -/

namespace Action

/-- The actions that use an operand. -/
def usesOperand : Action → Bool
  | .load _ | .modify _ | .store _ => true
  | _ => false

/-- The registers after an action whose operand is a byte in memory. -/
def registersAfter (a : Action) (r : Registers) (operand : UInt8) : Registers :=
  match a with
  | .load result => result r operand
  | .modify result => (result r operand).2
  | _ => r

/-- The memory after an action whose operand is in a cell. -/
def memoryAfter (a : Action) (r : Registers) (cell : UInt16) (m : FlatMemory) : FlatMemory :=
  match a with
  | .modify result => m.write cell (result r (m.peek cell)).1
  | .store value => m.write cell (value r)
  | _ => m

end Action

namespace Cpu

/-- An action that uses an operand in a cell. -/
theorem run_perform_onCell {d : Cpu} {cell : UInt16} (hcell : d.operandAddress? = some cell)
    {a : Action} (ha : a.usesOperand = true) (m : FlatMemory) :
    ((d.perform a).run m).1.regs = a.registersAfter d.regs (m.peek cell) ∧
      ((d.perform a).run m).2 = a.memoryAfter d.regs cell m := by
  obtain ⟨hmode, -, rfl⟩ := operandAddress?_eq_some_iff.1 hcell
  cases a with
  | load result =>
    rw [perform, loadOperand, if_neg hmode]
    exact ⟨rfl, rfl⟩
  | modify result =>
    rw [perform, loadOperand, if_neg hmode]
    simp only [Program.readByte, Program.read_bind, Program.done_bind, Program.pure_eq_done,
      storeOperand, if_neg hmode]
    exact ⟨rfl, rfl⟩
  | store value => exact ⟨rfl, rfl⟩
  | _ => cases ha

/-! ## Steps -/

/-- The cell of the operand of the next instruction, if the operand is in memory. -/
def nextOperand? (c : Cpu) (m : FlatMemory) : Option UInt16 :=
  (((c.started (m.peek c.regs.pc)).resolve (c.nextInstruction m).mode).run m).1.2.operandAddress?

/-- A step of an operation on a cell does what the operation does with the byte in the cell. -/
theorem step_onCell {s : Cpu × FlatMemory} (hc : s.1.complete = true) {op : Op} {cell : UInt16}
    (hop : (s.1.nextInstruction s.2).op = op) (hcell : s.1.nextOperand? s.2 = some cell)
    (huses : op.action.usesOperand = true) :
    let r := operandFound s.1.regs (s.1.nextInstruction s.2).mode
    let after := CpuCall.step.after s
    after.1.complete = true ∧
      after.1.regs = op.action.registersAfter r (s.2.peek cell) ∧
      after.2 = op.action.memoryAfter r cell s.2 := by
  obtain ⟨c, m⟩ := s
  intro r after
  let finding := (c.started (m.peek c.regs.pc)).resolve (c.nextInstruction m).mode
  let found := finding.run m
  -- Finding the operand only reads, so the operation finds the memory as it was.
  obtain ⟨addrs, haddrs⟩ := (readsOnly_resolve (c.started (m.peek c.regs.pc))
    (c.nextInstruction m).mode).exists_afterReads m
  have hmemory : found.2 = m := haddrs.trans (m.afterReads_eq addrs)
  have hregs : found.1.2.regs = r := ((returns_resolve _ _).run m).1
  have hbegin : c.begin.run m =
      let ended := (found.1.2.perform op.action).run m
      (ended.1.charged op found.1.1, ended.2) := by
    rw [run_begin, ← hop]
    show (let ended := (found.1.2.perform (c.nextInstruction m).op.action).run found.2
      (ended.1.charged (c.nextInstruction m).op found.1.1, ended.2)) = _
    rw [hmemory]
  have hafter : after = ((c.step.run m).1.2, (c.step.run m).2) := by
    show CpuCall.step.after (c, m) = _
    rw [CpuCall.after, run_program_step]
  obtain ⟨hresult, hleft⟩ := run_perform_onCell hcell huses m
  refine ⟨?_, ?_, ?_⟩
  · rw [hafter]
    exact complete_step c m
  · rw [hafter, regs_step hc, hbegin, ← hregs]
    exact hresult
  · rw [hafter, step_of_complete hc, Program.run_bind, hbegin, ← hregs]
    exact hleft

end Cpu

/-- The next instructions carry out some operations, each on the operand in its cell. -/
def Executes : List (Op × UInt16) → Cpu × FlatMemory → Prop
  | [], _ => True
  | (op, cell) :: rest, s =>
      (s.1.nextInstruction s.2).op = op ∧ s.1.nextOperand? s.2 = some cell ∧
        Executes rest (CpuCall.step.after s)

instance Executes.decidable : (operations : List (Op × UInt16)) → (s : Cpu × FlatMemory) →
    Decidable (Executes operations s)
  | [], _ => .isTrue trivial
  | (_, _) :: rest, s =>
      have := Executes.decidable rest (CpuCall.step.after s)
      inferInstanceAs (Decidable (_ ∧ _ ∧ _))

/-- The processor and its memory after some steps. -/
def afterSteps (n : Nat) (s : Cpu × FlatMemory) : Cpu × FlatMemory :=
  afterCalls s (List.replicate n .step)

theorem afterSteps_add (m n : Nat) (s : Cpu × FlatMemory) :
    afterSteps (m + n) s = afterSteps n (afterSteps m s) := by
  rw [afterSteps, ← List.replicate_append_replicate, afterCalls_append]
  rfl

theorem afterSteps_zero (s : Cpu × FlatMemory) : afterSteps 0 s = s := rfl

theorem afterSteps_succ (n : Nat) (s : Cpu × FlatMemory) :
    afterSteps (n + 1) s = afterSteps n (CpuCall.step.after s) := rfl

/-! ## Storing several bytes -/

/-- The memory with some bytes stored in some cells, one after the other. -/
def FlatMemory.storeAll (m : FlatMemory) (cells : List UInt16) (bytes : List UInt8) : FlatMemory :=
  m.afterAccesses (List.zipWith Access.write cells bytes)

/-- What is stored in distinct cells is there in the end. -/
theorem FlatMemory.map_peek_storeAll {cells : List UInt16} {bytes : List UInt8}
    (hlength : bytes.length = cells.length) (hcells : cells.Nodup) (m : FlatMemory) :
    cells.map (m.storeAll cells bytes).peek = bytes := by
  induction cells generalizing bytes m with
  | nil => exact (List.length_eq_zero_iff.1 hlength).symm
  | cons cell cells ih =>
    cases bytes with
    | nil => cases hlength
    | cons byte bytes =>
      obtain ⟨hcell, hcells⟩ := List.nodup_cons.1 hcells
      have hlater : ∀ value, Access.write cell value ∉ List.zipWith Access.write cells bytes := by
        intro value hmem
        rw [← List.map_uncurry_zip_eq_zipWith, List.mem_map] at hmem
        obtain ⟨⟨written, _⟩, hentry, hwrite⟩ := hmem
        obtain ⟨rfl, -⟩ := Access.write.inj hwrite
        exact hcell (List.of_mem_zip hentry).1
      have hfirst : ((m.write cell byte).storeAll cells bytes).peek cell = byte := by
        rw [storeAll, peek_afterAccesses_of_not_written hlater, peek_write, if_pos rfl]
      exact congrArg₂ List.cons hfirst
        (ih (Nat.succ.inj hlength) hcells (m.write cell byte))

end NesMachine
