import NesMachine.Proofs.Cpu.Clocks
import NesMachine.Proofs.Cpu.Decoding

/-!
# The cost of an instruction

An instruction takes the cycles of its row in the opcode table, one more for a page that indexing
crosses, if its operation only reads, and one or two more for a branch that is taken
(`Cpu.toNat_remaining_begin`). The cost is read off the bytes that the reads of the instruction
return, so it is defined on every bus, and it is never below two or above eight
(`Cpu.cost_bounds`). A step from a boundary counts exactly this cost, its first clock does all the
work, and any number of steps is as many clocks as the steps count (`Cpu.cycle_accounting`).
-/

set_option autoImplicit false

namespace NesMachine

universe v

/-! ## Facts about the opcode table -/

namespace Op

/-- The operations that pay for a crossed page. -/
def crossing : List Op :=
  [.adc, .sbc, .and, .ora, .eor, .cmp, .lda, .ldx, .ldy, .nop]

theorem paysPageCross_eq (op : Op) : op.paysPageCross = decide (op ∈ crossing) := by
  cases op <;> decide

/-- An operation that is no branch is never taken and adds no cycles of its own. -/
theorem charge_of_notMem_branches {op : Op} (h : op ∉ branches) (c : Cpu) (s : Status) :
    c.charge op.action = 0 ∧ op.takesBranch s = false := by
  cases op <;> first
    | exact absurd (by decide) h
    | exact ⟨rfl, rfl⟩

end Op

namespace AddressingMode

/-- The modes that add an index to an address of two bytes. -/
def indexed : List AddressingMode :=
  [.absoluteX, .absoluteY, .indirectIndexed]

end AddressingMode

/-- No row of the table leads to more than eight cycles. -/
theorem cycles_lookup_le (opcode : UInt8) :
    (lookup opcode).cycles.toNat +
        (if (lookup opcode).mode ∈ AddressingMode.indexed ∧ (lookup opcode).op ∈ Op.crossing then 1
          else 0) +
        (if (lookup opcode).op ∈ Op.branches then 2 else 0) ≤ 8 := by
  have all : ∀ i : Fin 256, (lookup (UInt8.ofFin i)).cycles.toNat +
      (if (lookup (UInt8.ofFin i)).mode ∈ AddressingMode.indexed ∧
        (lookup (UInt8.ofFin i)).op ∈ Op.crossing then 1 else 0) +
      (if (lookup (UInt8.ofFin i)).op ∈ Op.branches then 2 else 0) ≤ 8 := by decide +kernel
  exact all opcode.toFin

namespace Cpu

section Cost

variable {β : Type v} [Bus β]

/-! ## The cost -/

/-- The instruction that the next fetch finds. -/
def nextInstruction (c : Cpu) (bus : β) : Instruction :=
  lookup (Bus.read bus c.regs.pc).1

/-- The base address and the index that the next instruction adds up, if it does so. The bytes are
those that its reads return. -/
def indexing? (c : Cpu) (bus : β) : Option (UInt16 × UInt8) :=
  let (_, afterOpcode) := Bus.read bus c.regs.pc
  let (first, afterFirst) := Bus.read afterOpcode (c.regs.pc + 1)
  match (c.nextInstruction bus).mode with
  | .absoluteX =>
      let (second, _) := Bus.read afterFirst (c.regs.pc + 2)
      some (word first second, c.regs.x)
  | .absoluteY =>
      let (second, _) := Bus.read afterFirst (c.regs.pc + 2)
      some (word first second, c.regs.y)
  | .indirectIndexed =>
      let (low, afterLow) := Bus.read afterFirst (word first 0)
      let (high, _) := Bus.read afterLow (word (first + 1) 0)
      some (word low high, c.regs.y)
  | _ => none

/-- Whether indexing leads the next instruction to another page. -/
def crossesPage (c : Cpu) (bus : β) : Bool :=
  match c.indexing? bus with
  | some (base, index) => !samePage base (base + index.toUInt16)
  | none => false

/-- The cycles that the next instruction takes for a crossed page. -/
def crossingCycles (c : Cpu) (bus : β) : Nat :=
  if c.crossesPage bus = true ∧ (c.nextInstruction bus).op ∈ Op.crossing then 1 else 0

/-- The cycles that the next instruction takes for a branch that is taken: its target may be on the
page of the instruction behind it or on another one. -/
def branchCycles (c : Cpu) (bus : β) : Nat :=
  let (_, afterOpcode) := Bus.read bus c.regs.pc
  let (distance, _) := Bus.read afterOpcode (c.regs.pc + 1)
  let behind := c.regs.pc + 2
  if (c.nextInstruction bus).op.takesBranch c.regs.status then
    if samePage (behind + signExtend distance) behind then 1 else 2
  else 0

/-- The cycles of the next instruction. -/
def cost (c : Cpu) (bus : β) : Nat :=
  (c.nextInstruction bus).cycles.toNat + c.crossingCycles bus + c.branchCycles bus

/-! ## The counter after an instruction -/

theorem add_one_add_one (w : UInt16) : w + 1 + 1 = w + 2 := by
  rw [UInt16.add_assoc]
  rfl

/-- The addressing mode reports a crossed page. -/
theorem crossed_resolve (c : Cpu) (bus : β) :
    (((c.started (Bus.read bus c.regs.pc).1).resolve (c.nextInstruction bus).mode).run
      (Bus.read bus c.regs.pc).2).1.1 = c.crossesPage bus := by
  rw [crossesPage, indexing?]
  cases hmode : (c.nextInstruction bus).mode with
  | absoluteX | absoluteY =>
    dsimp only
    rw [← add_one_add_one]
    rfl
  | indirectIndexed =>
    simp only [resolve, readWordInPage_word]
    rfl
  | _ => rfl

/-- The action adds the cycles of a branch. -/
theorem charge_resolve (c : Cpu) (bus : β) :
    let found := ((c.started (Bus.read bus c.regs.pc).1).resolve (c.nextInstruction bus).mode).run
      (Bus.read bus c.regs.pc).2
    found.1.2.charge (c.nextInstruction bus).op.action = UInt8.ofNat (c.branchCycles bus) := by
  intro found
  by_cases hbranch : (c.nextInstruction bus).op ∈ Op.branches
  · have hmode : (c.nextInstruction bus).mode = .relative := (modes_lookup _).1 hbranch
    have hfound : found.1.2 = { c.started (Bus.read bus c.regs.pc).1 with
        regs.pc := c.regs.pc + 1 + 1
        latches.displacement :=
          signExtend (Bus.read (Bus.read bus c.regs.pc).2 (c.regs.pc + 1)).1 } := by
      show (((c.started _).resolve (c.nextInstruction bus).mode).run _).1.2 = _
      rw [hmode]
      rfl
    rw [hfound, Op.action_of_mem_branches hbranch, branchCycles, add_one_add_one, charge]
    show (if (c.nextInstruction bus).op.takesBranch { c.regs.status with unused := true } = true
      then _ else _) = _
    rw [takesBranch_unused]
    split
    · dsimp only
      split <;> rfl
    · rfl
  · obtain ⟨hcharge, htaken⟩ := Op.charge_of_notMem_branches hbranch found.1.2 c.regs.status
    rw [hcharge, branchCycles, htaken]
    rfl

theorem crossingCycles_le (c : Cpu) (bus : β) : c.crossingCycles bus ≤ 1 := by
  rw [crossingCycles]
  split <;> omega

theorem branchCycles_le (c : Cpu) (bus : β) : c.branchCycles bus ≤ 2 := by
  rw [branchCycles]
  dsimp only
  split_ifs <;> omega

theorem remaining_charged (c done : Cpu) (bus : β) :
    (done.charged (c.nextInstruction bus).op (c.crossesPage bus)).remaining =
      done.remaining + UInt8.ofNat (c.crossingCycles bus) := by
  rw [charged, Op.paysPageCross_eq, crossingCycles]
  by_cases h : c.crossesPage bus = true ∧ (c.nextInstruction bus).op ∈ Op.crossing
  · simp [h.1, h.2]
  · rw [if_neg h, if_neg (by simpa using h)]
    rfl

/-- An instruction loads the counter with its cost. -/
theorem toNat_remaining_begin (c : Cpu) (bus : β) :
    (c.begin.run bus).1.remaining.toNat = c.cost bus := by
  let opcode := (Bus.read bus c.regs.pc).1
  let found := ((c.started opcode).resolve (c.nextInstruction bus).mode).run
    (Bus.read bus c.regs.pc).2
  let ended := (found.1.2.perform (c.nextInstruction bus).op.action).run found.2
  have hrun : (c.begin.run bus).1 = ended.1.charged (c.nextInstruction bus).op found.1.1 := by
    rw [run_begin]
    rfl
  have hcrossed : found.1.1 = c.crossesPage bus := c.crossed_resolve bus
  have hcharge := c.charge_resolve bus
  have hstart : found.1.2.remaining = (c.nextInstruction bus).cycles :=
    ((returns_resolve_counters (c.started opcode) _).run _).1
  have hended := ((returns_perform_counters found.1.2 (c.nextInstruction bus).op.action).run
    found.2).1
  have hcycles : (c.nextInstruction bus).cycles.toNat ≤ 8 :=
    UInt8.le_iff_toNat_le.1 (two_le_cycles_lookup _).2
  have hcrossing := c.crossingCycles_le bus
  have hbranch := c.branchCycles_le bus
  -- The three parts fit into the counter, so nothing wraps.
  rw [hrun, hcrossed, remaining_charged, hended, hcharge, hstart, cost, UInt8.toNat_add,
    UInt8.toNat_add, UInt8.toNat_ofNat', UInt8.toNat_ofNat']
  omega

/-- Only the indexed modes add an index. -/
theorem mem_indexed_of_crossesPage {c : Cpu} {bus : β} (h : c.crossesPage bus = true) :
    (c.nextInstruction bus).mode ∈ AddressingMode.indexed := by
  rw [crossesPage, indexing?] at h
  cases hmode : (c.nextInstruction bus).mode with
  | absoluteX | absoluteY | indirectIndexed => decide
  | _ =>
    rw [hmode] at h
    cases h

theorem mem_branches_of_branchCycles {c : Cpu} {bus : β} (h : c.branchCycles bus ≠ 0) :
    (c.nextInstruction bus).op ∈ Op.branches := by
  by_contra hbranch
  obtain ⟨-, htaken⟩ := Op.charge_of_notMem_branches hbranch c c.regs.status
  rw [branchCycles, htaken] at h
  exact h rfl

/-- An instruction takes between two and eight cycles. -/
theorem cost_bounds (c : Cpu) (bus : β) : 2 ≤ c.cost bus ∧ c.cost bus ≤ 8 := by
  have hlow : 2 ≤ (c.nextInstruction bus).cycles.toNat :=
    UInt8.le_iff_toNat_le.1 (two_le_cycles_lookup _).1
  have hhigh := cycles_lookup_le (Bus.read bus c.regs.pc).1
  have hcrossing : c.crossingCycles bus ≤
      if (c.nextInstruction bus).mode ∈ AddressingMode.indexed ∧
        (c.nextInstruction bus).op ∈ Op.crossing then 1 else 0 := by
    rw [crossingCycles]
    split
    · rename_i h
      exact Nat.le_of_eq (if_pos ⟨mem_indexed_of_crossesPage h.1, h.2⟩).symm
    · exact Nat.zero_le _
  have hbranch : c.branchCycles bus ≤
      if (c.nextInstruction bus).op ∈ Op.branches then 2 else 0 := by
    split
    · exact c.branchCycles_le bus
    · rename_i h
      by_contra hpositive
      exact h (mem_branches_of_branchCycles (by omega))
  refine ⟨?_, ?_⟩
  · rw [cost]
    omega
  · exact Nat.le_trans (Nat.add_le_add (Nat.add_le_add_left hcrossing _) hbranch) hhigh

/-! ## Steps and clocks -/

theorem run_clock_of_complete {c : Cpu} (hc : c.complete = true) (bus : β) :
    c.clock.run bus = ((c.begin.run bus).1.tick, (c.begin.run bus).2) := by
  rw [clock_of_complete hc, Program.run_bind]
  rfl

/-- The first clock of an instruction leaves all its other cycles. -/
theorem toNat_remaining_clock {c : Cpu} (hc : c.complete = true) (bus : β) :
    (c.clock.run bus).1.remaining.toNat = c.cost bus - 1 := by
  have hcost := c.toNat_remaining_begin bus
  have hlow := (c.cost_bounds bus).1
  rw [run_clock_of_complete hc, tick_eq_waited, toNat_remaining_waited (by omega), hcost]

/-- How a step from a boundary spends its cycles: it counts the cost of the instruction; the first
clock makes all the accesses and all the changes of registers; the later ones move the two counters
alone; and the last one, and none before, ends at a boundary, where the step ends. -/
structure Spends (c : Cpu) (bus : β) : Prop where
  count_eq : (c.step.run bus).1.1.toNat = c.cost bus
  two_le_cost : 2 ≤ c.cost bus
  cost_le_eight : c.cost bus ≤ 8
  state_eq : ∀ k, 1 ≤ k → k ≤ c.cost bus → ((clocks k c).run bus).1 =
    { (c.clock.run bus).1 with
      remaining := UInt8.ofNat (c.cost bus - k)
      clockCount := c.clockCount + UInt64.ofNat k }
  bus_eq : ∀ k, 1 ≤ k → k ≤ c.cost bus → ((clocks k c).run bus).2 = (c.clock.run bus).2
  accesses_eq : ∀ k, 1 ≤ k → k ≤ c.cost bus → (clocks k c).accesses bus = c.clock.accesses bus
  complete_iff : ∀ k, 1 ≤ k → k ≤ c.cost bus →
    (((clocks k c).run bus).1.complete = true ↔ k = c.cost bus)
  clocks_eq : (clocks (c.cost bus) c).run bus = ((c.step.run bus).1.2, (c.step.run bus).2)

/-- The states of an instruction in progress. -/
theorem waited_clock {c : Cpu} (hc : c.complete = true) (bus : β) {n : Nat}
    (hn : n + 1 ≤ c.cost bus) :
    (c.clock.run bus).1.waited n =
      { (c.clock.run bus).1 with
        remaining := UInt8.ofNat (c.cost bus - (n + 1))
        clockCount := c.clockCount + UInt64.ofNat (n + 1) } := by
  have hfirst := toNat_remaining_clock hc bus
  have hhigh := (c.cost_bounds bus).2
  have hcount := (returns_clock_clockCount c).run bus
  generalize (c.clock.run bus).1 = started at hfirst hcount ⊢
  have hleft := toNat_remaining_waited (c := started) (n := n) (by omega)
  have hremaining : started.remaining - UInt8.ofNat n = UInt8.ofNat (c.cost bus - (n + 1)) := by
    apply UInt8.toNat_inj.1
    rw [UInt8.toNat_ofNat']
    show (started.waited n).remaining.toNat = _
    omega
  have hclockCount : started.clockCount + UInt64.ofNat n =
      c.clockCount + UInt64.ofNat (n + 1) := by
    rw [hcount, UInt64.ofNat_add]
    grind
  rw [waited, hremaining, hclockCount]

/-- A step from a boundary spends the cost of its instruction. -/
theorem spends_of_complete {c : Cpu} (hc : c.complete = true) (bus : β) : c.Spends bus := by
  obtain ⟨hlow, hhigh⟩ := c.cost_bounds bus
  have hfirst := toNat_remaining_clock hc bus
  have hcount : (c.step.run bus).1.1.toNat = c.cost bus := by
    rw [toNat_count_step, hfirst]
    omega
  -- After the first clock the others wait, and their states are those of `waited_clock`.
  have hclocks : ∀ k, 1 ≤ k → k ≤ c.cost bus →
      ((clocks k c).run bus).1 =
        { (c.clock.run bus).1 with
          remaining := UInt8.ofNat (c.cost bus - k)
          clockCount := c.clockCount + UInt64.ofNat k } ∧
      ((clocks k c).run bus).2 = (c.clock.run bus).2 ∧
      (clocks k c).accesses bus = c.clock.accesses bus := by
    intro k hk hle
    obtain ⟨n, rfl⟩ := Nat.exists_eq_add_of_le' hk
    obtain ⟨hrun, haccesses⟩ := c.clocks_succ_run bus (n := n) (by omega)
    rw [hrun]
    exact ⟨waited_clock hc bus hle, rfl, haccesses⟩
  constructor
  · exact hcount
  · exact hlow
  · exact hhigh
  · exact fun k hk hle => (hclocks k hk hle).1
  · exact fun k hk hle => (hclocks k hk hle).2.1
  · exact fun k hk hle => (hclocks k hk hle).2.2
  · intro k hk hle
    rw [(hclocks k hk hle).1, complete_iff]
    show (UInt8.ofNat (c.cost bus - k)).toNat = 0 ↔ _
    rw [UInt8.toNat_ofNat']
    omega
  · rw [← hcount]
    exact (c.run_clocks_count bus).1

theorem crossingCycles_of_notMem_indexed {c : Cpu} {bus : β}
    (h : (c.nextInstruction bus).mode ∉ AddressingMode.indexed) : c.crossingCycles bus = 0 :=
  if_neg fun hcrosses => h (mem_indexed_of_crossesPage hcrosses.1)

/-- An instruction that has no page to pay for and does not branch takes the cycles of its row. -/
theorem count_step_of_crossingCycles {c : Cpu} (hc : c.complete = true) (bus : β)
    (hcrossing : c.crossingCycles bus = 0)
    (hbranches : (c.nextInstruction bus).op ∉ Op.branches) :
    (c.step.run bus).1.1 = (c.nextInstruction bus).cycles.toUInt32 := by
  have hcount := (spends_of_complete hc bus).count_eq
  have hbranch : c.branchCycles bus = 0 := by
    by_contra hne
    exact hbranches (mem_branches_of_branchCycles hne)
  apply UInt32.toNat_inj.1
  rw [hcount, cost, hcrossing, hbranch, UInt8.toNat_toUInt32]
  rfl

/-- An instruction that neither pays for a crossed page nor branches takes the cycles of its row. -/
theorem count_step_of_plain {c : Cpu} (hc : c.complete = true) (bus : β)
    (hcrossing : (c.nextInstruction bus).op ∉ Op.crossing)
    (hbranches : (c.nextInstruction bus).op ∉ Op.branches) :
    (c.step.run bus).1.1 = (c.nextInstruction bus).cycles.toUInt32 :=
  count_step_of_crossingCycles hc bus (if_neg fun h => hcrossing h.2) hbranches

end Cost

/-- How steps spend cycles. From a boundary a step spends the cost of the instruction. Within an
instruction it counts the cycles that remain, lets them pass and touches neither registers nor bus.
Any number of steps is as many clocks as the steps count together, and moves the count of cycles by
that sum. -/
theorem cycle_accounting {β : Type v} [Bus β] (c : Cpu) (bus : β) :
    (c.complete = true → c.Spends bus) ∧
      (c.complete = false →
        c.step.run bus = ((c.remaining.toUInt32,
          { c with remaining := 0, clockCount := c.clockCount + c.remaining.toUInt64 }), bus) ∧
        c.step.accesses bus = []) ∧
      ∀ n, let ended := (steps n c).run bus
        (clocks ended.1.1 c).run bus = (ended.1.2, ended.2) ∧
          (clocks ended.1.1 c).accesses bus = (steps n c).accesses bus ∧
          ended.1.2.clockCount = c.clockCount + UInt64.ofNat ended.1.1 := by
  refine ⟨fun hc => spends_of_complete hc bus, fun hc => ?_, fun n => run_clocks_total n c bus⟩
  rw [step_of_busy hc, waited_remaining]
  exact ⟨rfl, rfl⟩

/-- A load that is indexed past the top of memory takes five cycles, and a processor with three
cycles left takes these. -/
theorem cycle_accounting_wrapped_load :
    let memory := ((FlatMemory.zero.write 0 0xBD).write 1 0xFF).write 2 0xFF
    let fresh : Cpu := { Cpu.powerOn with regs.x := 1 }
    let busy : Cpu := { fresh with remaining := 3 }
    fresh.complete = true ∧ fresh.Spends memory ∧ (fresh.step.run memory).1.1.toNat = 5 ∧
      busy.complete = false ∧ (busy.step.run memory).1.1 = 3 := by
  intro memory fresh busy
  have hspends := (cycle_accounting fresh memory).1 rfl
  have hcost : fresh.cost memory = 5 := by decide +kernel
  have hwaits := (cycle_accounting busy memory).2.1 rfl
  refine ⟨rfl, hspends, hspends.count_eq.trans hcost, rfl, ?_⟩
  rw [hwaits.1]
  rfl

end Cpu

end NesMachine
