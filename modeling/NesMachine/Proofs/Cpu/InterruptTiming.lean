import NesMachine.Proofs.Cpu.Cost
import NesMachine.Proofs.Cpu.Stack

/-!
# When an interrupt comes

A non-maskable interrupt and a request that is not masked do the same with their own vector and time
(`Cpu.interrupt`): they save the registers as they find them, and load the counter of cycles
whatever is in it.

The first cycle of an instruction does all its work, and the others are waiting
(`Cpu.clocks_cost_eq`). An interrupt therefore finds the instruction done after any of its cycles,
and leads to the same state as after the last one but for the count of cycles
(`Cpu.untorn_interrupt`). Its own sequence, and that of a reset, only waits
(`Cpu.waits_remaining`).
-/

set_option autoImplicit false

namespace NesMachine

universe v

namespace Cpu

open Program

/-! ## Taking an interrupt -/

/-- An interrupt that is taken: the entry into its handler, and so many cycles to wait. -/
def interrupt (c : Cpu) (vector : UInt16) (cycles : UInt8) : Program Cpu := do
  let entered ← c.enterHandler false vector
  return { entered with remaining := cycles }

theorem nmi_eq (c : Cpu) : c.nmi = c.interrupt nmiVector 8 := rfl

theorem irq_of_unmasked {c : Cpu} (h : c.regs.status.interruptDisable = false) :
    c.irq = c.interrupt irqVector 7 := by
  rw [irq, h]
  rfl

theorem irq_of_masked {c : Cpu} (h : c.regs.status.interruptDisable = true) :
    c.irq = .done c := by
  rw [irq, h]
  rfl

section Running

variable {β : Type v} [Bus β]

/-- The accesses of an interrupt that finds some registers: it saves the program counter and the
status, and then reads the address to go on at from its vector. -/
def EntryAccesses (r : Registers) (vector target : UInt16) (made : List Access) : Prop :=
  ∃ low high, target = word low high ∧
    made = stackWrites r.sp (Frame.handler false r.status r.pc).bytes ++
      [.read vector low, .read (vector + 1) high]

/-- An interrupt is taken: it masks requests, goes on at its vector and leaves A, X and Y. -/
structure Takes (c : Cpu) (bus : β) (p : Program Cpu) (vector : UInt16) (cycles : UInt8) :
    Prop where
  accesses : EntryAccesses c.regs vector (p.run bus).1.regs.pc (p.accesses bus)
  state_eq : (p.run bus).1 =
    { c with
      regs.sp := c.regs.sp - 3
      regs.pc := (p.run bus).1.regs.pc
      regs.status.interruptDisable := true
      remaining := cycles }

theorem takes_interrupt (c : Cpu) (bus : β) (vector : UInt16) (cycles : UInt8) :
    c.Takes bus (c.interrupt vector cycles) vector cycles := by
  have hsp : c.regs.sp - 1 - 1 - 1 = c.regs.sp - 3 := by grind
  constructor
  · exact ⟨_, _, rfl, rfl⟩
  · rw [← hsp]
    rfl

/-! ## Waiting for the end of a sequence -/

/-- The next clock fetches an opcode at an address. -/
def Fetches (c : Cpu) (bus : β) (addr : UInt16) : Prop :=
  ∃ opcode rest, c.clock.accesses bus = .read addr opcode :: rest

/-- At a boundary the next clock fetches at the program counter. -/
theorem fetches_of_complete {c : Cpu} (hc : c.complete = true) (bus : β) :
    c.Fetches bus c.regs.pc := by
  rw [Fetches, ← accesses_step_eq_clock, accesses_step hc, accesses_begin]
  exact ⟨_, _, rfl⟩

/-- Exactly so many cycles pass before a boundary. They change no register and touch no bus, and the
clock after them fetches at the program counter. -/
structure Waits (c : Cpu) (bus : β) (n : Nat) : Prop where
  regs_eq : ∀ j, j ≤ n → ((clocks j c).run bus).1.regs = c.regs
  bus_eq : ∀ j, j ≤ n → ((clocks j c).run bus).2 = bus
  accesses_eq : ∀ j, j ≤ n → (clocks j c).accesses bus = []
  complete_iff : ∀ j, j ≤ n → (((clocks j c).run bus).1.complete = true ↔ j = n)
  fetches : ((clocks n c).run bus).1.Fetches ((clocks n c).run bus).2 c.regs.pc

/-- A processor waits for the cycles that remain. -/
theorem waits_remaining (c : Cpu) (bus : β) : c.Waits bus c.remaining.toNat := by
  -- No clock before the end starts an instruction.
  have hrun : ∀ j, j ≤ c.remaining.toNat → (clocks j c).run bus = (c.waited j, bus) := by
    intro j hj
    rw [clocks_of_le hj]
    rfl
  have hcomplete : ∀ j, j ≤ c.remaining.toNat →
      (((clocks j c).run bus).1.complete = true ↔ j = c.remaining.toNat) := by
    intro j hj
    rw [hrun j hj, complete_iff, toNat_remaining_waited hj]
    omega
  constructor
  · intro j hj
    rw [hrun j hj]
    rfl
  · intro j hj
    rw [hrun j hj]
  · intro j hj
    rw [clocks_of_le hj]
    rfl
  · exact hcomplete
  · have hend := (hcomplete _ (Nat.le_refl _)).2 rfl
    rw [hrun _ (Nat.le_refl _)] at hend ⊢
    exact fetches_of_complete hend bus

/-- A sequence that ends with the reads of its vector, takes exactly so many cycles, and goes on at
the address that it read. -/
structure Lasts (p : Program Cpu) (bus : β) (vector : UInt16) (n : Nat) : Prop where
  target : ∃ earlier low high, (p.run bus).1.regs.pc = word low high ∧
    p.accesses bus = earlier ++ [.read vector low, .read (vector + 1) high]
  waits : (p.run bus).1.Waits (p.run bus).2 n

theorem lasts_interrupt (c : Cpu) (bus : β) (vector : UInt16) (cycles : UInt8) :
    Lasts (c.interrupt vector cycles) bus vector cycles.toNat := by
  obtain ⟨low, high, htarget, haccesses⟩ := (c.takes_interrupt bus vector cycles).accesses
  exact ⟨⟨_, low, high, htarget, haccesses⟩, waits_remaining _ _⟩

theorem lasts_reset (c : Cpu) (bus : β) : Lasts c.reset bus resetVector 8 :=
  ⟨⟨[], _, _, rfl, rfl⟩, waits_remaining _ _⟩

/-! ## Interrupts within an instruction -/

/-- Two outcomes differ in the count of cycles alone. -/
def OnlyLater (n : Nat) (early late : Cpu × β) : Prop :=
  late = ({ early.1 with clockCount := early.1.clockCount + UInt64.ofNat n }, early.2)

/-- An interrupt is as good early as it is late: it makes the same accesses, with which it saves the
registers that the instruction leaves, and only the count of cycles tells the difference. -/
structure Untorn (left : Registers) (n : Nat) (early late : Cpu × β) (call : Cpu → Program Cpu)
    (vector : UInt16) : Prop where
  onlyLater : OnlyLater n ((call early.1).run early.2) ((call late.1).run late.2)
  accesses_eq : (call late.1).accesses late.2 = (call early.1).accesses early.2
  saves : EntryAccesses left vector ((call early.1).run early.2).1.regs.pc
    ((call early.1).accesses early.2)

/-- An interrupt drops the cycles that remained, and passes the count of cycles on. -/
theorem untorn_interrupt (d : Cpu) (n : Nat) (bus : β) (vector : UInt16) (cycles : UInt8) :
    Untorn d.regs n (d, bus) (d.waited n, bus) (·.interrupt vector cycles) vector where
  onlyLater := rfl
  accesses_eq := rfl
  saves := (d.takes_interrupt bus vector cycles).accesses

variable {c : Cpu} {bus : β} {k : Nat}

/-- After the first cycle of an instruction the rest of its cycles is waiting. -/
theorem clocks_cost_eq (hc : c.complete = true) (hk : 1 ≤ k) (hle : k ≤ c.cost bus) :
    (clocks (c.cost bus) c).run bus =
      (((clocks k c).run bus).1.waited (c.cost bus - k), ((clocks k c).run bus).2) := by
  have hspends := spends_of_complete hc bus
  have hhigh := hspends.cost_le_eight
  -- The counter holds the cycles that are left, so all later clocks fall within the instruction.
  have hleft : c.cost bus - k ≤ ((clocks k c).run bus).1.remaining.toNat := by
    rw [hspends.state_eq k hk hle]
    show c.cost bus - k ≤ (UInt8.ofNat (c.cost bus - k)).toNat
    rw [UInt8.toNat_ofNat']
    omega
  have hsplit := congrArg (Program.run · bus) (clocks_add k (c.cost bus - k) c)
  rw [Nat.add_sub_cancel' hle, Program.run_bind, clocks_of_le hleft] at hsplit
  exact hsplit

/-- After the first cycle of an instruction the registers are as it leaves them. -/
theorem regs_clocks (hc : c.complete = true) (hk : 1 ≤ k) (hle : k ≤ c.cost bus) :
    ((clocks k c).run bus).1.regs = (c.step.run bus).1.2.regs := by
  have hend := clocks_cost_eq hc hk hle
  rw [(spends_of_complete hc bus).clocks_eq] at hend
  exact (congrArg (·.1.regs) hend).symm

/-! ## Main statement -/

/-- Interrupts come between instructions. The next instruction is fetched where the one in progress
leads to, and an interrupt in the time of the latter is an interrupt at its end. -/
structure NeverTorn (c : Cpu) (bus : β) : Prop where
  follows : (c.step.run bus).1.2.Fetches (c.step.run bus).2 (c.step.run bus).1.2.regs.pc
  nmi : ∀ k, 1 ≤ k → k ≤ c.cost bus →
    Untorn (c.step.run bus).1.2.regs (c.cost bus - k) ((clocks k c).run bus)
      ((clocks (c.cost bus) c).run bus) Cpu.nmi nmiVector
  /-- A request is taken if the instruction leaves it unmasked. -/
  irq : (c.step.run bus).1.2.regs.status.interruptDisable = false →
    ∀ k, 1 ≤ k → k ≤ c.cost bus →
      Untorn (c.step.run bus).1.2.regs (c.cost bus - k) ((clocks k c).run bus)
        ((clocks (c.cost bus) c).run bus) Cpu.irq irqVector
  /-- A request that the instruction leaves masked does nothing, whenever it comes. -/
  masked : (c.step.run bus).1.2.regs.status.interruptDisable = true →
    ∀ k, 1 ≤ k → k ≤ c.cost bus →
      let s := (clocks k c).run bus
      s.1.irq.run s.2 = s ∧ s.1.irq.accesses s.2 = []

/-- No interrupt tears the instruction that starts at a boundary. -/
theorem neverTorn_of_complete (hc : c.complete = true) (bus : β) : c.NeverTorn bus := by
  -- Late is early and some waiting, for both kinds of interrupt.
  have htaken : ∀ k, 1 ≤ k → k ≤ c.cost bus → ∀ (vector : UInt16) (cycles : UInt8),
      Untorn (c.step.run bus).1.2.regs (c.cost bus - k) ((clocks k c).run bus)
        ((clocks (c.cost bus) c).run bus) (·.interrupt vector cycles) vector := by
    intro k hk hle vector cycles
    rw [clocks_cost_eq hc hk hle, ← regs_clocks hc hk hle]
    exact untorn_interrupt _ _ _ vector cycles
  constructor
  · exact fetches_of_complete (complete_step c bus) _
  · intro k hk hle
    exact htaken k hk hle nmiVector 8
  · intro hunmasked k hk hle
    -- After each of the cycles the status is the one at the end, so a request is taken.
    have hopen : ∀ j, 1 ≤ j → j ≤ c.cost bus →
        ((clocks j c).run bus).1.irq = ((clocks j c).run bus).1.interrupt irqVector 7 := by
      intro j hj hjle
      apply irq_of_unmasked
      rw [regs_clocks hc hj hjle]
      exact hunmasked
    obtain ⟨honly, haccesses, hsaves⟩ := htaken k hk hle irqVector 7
    rw [← hopen k hk hle] at honly haccesses hsaves
    rw [← hopen _ (Nat.le_trans hk hle) (Nat.le_refl _)] at honly haccesses
    exact ⟨honly, haccesses, hsaves⟩
  · intro hmasked k hk hle s
    rw [← regs_clocks hc hk hle] at hmasked
    rw [irq_of_masked hmasked]
    exact ⟨rfl, rfl⟩

/-- An interrupt never tears an instruction, and it and a reset take exactly their own time: eight
cycles for a non-maskable interrupt and a reset, seven for a request that is taken. -/
theorem interrupts_between_instructions (c : Cpu) (bus : β) :
    (c.complete = true → c.NeverTorn bus) ∧
      Lasts c.nmi bus nmiVector 8 ∧
      (c.regs.status.interruptDisable = false → Lasts c.irq bus irqVector 7) ∧
      Lasts c.reset bus resetVector 8 := by
  refine ⟨?_, ?_, ?_, ?_⟩
  · intro hc
    exact neverTorn_of_complete hc bus
  · rw [nmi_eq]
    exact c.lasts_interrupt bus nmiVector 8
  · intro hunmasked
    rw [irq_of_unmasked hunmasked]
    exact c.lasts_interrupt bus irqVector 7
  · exact c.lasts_reset bus

/-- A branch that is taken to another page has four cycles. A request after the first of them comes
back to the target of the branch. -/
theorem interrupts_between_instructions_taken_branch :
    let memory := (FlatMemory.zero.write 0x00F0 0xD0).write 0x00F1 0x7F
    let c : Cpu := { powerOn with regs.pc := 0x00F0 }
    c.complete = true ∧ c.cost memory = 4 ∧ c.NeverTorn memory ∧
      (c.step.run memory).1.2.regs.status.interruptDisable = false ∧
      (c.step.run memory).1.2.regs.pc = 0x0171 ∧
      Untorn (c.step.run memory).1.2.regs 3 ((clocks 1 c).run memory) ((clocks 4 c).run memory)
        Cpu.irq irqVector ∧
      c.regs.status.interruptDisable = false ∧ Lasts c.irq memory irqVector 7 := by
  intro memory c
  obtain ⟨htorn, -, hirq, -⟩ := interrupts_between_instructions c memory
  have hcost : c.cost memory = 4 := by decide +kernel
  have hunmasked : (c.step.run memory).1.2.regs.status.interruptDisable = false := by
    decide +kernel
  have htarget : (c.step.run memory).1.2.regs.pc = 0x0171 := by decide +kernel
  refine ⟨rfl, hcost, htorn rfl, hunmasked, htarget, ?_, rfl, hirq rfl⟩
  have huntorn := (htorn rfl).irq hunmasked 1 (Nat.le_refl _)
  rw [hcost] at huntorn
  exact huntorn (by decide)

end Running

end Cpu

end NesMachine
