import NesMachine.Proofs.Cpu.Control

/-!
# Steps as clocks

All the work of an instruction is done by the first of its cycles, and the others only move the two
counters (`Cpu.clocks_of_le`). A step is therefore a clock and the waiting that this clock leaves
(`Cpu.step_eq`); it makes as many clocks as it counts (`Cpu.run_clocks_count`), and so do any number
of steps (`Cpu.run_clocks_total`).
-/

set_option autoImplicit false

namespace NesMachine.Cpu

universe v

/-! ## Waiting -/

/-- The processor after some cycles of waiting: only the counters move. -/
def waited (c : Cpu) (n : Nat) : Cpu :=
  { c with
    remaining := c.remaining - UInt8.ofNat n
    clockCount := c.clockCount + UInt64.ofNat n }

theorem waited_zero (c : Cpu) : c.waited 0 = c := by
  simp [waited]

theorem tick_eq_waited (c : Cpu) : c.tick = c.waited 1 := rfl

theorem waited_waited (c : Cpu) (m n : Nat) : (c.waited m).waited n = c.waited (m + n) := by
  have hremaining : c.remaining - UInt8.ofNat m - UInt8.ofNat n =
      c.remaining - UInt8.ofNat (m + n) := by
    rw [UInt8.ofNat_add]
    grind
  have hcount : c.clockCount + UInt64.ofNat m + UInt64.ofNat n =
      c.clockCount + UInt64.ofNat (m + n) := by
    rw [UInt64.ofNat_add, UInt64.add_assoc]
  simp only [waited, hremaining, hcount]

/-- The cycles that are left while some of them pass. -/
theorem toNat_remaining_waited {c : Cpu} {n : Nat} (h : n ≤ c.remaining.toNat) :
    (c.waited n).remaining.toNat = c.remaining.toNat - n := by
  have hlt := c.remaining.toNat_lt
  have hn : (UInt8.ofNat n).toNat = n := by
    rw [UInt8.toNat_ofNat']
    omega
  have hle : UInt8.ofNat n ≤ c.remaining := by
    rw [UInt8.le_iff_toNat_le, hn]
    exact h
  show (c.remaining - UInt8.ofNat n).toNat = _
  rw [UInt8.toNat_sub_of_le _ _ hle, hn]

theorem repeat_tick (c : Cpu) (n : Nat) : Nat.repeat tick n c = c.waited n := by
  induction n with
  | zero => exact c.waited_zero.symm
  | succ n ih =>
    rw [Nat.repeat, ih, tick_eq_waited, waited_waited]

theorem drain_eq_waited (c : Cpu) : c.drain = c.waited c.remaining.toNat :=
  c.repeat_tick _

theorem complete_eq_false_iff (c : Cpu) : c.complete = false ↔ 0 < c.remaining.toNat := by
  rw [complete, beq_eq_false_iff_ne, Nat.pos_iff_ne_zero, Ne, Ne, ← UInt8.toNat_inj]
  rfl

theorem complete_iff (c : Cpu) : c.complete = true ↔ c.remaining.toNat = 0 := by
  have hbusy := c.complete_eq_false_iff
  rw [Nat.pos_iff_ne_zero] at hbusy
  rw [← Bool.not_eq_false, hbusy, Decidable.not_not]

/-- No cycles remain of an instruction that has ended. -/
theorem drain_of_complete {c : Cpu} (h : c.complete = true) : c.drain = c := by
  rw [drain_eq_waited, c.complete_iff.1 h, waited_zero]

/-! ## Clocks -/

/-- Some cycles, one after the other. -/
def clocks : Nat → Cpu → Program Cpu
  | 0, c => return c
  | n + 1, c => do
      let c ← c.clock
      clocks n c

theorem clocks_add (m n : Nat) (c : Cpu) :
    clocks (m + n) c = clocks m c >>= clocks n := by
  induction m generalizing c with
  | zero =>
    rw [Nat.zero_add]
    rfl
  | succ m ih =>
    rw [Nat.succ_add, clocks, clocks, Program.bind_assoc]
    exact congrArg _ (funext fun c => ih c)

theorem clock_of_busy {c : Cpu} (h : c.complete = false) : c.clock = .done c.tick := by
  rw [clock, h]
  rfl

/-- Clocks within an instruction are waiting. -/
theorem clocks_of_le {c : Cpu} {n : Nat} (h : n ≤ c.remaining.toNat) :
    clocks n c = .done (c.waited n) := by
  induction n generalizing c with
  | zero =>
    rw [waited_zero]
    rfl
  | succ n ih =>
    have hbusy : c.complete = false := by
      rw [complete_eq_false_iff]
      omega
    have hlater : n ≤ (c.waited 1).remaining.toNat := by
      rw [toNat_remaining_waited (by omega)]
      omega
    rw [clocks, clock_of_busy hbusy, Program.done_bind, tick_eq_waited, ih hlater, waited_waited,
      Nat.add_comm]

/-! ## The counters during an instruction -/

theorem returns_resolve_counters (c : Cpu) (mode : AddressingMode) :
    (c.resolve mode).Returns fun found =>
      found.2.remaining = c.remaining ∧ found.2.clockCount = c.clockCount := by
  cases mode <;>
    simp [resolve, fetchByte, fetchWord, readWordInPage, Program.readByte, Program.Returns, aim,
      aimIndexed]

/-- The cycles that an action adds: those of a branch that is taken. -/
def charge (c : Cpu) : Action → UInt8
  | .branch taken =>
      if taken c.regs.status then
        if samePage (c.regs.pc + c.latches.displacement) c.regs.pc then 1 else 2
      else 0
  | _ => 0

/-- Only branches take time of their own. -/
theorem returns_perform_counters (c : Cpu) (a : Action) :
    (c.perform a).Returns fun ended =>
      ended.remaining = c.remaining + c.charge a ∧ ended.clockCount = c.clockCount := by
  cases a with
  | load result =>
    by_cases hmode : c.latches.mode = .implied <;>
      simp [perform, loadOperand, hmode, Program.readByte, Program.Returns, charge]
  | modify result =>
    by_cases hmode : c.latches.mode = .implied <;>
      simp [perform, loadOperand, storeOperand, hmode, Program.readByte, Program.writeByte,
        Program.Returns, charge]
  | branch taken =>
    cases htaken : taken c.regs.status <;>
      simp [perform, branch, htaken, Program.Returns, charge]
  | _ =>
    simp [perform, push, pull, pushWord, pullWord, enterHandler, readWord, Program.readByte,
      Program.writeByte, Program.Returns, charge]

/-- An instruction leaves the count of cycles to the clock. -/
theorem returns_begin_clockCount (c : Cpu) :
    c.begin.Returns fun done => done.clockCount = c.clockCount := by
  rw [begin_eq]
  intro opcode
  have hfound := returns_resolve_counters (c.started opcode) (lookup opcode).mode
  apply hfound.bind
  rintro ⟨crossed, found⟩ ⟨-, hcount⟩
  have hended := returns_perform_counters found (lookup opcode).op.action
  apply hended.bind
  rintro ended ⟨-, hended⟩
  exact hended.trans hcount

/-- A clock counts itself. -/
theorem returns_clock_clockCount (c : Cpu) :
    c.clock.Returns fun started => started.clockCount = c.clockCount + 1 := by
  cases hc : c.complete with
  | false =>
    rw [clock_of_busy hc]
    exact rfl
  | true =>
    rw [clock, if_pos hc]
    apply c.returns_begin_clockCount.bind
    intro done hdone
    exact congrArg (· + 1) hdone

/-! ## Steps -/

theorem step_eq (c : Cpu) :
    c.step = (do
      let started ← c.clock
      let finished := started.waited started.remaining.toNat
      return ((finished.clockCount - c.clockCount).toUInt32, finished)) := by
  simp only [step, drain_eq_waited]

theorem waited_remaining (c : Cpu) : c.waited c.remaining.toNat =
    { c with remaining := 0, clockCount := c.clockCount + c.remaining.toUInt64 } := by
  have hcount : UInt64.ofNat c.remaining.toNat = c.remaining.toUInt64 := by
    apply UInt64.toNat_inj.1
    have hlt := c.remaining.toNat_lt
    rw [UInt64.toNat_ofNat', UInt8.toNat_toUInt64]
    omega
  rw [waited, hcount, UInt8.ofNat_toNat, UInt8.sub_self]

/-- All the cycles that remain are one and those after it. -/
theorem waited_tick_remaining {c : Cpu} (h : c.complete = false) :
    c.tick.waited c.tick.remaining.toNat = c.waited c.remaining.toNat := by
  have hpositive := c.complete_eq_false_iff.1 h
  rw [tick_eq_waited, waited_waited, toNat_remaining_waited hpositive,
    Nat.add_sub_cancel' hpositive]

theorem step_of_busy {c : Cpu} (h : c.complete = false) :
    c.step = .done (c.remaining.toUInt32, c.waited c.remaining.toNat) := by
  have hcount : (c.waited c.remaining.toNat).clockCount - c.clockCount = c.remaining.toUInt64 := by
    rw [waited_remaining]
    show c.clockCount + _ - c.clockCount = _
    grind
  rw [step_eq, clock_of_busy h, Program.done_bind]
  dsimp only
  rw [waited_tick_remaining h, hcount]
  simp

section Running

variable {β : Type v} [Bus β]

/-- What a step does on a bus: the cycles after its first clock are waiting, and it counts all. -/
theorem run_step (c : Cpu) (bus : β) :
    c.step.run bus =
      let (started, later) := c.clock.run bus
      ((UInt32.ofNat (started.remaining.toNat + 1), started.waited started.remaining.toNat),
        later) := by
  have hcount := (returns_clock_clockCount c).run bus
  rw [step_eq, Program.run_bind]
  generalize c.clock.run bus = ended at hcount ⊢
  obtain ⟨started, later⟩ := ended
  have hdifference : c.clockCount + 1 + UInt64.ofNat started.remaining.toNat - c.clockCount =
      UInt64.ofNat (started.remaining.toNat + 1) := by
    rw [UInt64.ofNat_add]
    grind
  show (((started.clockCount + UInt64.ofNat _ - c.clockCount).toUInt32, _), later) = _
  rw [hcount, hdifference]
  simp

/-- A step touches the bus in its first clock alone. -/
theorem accesses_step_eq_clock (c : Cpu) (bus : β) :
    c.step.accesses bus = c.clock.accesses bus := by
  rw [step_eq, Program.accesses_bind]
  exact List.append_nil _

theorem toNat_count_step (c : Cpu) (bus : β) :
    (c.step.run bus).1.1.toNat = (c.clock.run bus).1.remaining.toNat + 1 := by
  have hlt := (c.clock.run bus).1.remaining.toNat_lt
  rw [run_step, UInt32.toNat_ofNat']
  omega

theorem clocks_succ_run (c : Cpu) (bus : β) {n : Nat}
    (h : n ≤ (c.clock.run bus).1.remaining.toNat) :
    (clocks (n + 1) c).run bus = ((c.clock.run bus).1.waited n, (c.clock.run bus).2) ∧
      (clocks (n + 1) c).accesses bus = c.clock.accesses bus := by
  rw [clocks, Program.run_bind, Program.accesses_bind, clocks_of_le h]
  exact ⟨rfl, List.append_nil _⟩

/-- A step is as many clocks as it counts. -/
theorem run_clocks_count (c : Cpu) (bus : β) :
    (clocks (c.step.run bus).1.1.toNat c).run bus =
        ((c.step.run bus).1.2, (c.step.run bus).2) ∧
      (clocks (c.step.run bus).1.1.toNat c).accesses bus = c.step.accesses bus := by
  rw [toNat_count_step, accesses_step_eq_clock, run_step]
  exact c.clocks_succ_run bus (Nat.le_refl _)

theorem clockCount_step (c : Cpu) (bus : β) :
    (c.step.run bus).1.2.clockCount =
      c.clockCount + UInt64.ofNat (c.step.run bus).1.1.toNat := by
  have hcount := (returns_clock_clockCount c).run bus
  rw [toNat_count_step, run_step]
  show (c.clock.run bus).1.clockCount + UInt64.ofNat _ = _
  rw [hcount, UInt64.ofNat_add]
  grind

theorem complete_step (c : Cpu) (bus : β) : (c.step.run bus).1.2.complete = true := by
  rw [run_step]
  show ((c.clock.run bus).1.waited _).complete = true
  rw [waited_remaining]
  rfl

end Running

/-- Some steps, one after the other, with the sum of the cycles that they count. -/
def steps : Nat → Cpu → Program (Nat × Cpu)
  | 0, c => return (0, c)
  | n + 1, c => do
      let (count, c) ← c.step
      let (total, c) ← steps n c
      return (count.toNat + total, c)

section Running

variable {β : Type v} [Bus β]

theorem run_steps_succ (n : Nat) (c : Cpu) (bus : β) :
    (steps (n + 1) c).run bus =
      let first := c.step.run bus
      let rest := (steps n first.1.2).run first.2
      ((first.1.1.toNat + rest.1.1, rest.1.2), rest.2) := by
  simp only [steps, Program.run_bind]
  rfl

theorem accesses_steps_succ (n : Nat) (c : Cpu) (bus : β) :
    (steps (n + 1) c).accesses bus =
      c.step.accesses bus ++ (steps n (c.step.run bus).1.2).accesses (c.step.run bus).2 := by
  simp only [steps, Program.accesses_bind]
  exact congrArg _ (List.append_nil _)

/-- Any number of steps is as many clocks as the steps count, and moves the count of cycles by
that many. -/
theorem run_clocks_total (n : Nat) (c : Cpu) (bus : β) :
    let ended := (steps n c).run bus
    (clocks ended.1.1 c).run bus = (ended.1.2, ended.2) ∧
      (clocks ended.1.1 c).accesses bus = (steps n c).accesses bus ∧
      ended.1.2.clockCount = c.clockCount + UInt64.ofNat ended.1.1 := by
  induction n generalizing c bus with
  | zero =>
    refine ⟨rfl, rfl, ?_⟩
    exact (UInt64.add_zero _).symm
  | succ n ih =>
    intro ended
    obtain ⟨hfirst, hfirstAccesses⟩ := c.run_clocks_count bus
    obtain ⟨hrest, hrestAccesses, hrestCount⟩ := ih (c.step.run bus).1.2 (c.step.run bus).2
    have hended : ended = _ := run_steps_succ n c bus
    rw [hended, accesses_steps_succ]
    refine ⟨?_, ?_, ?_⟩
    · rw [clocks_add, Program.run_bind, hfirst]
      exact hrest
    · rw [clocks_add, Program.accesses_bind, hfirst, hfirstAccesses]
      exact congrArg _ hrestAccesses
    · show ((steps n _).run _).1.2.clockCount = _ + UInt64.ofNat (_ + _)
      rw [hrestCount, clockCount_step, UInt64.ofNat_add, UInt64.add_assoc]

end Running

end NesMachine.Cpu
