import NesMachine.Proofs.Agreement
import NesMachine.Proofs.Cpu.Clocks
import NesMachine.Proofs.Guarded.Wiring

/-!
# The guarded processor

The processor with every operation guarded that is not total: the stack cell of a stack pointer, the
second byte of an indirect pointer, the row of an opcode, each change of the cycle counter, and the
loop that ends an instruction. A guarded program realizes a plain one if it has no hazard, makes the
same accesses and has the same results (`GuardedProgram.Realizes`). A step realizes the plain step
whatever the bus answers (`Cpu.realizes_guardedStep`): base costs are between two and eight, nothing
adds more than three to them, and so the counter neither overflows nor is counted down at zero.
-/

set_option autoImplicit false

namespace NesMachine

open Guarded

/-- A program that may come upon a hazard. -/
abbrev GuardedProgram := ExceptT Hazard Program

/-! ## Guarded and plain programs -/

namespace GuardedProgram

variable {α γ : Type}

/-- A guarded program makes the accesses of a plain one, whatever they are answered, and returns its
results without a hazard. The results have a property. -/
def Realizes (guarded : GuardedProgram α) (plain : Program α) (P : α → Prop) : Prop :=
  Program.Agree (fun checked a => checked = .ok a ∧ P a) guarded.run plain

variable {P : α → Prop} {Q : γ → Prop} {guarded : GuardedProgram α} {plain : Program α}

theorem realizes_pure {a : α} (h : P a) : Realizes (pure a) (.done a) P :=
  .done ⟨rfl, h⟩

/-- A plain program realizes itself. -/
theorem realizes_lift (h : plain.Returns P) : Realizes (liftM plain) plain P := by
  induction plain with
  | done a => exact .done ⟨rfl, h⟩
  | read addr next ih => exact .read fun value => ih value (h value)
  | write addr value next ih => exact .write (ih h)

/-- A program that realizes a plain one goes on so. -/
theorem Realizes.bind {f : α → GuardedProgram γ} {g : α → Program γ}
    (h : Realizes guarded plain P) (hnext : ∀ a, P a → Realizes (f a) (g a) Q) :
    Realizes (guarded >>= f) (plain >>= g) Q := by
  apply Program.Agree.bind h
  rintro _ a ⟨rfl, ha⟩
  exact hnext a ha

theorem realizes_guard {x : Guarded γ} {a : γ} {f : γ → GuardedProgram α} (hx : x = .ok a)
    (h : Realizes (f a) plain P) : Realizes (liftM x >>= f) plain P := by
  subst hx
  exact h

theorem realizes_checked {x : Guarded α} {a : α} (hx : x = .ok a) (h : P a) :
    Realizes (liftM x) (.done a) P := by
  subst hx
  exact .done ⟨rfl, h⟩

theorem Realizes.mono {P' : α → Prop} (h : Realizes guarded plain P) (himp : ∀ a, P a → P' a) :
    Realizes guarded plain P' :=
  Program.Agree.mono h fun _ a hrelated => ⟨hrelated.1, himp a hrelated.2⟩

/-- Run a guarded program on a board with guarded accesses. -/
def runOn (guarded : GuardedProgram α) (board : Board) : Guarded (α × Board) := do
  let (checked, board) ← guarded.run.guardedRun board
  let result ← checked
  return (result, board)

/-- On the processor's board a guarded program that realizes a plain one has its result. -/
theorem Realizes.runOn_eq (h : Realizes guarded plain P) {c : Cartridge} {past : List BusCall}
    {board : Board} (hboard : Wiring.ReferenceBoard c past board) :
    guarded.runOn board = .ok (plain.run board) := by
  obtain ⟨⟨hresult, -⟩, hlater, -⟩ := h.run board
  rw [runOn, hboard.guardedRun_eq, ok_bind]
  generalize guarded.run.run board = ran at hresult hlater ⊢
  obtain ⟨checked, later⟩ := ran
  dsimp only at hresult hlater ⊢
  rw [hresult, hlater]
  rfl

end GuardedProgram

namespace Cpu

open GuardedProgram

/-! ## Guarded accesses -/

/-- The row of the opcode table. -/
def guardedLookup (opcode : UInt8) : Guarded Instruction := do
  let row ← element opcodeTable.toArray (opcode.toNat / 16)
  element row.toArray (opcode.toNat % 16)

/-- The stack cell that a stack pointer names: a distance from the start of the stack. -/
def guardedStackCell (sp : UInt8) : Guarded UInt16 := do
  return UInt16.ofNat (← sum UInt16.size 0x0100 sp.toNat)

/-- Put a byte on the stack. -/
def guardedPush (c : Cpu) (value : UInt8) : GuardedProgram Cpu := do
  let cell ← guardedStackCell c.regs.sp
  Program.writeByte cell value
  return { c with regs.sp := c.regs.sp - 1 }

/-- Take a byte off the stack. -/
def guardedPull (c : Cpu) : GuardedProgram (UInt8 × Cpu) := do
  let cell ← guardedStackCell (c.regs.sp + 1)
  let value ← Program.readByte cell
  return (value, { c with regs.sp := c.regs.sp + 1 })

/-- Put a word on the stack. -/
def guardedPushWord (c : Cpu) (value : UInt16) : GuardedProgram Cpu := do
  let c ← c.guardedPush (highByte value)
  c.guardedPush (lowByte value)

/-- Take a word off the stack. -/
def guardedPullWord (c : Cpu) : GuardedProgram (UInt16 × Cpu) := do
  let (low, c) ← c.guardedPull
  let (high, c) ← c.guardedPull
  return (word low high, c)

/-- Save the program counter and the status, mask interrupt requests and go on at a vector. -/
def guardedEnterHandler (c : Cpu) (byInstruction : Bool) (vector : UInt16) :
    GuardedProgram Cpu := do
  let c ← c.guardedPushWord c.regs.pc
  let c ← c.guardedPush (c.regs.status.pushed byInstruction)
  let target ← readWord vector
  return { c with regs.status.interruptDisable := true, regs.pc := target }

/-- The address of the second byte of a pointer: the next one, or the first of the page after its
last one. -/
def guardedNext (pointer : UInt16) : Guarded UInt16 :=
  if lowByte pointer = 0xFF then return word 0 (highByte pointer)
  else do return UInt16.ofNat (← sum UInt16.size pointer.toNat 1)

/-- Find the operand of an instruction. Only the indirect mode counts an address up. -/
def guardedResolve (c : Cpu) : AddressingMode → GuardedProgram (Bool × Cpu)
  | .indirect => do
      let (pointer, c) ← c.fetchWord
      let low ← Program.readByte pointer
      let next ← guardedNext pointer
      let high ← Program.readByte next
      return (false, c.aim (word low high))
  | mode => c.resolve mode

/-! ## Guarded counting -/

/-- Add to the cycles that remain. -/
def guardedSpend (c : Cpu) (n : Nat) : Guarded Cpu := do
  return { c with remaining := UInt8.ofNat (← sum UInt8.size c.remaining.toNat n) }

/-- Let one cycle pass. -/
def guardedTick (c : Cpu) : Guarded Cpu := do
  let left ← difference c.remaining.toNat 1
  return { c with remaining := UInt8.ofNat left, clockCount := c.clockCount + 1 }

/-- Take or leave a branch. -/
def guardedBranch (c : Cpu) (taken : Bool) : Guarded Cpu :=
  if taken then do
    let target := c.regs.pc + c.latches.displacement
    let c ← c.guardedSpend 1
    let c ← if samePage target c.regs.pc then pure c else c.guardedSpend 1
    return { c with regs.pc := target }
  else return c

/-! ## Guarded instructions -/

/-- Carry out an action. -/
def guardedPerform (c : Cpu) : Action → GuardedProgram Cpu
  | .branch taken => c.guardedBranch (taken c.regs.status)
  | .push value => c.guardedPush (value c.regs)
  | .pull result => do
      let (value, c) ← c.guardedPull
      return { c with regs := result c.regs value }
  | .jumpSaving => do
      let c ← c.guardedPushWord (c.regs.pc - 1)
      return { c with regs.pc := c.latches.address }
  | .comeBack => do
      let (addr, c) ← c.guardedPullWord
      return { c with regs.pc := addr + 1 }
  | .comeBackFromHandler => do
      let (status, c) ← c.guardedPull
      let (addr, c) ← c.guardedPullWord
      return { c with regs.status := .pulled status, regs.pc := addr }
  | .softwareBreak => c.guardedEnterHandler true irqVector
  | action => c.perform action

/-- Fetch the next instruction, carry it out and load the cycle counter with its cost. -/
def guardedBegin (c : Cpu) : GuardedProgram Cpu := do
  let opcode ← Program.readByte c.regs.pc
  let instruction ← guardedLookup opcode
  let (crossed, c) ← (c.started opcode).guardedResolve instruction.mode
  let c ← c.guardedPerform instruction.op.action
  c.guardedSpend (if crossed && instruction.op.paysPageCross then 1 else 0)

/-- Advance by one cycle. -/
def guardedClock (c : Cpu) : GuardedProgram Cpu := do
  let c ← if c.complete then c.guardedBegin else pure c
  c.guardedTick

/-- Clock to the end of the instruction in progress, unless it takes more than some cycles. -/
def guardedFinish (c : Cpu) : Nat → GuardedProgram Cpu
  | 0 => if c.complete then pure c else throw .endless
  | fuel + 1 =>
      if c.complete then pure c
      else do
        let c ← c.guardedClock
        c.guardedFinish fuel

/-- Advance to the end of the instruction in progress and count the cycles. -/
def guardedStep (c : Cpu) : GuardedProgram (UInt32 × Cpu) := do
  let started ← c.guardedClock
  let finished ← started.guardedFinish UInt8.size
  return ((finished.clockCount - c.clockCount).toUInt32, finished)

/-! ## Accesses have no hazard -/

variable {c : Cpu}

theorem guardedLookup_eq (opcode : UInt8) : guardedLookup opcode = .ok (lookup opcode) := by
  have hlt := opcode.toNat_lt
  have hrow : element opcodeTable.toArray (opcode.toNat / 16) =
      .ok opcodeTable[opcode.toNat / 16] := element_eq_ok (by simp)
  rw [guardedLookup, hrow]
  exact element_eq_ok (by simp [lookup])

theorem guardedStackCell_eq (sp : UInt8) : guardedStackCell sp = .ok (stackCell sp) := by
  have hlt := sp.toNat_lt
  have hfits : 0x0100 + sp.toNat < UInt16.size := by
    rw [UInt16.size]
    omega
  have hcell : UInt16.ofNat (0x0100 + sp.toNat) = stackCell sp := by
    apply UInt16.toNat_inj.1
    rw [stackCell, toNat_word, UInt16.toNat_ofNat_of_lt' hfits]
    exact Nat.add_comm ..
  rw [guardedStackCell, sum_eq_ok hfits, ok_bind, hcell]
  rfl

/-- An address that is not the last of its page is not the last of all. -/
theorem guardedNext_eq (pointer : UInt16) :
    guardedNext pointer = .ok (word (lowByte pointer + 1) (highByte pointer)) := by
  rw [guardedNext]
  split
  · rename_i hlast
    rw [hlast]
    rfl
  · rename_i hnot
    have hlow := (lowByte pointer).toNat_lt
    have hhigh := (highByte pointer).toNat_lt
    have hnot' : (lowByte pointer).toNat ≠ 0xFF := fun h => hnot (UInt8.toNat_inj.1 h)
    have hvalue := toNat_word (lowByte pointer) (highByte pointer)
    rw [word_lowByte_highByte] at hvalue
    have hfits : pointer.toNat + 1 < UInt16.size := by
      rw [UInt16.size]
      omega
    have hnext : UInt16.ofNat (pointer.toNat + 1) =
        word (lowByte pointer + 1) (highByte pointer) := by
      have hone : (1 : UInt8).toNat = 1 := rfl
      apply UInt16.toNat_inj.1
      rw [UInt16.toNat_ofNat_of_lt' hfits, toNat_word, UInt8.toNat_add, hone]
      omega
    rw [sum_eq_ok hfits, ok_bind, hnext]
    rfl

theorem realizes_guardedPush (c : Cpu) (value : UInt8) :
    Realizes (c.guardedPush value) (c.push value) fun after => after.remaining = c.remaining := by
  apply realizes_guard (guardedStackCell_eq c.regs.sp)
  exact .write (.done ⟨rfl, rfl⟩)

theorem realizes_guardedPull (c : Cpu) :
    Realizes c.guardedPull c.pull fun pulled => pulled.2.remaining = c.remaining := by
  apply realizes_guard (guardedStackCell_eq (c.regs.sp + 1))
  exact .read fun value => .done ⟨rfl, rfl⟩

theorem realizes_guardedPushWord (c : Cpu) (value : UInt16) :
    Realizes (c.guardedPushWord value) (c.pushWord value) fun after =>
      after.remaining = c.remaining := by
  apply (realizes_guardedPush c (highByte value)).bind
  intro between hbetween
  rw [← hbetween]
  exact realizes_guardedPush between (lowByte value)

theorem realizes_guardedPullWord (c : Cpu) :
    Realizes c.guardedPullWord c.pullWord fun pulled => pulled.2.remaining = c.remaining := by
  apply (realizes_guardedPull c).bind
  rintro ⟨low, between⟩ hbetween
  apply (realizes_guardedPull between).bind
  rintro ⟨high, after⟩ hafter
  exact realizes_pure (hafter.trans hbetween)

theorem realizes_guardedEnterHandler (c : Cpu) (byInstruction : Bool) (vector : UInt16) :
    Realizes (c.guardedEnterHandler byInstruction vector) (c.enterHandler byInstruction vector)
      fun after => after.remaining = c.remaining := by
  apply (realizes_guardedPushWord c c.regs.pc).bind
  intro saved hsaved
  apply (realizes_guardedPush saved (saved.regs.status.pushed byInstruction)).bind
  intro entered hentered
  exact .read fun low => .read fun high => .done ⟨rfl, hentered.trans hsaved⟩

theorem realizes_guardedResolve (c : Cpu) (mode : AddressingMode) :
    Realizes (c.guardedResolve mode) (c.resolve mode) fun found =>
      found.2.remaining = c.remaining := by
  cases mode with
  | indirect =>
    refine .read fun low => .read fun high => .read fun first => ?_
    apply realizes_guard (guardedNext_eq (word low high))
    exact .read fun second => .done ⟨rfl, rfl⟩
  | _ => exact (realizes_lift (returns_resolve_counters c _)).mono fun _ hcounters => hcounters.1

/-! ## Counting has no hazard -/

/-- The cycles that remain are within bounds. -/
def Within (low high : Nat) (c : Cpu) : Prop :=
  low ≤ c.remaining.toNat ∧ c.remaining.toNat ≤ high

theorem Within.mono {low high low' high' : Nat} (h : c.Within low high) (hlow : low' ≤ low)
    (hhigh : high ≤ high') : c.Within low' high' :=
  ⟨Nat.le_trans hlow h.1, Nat.le_trans h.2 hhigh⟩

/-- Bounds are about the cycles that remain alone. -/
theorem Within.of_remaining_eq {low high : Nat} {d : Cpu} (h : c.Within low high)
    (heq : d.remaining = c.remaining) : d.Within low high := by
  rw [Within, heq]
  exact h

/-- Cycles can be added below the top of the counter. -/
theorem Within.guardedSpend_eq {low high n : Nat} (h : c.Within low high)
    (hfits : high + n < UInt8.size) :
    c.guardedSpend n = .ok { c with remaining := c.remaining + UInt8.ofNat n } ∧
      Within (low + n) (high + n) { c with remaining := c.remaining + UInt8.ofNat n } := by
  obtain ⟨hlow, hhigh⟩ := h
  have hsum : c.remaining.toNat + n < UInt8.size := by omega
  have hword : UInt8.ofNat (c.remaining.toNat + n) = c.remaining + UInt8.ofNat n := by
    rw [UInt8.ofNat_add, UInt8.ofNat_toNat]
  have hvalue : (c.remaining + UInt8.ofNat n).toNat = c.remaining.toNat + n := by
    rw [← hword, UInt8.toNat_ofNat_of_lt' hsum]
  rw [guardedSpend, sum_eq_ok hsum, ok_bind, hword, Within]
  dsimp only
  rw [hvalue]
  exact ⟨rfl, by omega, by omega⟩

theorem guardedTick_eq (h : c.complete = false) : c.guardedTick = .ok c.tick := by
  have hpositive := c.complete_eq_false_iff.1 h
  have hlt := c.remaining.toNat_lt
  have hleft := toNat_remaining_waited hpositive
  have hword : UInt8.ofNat (c.remaining.toNat - 1) = c.remaining - 1 := by
    rw [← hleft, UInt8.ofNat_toNat]
    rfl
  rw [guardedTick, difference_eq_ok hpositive, ok_bind, hword]
  rfl

/-- A branch adds at most two cycles. -/
theorem Within.guardedBranch_eq {low high : Nat} (h : c.Within low high)
    (hfits : high + 2 < UInt8.size) (taken : Bool) :
    c.guardedBranch taken = .ok (c.branch taken) ∧ (c.branch taken).Within low (high + 2) := by
  cases taken with
  | false => exact ⟨rfl, h.mono (Nat.le_refl _) (Nat.le_add_right ..)⟩
  | true =>
    obtain ⟨hfirst, hone⟩ := h.guardedSpend_eq (n := 1) (by omega)
    obtain ⟨hsecond, htwo⟩ := hone.guardedSpend_eq (n := 1) (by omega)
    rw [guardedBranch, branch, if_pos rfl, if_pos rfl, hfirst, ok_bind]
    dsimp only
    cases samePage (c.regs.pc + c.latches.displacement) c.regs.pc with
    | true => exact ⟨rfl, hone.mono (Nat.le_add_right ..) (by omega)⟩
    | false =>
      have hwhole : c.remaining + 1 + 1 = c.remaining + 2 := by grind
      rw [if_neg Bool.false_ne_true, if_neg Bool.false_ne_true, hsecond, ← hwhole]
      exact ⟨rfl, htwo.mono (by omega) (Nat.le_refl _)⟩

/-! ## Instructions have no hazard -/

/-- An action adds at most two cycles. -/
theorem Within.realizes_guardedPerform {low high : Nat} (h : c.Within low high)
    (hfits : high + 2 < UInt8.size) (a : Action) :
    Realizes (c.guardedPerform a) (c.perform a) (Within low (high + 2)) := by
  have hwiden : ∀ d : Cpu, d.remaining = c.remaining → d.Within low (high + 2) := fun d hd =>
    (h.mono (Nat.le_refl _) (Nat.le_add_right ..)).of_remaining_eq hd
  cases a with
  | branch taken =>
    obtain ⟨hbranch, hwithin⟩ := h.guardedBranch_eq hfits (taken c.regs.status)
    rw [guardedPerform, hbranch]
    exact .done ⟨rfl, hwithin⟩
  | push value => exact (realizes_guardedPush c (value c.regs)).mono hwiden
  | pull result =>
    apply (realizes_guardedPull c).bind
    rintro ⟨value, after⟩ hafter
    exact realizes_pure (hwiden _ hafter)
  | jumpSaving =>
    apply (realizes_guardedPushWord c (c.regs.pc - 1)).bind
    intro after hafter
    exact realizes_pure (hwiden _ hafter)
  | comeBack =>
    apply (realizes_guardedPullWord c).bind
    rintro ⟨addr, after⟩ hafter
    exact realizes_pure (hwiden _ hafter)
  | comeBackFromHandler =>
    apply (realizes_guardedPull c).bind
    rintro ⟨status, between⟩ hbetween
    apply (realizes_guardedPullWord between).bind
    rintro ⟨addr, after⟩ hafter
    exact realizes_pure (hwiden _ (hafter.trans hbetween))
  | softwareBreak => exact (realizes_guardedEnterHandler c true irqVector).mono hwiden
  | load | modify | store | internal | jump =>
    -- None of these actions changes the counter.
    refine (realizes_lift (returns_perform_counters c _)).mono fun d hd => hwiden d ?_
    exact hd.1.trans (UInt8.add_zero _)

/-- An instruction leaves between two and eleven cycles: a base cost of two to eight, at most two
for a branch and at most one for a crossed page. -/
theorem realizes_guardedBegin (c : Cpu) : Realizes c.guardedBegin c.begin (Within 2 11) := by
  rw [begin_eq]
  refine .read fun opcode => ?_
  apply realizes_guard (guardedLookup_eq opcode)
  have hstarted : (c.started opcode).Within 2 8 := by
    obtain ⟨hlow, hhigh⟩ := two_le_cycles_lookup opcode
    exact ⟨UInt8.le_iff_toNat_le.1 hlow, UInt8.le_iff_toNat_le.1 hhigh⟩
  apply (realizes_guardedResolve (c.started opcode) (lookup opcode).mode).bind
  rintro ⟨crossed, found⟩ hfound
  have hbase : found.Within 2 8 := hstarted.of_remaining_eq hfound
  apply (hbase.realizes_guardedPerform (by decide) (lookup opcode).op.action).bind
  intro ended hended
  rw [charged]
  cases crossed && (lookup opcode).op.paysPageCross with
  | true =>
    obtain ⟨hspend, hwithin⟩ := hended.guardedSpend_eq (n := 1) (by decide)
    exact realizes_checked hspend (hwithin.mono (by decide) (by decide))
  | false =>
    obtain ⟨hspend, hwithin⟩ := hended.guardedSpend_eq (n := 0) (by decide)
    exact realizes_checked hspend (hwithin.mono (by decide) (by decide))

/-! ## Clocks and steps have no hazard -/

theorem realizes_guardedClock_of_busy (hc : c.complete = false) :
    Realizes c.guardedClock c.clock (· = c.tick) := by
  rw [guardedClock, clock, hc]
  exact realizes_checked (guardedTick_eq hc) rfl

/-- A clock has something to count down: what it has loaded, or what was left. -/
theorem realizes_guardedClock (c : Cpu) : Realizes c.guardedClock c.clock fun _ => True := by
  cases hc : c.complete with
  | false => exact (realizes_guardedClock_of_busy hc).mono fun _ _ => trivial
  | true =>
    rw [guardedClock, clock, if_pos hc, if_pos hc]
    apply (realizes_guardedBegin c).bind
    intro done hdone
    have hbusy : done.complete = false := by
      rw [complete_eq_false_iff]
      exact Nat.lt_of_lt_of_le (by decide) hdone.1
    exact realizes_checked (guardedTick_eq hbusy) trivial

/-- The clocks to the end of an instruction are the cycles that remain, so enough of them end it. -/
theorem realizes_guardedFinish {c : Cpu} {fuel : Nat} (h : c.remaining.toNat ≤ fuel) :
    Realizes (c.guardedFinish fuel) (.done c.drain) fun _ => True := by
  induction fuel generalizing c with
  | zero =>
    have hc : c.complete = true := c.complete_iff.2 (Nat.le_zero.1 h)
    rw [guardedFinish, if_pos hc, drain_of_complete hc]
    exact realizes_pure trivial
  | succ fuel ih =>
    cases hc : c.complete with
    | true =>
      rw [guardedFinish, if_pos hc, drain_of_complete hc]
      exact realizes_pure trivial
    | false =>
      have hleft : c.tick.remaining.toNat ≤ fuel := by
        rw [tick_eq_waited, toNat_remaining_waited (c.complete_eq_false_iff.1 hc)]
        omega
      have hdrain : c.drain = c.tick.drain := by
        rw [drain_eq_waited, drain_eq_waited, waited_tick_remaining hc]
      have hclock := realizes_guardedClock_of_busy hc
      rw [clock_of_busy hc] at hclock
      rw [guardedFinish, hc, hdrain, if_neg Bool.false_ne_true]
      apply hclock.bind (g := Program.done ∘ drain)
      rintro after rfl
      exact ih hleft

/-- A step realizes the plain step whatever the bus answers: the counter is a byte, so its size is
more than the clocks that any instruction takes. -/
theorem realizes_guardedStep (c : Cpu) : Realizes c.guardedStep c.step fun _ => True := by
  apply (realizes_guardedClock c).bind
  intro started _
  have hfinish := realizes_guardedFinish (Nat.le_of_lt started.remaining.toNat_lt)
  exact hfinish.bind fun finished _ => realizes_pure trivial

end Cpu

end NesMachine
