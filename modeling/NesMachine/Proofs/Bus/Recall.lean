import NesMachine.Board
import NesMachine.Proofs.Bus.History
import NesMachine.Proofs.Bus.Storage

/-!
# What a memory bus remembers

`MemoryBus.Recalls base past bus` says that `bus` is what became of `base` after the calls in
`past`: it has the layout of `base`, and at the addresses of each storage cell it shows the byte
that the calls wrote there last. A bus recalls the empty history when nothing is stored in it
(`MemoryBus.Recalls.start`), every call extends the history (`MemoryBus.Recalls.concat`), and what
is not stored in cells is found by looking at `base` (`MemoryBus.Recalls.peek_of_no_cell`,
`MemoryBus.Recalls.fault?_eq`, `MemoryBus.Recalls.writeSlot_eq`).
-/

set_option autoImplicit false

namespace NesMachine

/-- Where a device has no cell, it shows the same with nothing stored in it, unless it is a latch.
-/
theorem Device.peek_cleared_of_no_cell {d : Device} {addr : UInt16} (hcell : d.cell? addr = none)
    (hlatch : d.isLatch = false) (slot : Slot) : d.cleared.peek slot addr = d.peek slot addr := by
  obtain ⟨name, first, last, body⟩ := d
  cases body with
  | memory cells =>
    have hout : ¬ addr.toNat - first.toNat < cells.size :=
      fun hin => Option.some_ne_none _ ((if_pos hin).symm.trans hcell)
    have hlate : cells.size ≤ addr.toNat - first.toNat := Nat.not_lt.1 hout
    simp [cleared, peek, offset, hlate]
  | mirrored page =>
    have hout : ¬ 0 < page.size := by simpa [cell?] using hcell
    simp [cleared, peek, Array.eq_empty_of_size_eq_zero (Nat.eq_zero_of_not_pos hout)]
  | latch => cases hlatch
  | prgWindow | chrWindow => rfl

namespace MemoryBus

/-- A bus on which no latch answers. -/
def Latchless (bus : MemoryBus) : Prop :=
  ∀ addr d, bus.device? addr = some d → d.isLatch = false

/-- Whether a bus has latches does not depend on what is stored. -/
theorem latchless_of_cleared {bus : MemoryBus} (h : bus.cleared.Latchless) : bus.Latchless := by
  intro addr d hdevice
  have hcleared : bus.cleared.device? addr = some d.cleared := by
    rw [device?_cleared, hdevice]
    rfl
  rw [← Device.isLatch_cleared]
  exact h addr d.cleared hcleared

/-- The bus after a call. -/
def afterCall (bus : MemoryBus) : BusCall → MemoryBus
  | .read addr => bus.afterRead addr
  | .peek _ => bus
  | .write addr value => bus.write addr value

/-- The slot after a call to the bus. -/
def slotAfter (bus : MemoryBus) (slot : Slot) : BusCall → Slot
  | .write addr value => bus.writeSlot addr value slot
  | _ => slot

/-- A bus has the layout of another one and holds what the calls of a history wrote. -/
structure Recalls (base : MemoryBus) (past : List BusCall) (bus : MemoryBus) : Prop where
  cleared_eq : bus.cleared = base
  peek_eq : ∀ {addr : UInt16} {cell : Nat × Nat}, base.cell? addr = some cell → ∀ slot : Slot,
    bus.peek slot addr = lastWritten (BusCall.written? fun a => base.cell? a = some cell) past

namespace Recalls

variable {base bus : MemoryBus} {past : List BusCall}

theorem start (h : base.cleared = base) : Recalls base [] base :=
  ⟨h, fun hcell slot => peek_of_cleared h hcell slot⟩

theorem cell?_eq (h : Recalls base past bus) : bus.cell? = base.cell? := by
  rw [← h.cleared_eq, cell?_cleared]

theorem fault?_eq (h : Recalls base past bus) : bus.fault? = base.fault? := by
  rw [← h.cleared_eq, fault?_cleared]

theorem writeSlot_eq (h : Recalls base past bus) : bus.writeSlot = base.writeSlot := by
  rw [← h.cleared_eq, writeSlot_cleared]

/-- Where the layout has no cell, it shows what the bus shows. -/
theorem peek_of_no_cell (h : Recalls base past bus) (hbase : base.Latchless) {addr : UInt16}
    (hcell : base.cell? addr = none) (slot : Slot) : bus.peek slot addr = base.peek slot addr := by
  rw [← h.cleared_eq, cell?_cleared] at hcell
  have hlatch := latchless_of_cleared (h.cleared_eq.symm ▸ hbase)
  rw [← h.cleared_eq, peek, peek, device?_cleared]
  cases hdevice : bus.device? addr with
  | none => rfl
  | some d =>
    obtain ⟨index, howner, hplace⟩ := device?_eq_some_iff.1 hdevice
    have hnone : d.cell? addr = none := by simpa [cell?, howner, hplace] using hcell
    exact (Device.peek_cleared_of_no_cell hnone (hlatch addr d hdevice) slot).symm

theorem afterRead_eq (h : Recalls base past bus) (hbase : base.Latchless) (addr : UInt16) :
    bus.afterRead addr = bus :=
  afterRead_eq_self (latchless_of_cleared (h.cleared_eq.symm ▸ hbase) addr)

/-- One more call extends the history. -/
theorem concat (h : Recalls base past bus) (hbase : base.Latchless) (call : BusCall) :
    Recalls base (past ++ [call]) (bus.afterCall call) := by
  cases call with
  | read addr =>
    rw [afterCall, h.afterRead_eq hbase]
    refine ⟨h.cleared_eq, fun hcell slot => ?_⟩
    rw [lastWritten_concat, h.peek_eq hcell]
    rfl
  | peek addr =>
    refine ⟨h.cleared_eq, fun hcell slot => ?_⟩
    rw [lastWritten_concat, afterCall, h.peek_eq hcell]
    rfl
  | write addr value =>
    -- The written value is the last one of exactly the cell that the address belongs to.
    refine ⟨(cleared_write ..).trans h.cleared_eq, fun {seen cell} hcell slot => ?_⟩
    have hseen : bus.cell? seen = some cell := h.cell?_eq ▸ hcell
    rw [lastWritten_concat, afterCall, peek_write hseen addr value slot slot, h.cell?_eq,
      h.peek_eq hcell, BusCall.written?]
    by_cases haddr : base.cell? addr = some cell
    · simp [haddr]
    · simp [haddr]

end Recalls

end MemoryBus

/-- A call to a board with a memory bus is a call to that bus and its effect on the slot. -/
theorem Board.afterCall_mapped (slot : Slot) (bus : MemoryBus) (events : Array Event)
    (call : BusCall) :
    ∃ later, Bus.afterCall (⟨slot, .mapped bus, events⟩ : Board) call =
      ⟨bus.slotAfter slot call, .mapped (bus.afterCall call), later⟩ := by
  cases call with
  | read addr => exact ⟨events, rfl⟩
  | peek addr => exact ⟨events, rfl⟩
  | write addr value => exact ⟨_, rfl⟩

end NesMachine
