import NesMachine.Proofs.Bus.Overrides
import NesMachine.Proofs.Guarded.Storage
import NesMachine.Proofs.Wiring.Attempts

/-!
# Guarded wiring

The processor's bus is wired from devices that are refused if their ranges are not as asserted, and
programs run on its board with guarded accesses. For an accepted cartridge the wiring has no hazard
(`Wiring.guardedBus_eq`), and no program on its board has one
(`Wiring.ReferenceBoard.guardedRun_eq`): every address is owned by a device that has a cell for it,
the cartridge is complete, and no access changes that.
-/

set_option autoImplicit false

namespace NesMachine

open Guarded

/-! ## Boards -/

namespace Board

/-- The byte that a read would return. -/
def guardedPeek (b : Board) (addr : UInt16) : Guarded UInt8 :=
  match b.space with
  | .flat memory => return memory.peek addr
  | .mapped bus => bus.guardedPeek b.slot addr

/-- The byte that a read returns, and the board after it. -/
def guardedRead (b : Board) (addr : UInt16) : Guarded (UInt8 × Board) :=
  match b.space with
  | .flat memory => return (memory.peek addr, b)
  | .mapped bus => do
      let (value, bus) ← bus.guardedRead b.slot addr
      return (value, { b with space := .mapped bus })

/-- The board after a write. -/
def guardedWrite (b : Board) (addr : UInt16) (value : UInt8) : Guarded Board :=
  match b.space with
  | .flat memory => return { b with space := .flat (memory.write addr value) }
  | .mapped bus => do
      let (later, slot) ← bus.guardedWrite b.slot addr value
      let events := (bus.writeEvent? b.slot addr value).toList
      return { slot, space := .mapped later, events := b.events.appendList events }

variable {b : Board} {addr : UInt16}

theorem guardedPeek_eq (h : b.fault? addr = none) (hslot : ∀ c ∈ b.slot, c.Complete) :
    b.guardedPeek addr = .ok (b.peek addr) := by
  obtain ⟨slot, space, events⟩ := b
  cases space with
  | flat memory => rfl
  | mapped bus => exact MemoryBus.guardedPeek_eq h hslot

/-- An address that is answered is read without a hazard. -/
theorem guardedRead_eq (h : b.fault? addr = none) (hslot : ∀ c ∈ b.slot, c.Complete) :
    b.guardedRead addr = .ok (b.read addr) := by
  obtain ⟨slot, space, events⟩ := b
  cases space with
  | flat memory => rfl
  | mapped bus =>
    have hread := MemoryBus.guardedRead_eq h hslot
    rw [guardedRead]
    dsimp only at hread ⊢
    rw [hread]
    rfl

/-- An address that is answered is written without a hazard. -/
theorem guardedWrite_eq (h : b.fault? addr = none) (hslot : ∀ c ∈ b.slot, c.Complete)
    (value : UInt8) : b.guardedWrite addr value = .ok (b.write addr value) := by
  obtain ⟨slot, space, events⟩ := b
  cases space with
  | flat memory => rfl
  | mapped bus =>
    have hwrite := MemoryBus.guardedWrite_eq h hslot value
    rw [guardedWrite]
    dsimp only at hwrite ⊢
    rw [hwrite]
    rfl

end Board

/-- Run a program on a board with guarded accesses. -/
def Program.guardedRun {α : Type} : Program α → Board → Guarded (α × Board)
  | .done a, board => return (a, board)
  | .read addr next, board => do
      let (value, board) ← board.guardedRead addr
      (next value).guardedRun board
  | .write addr value next, board => do
      let board ← board.guardedWrite addr value
      next.guardedRun board

/-! ## Mapping devices -/

/-- The last address of a device. Memory computes it from the number of its cells. -/
def Device.guardedLast (d : Device) : Guarded UInt16 :=
  match d.body with
  | .memory cells => do
      let above ← difference cells.size 1
      let last ← sum UInt16.size d.first.toNat (above % UInt16.size)
      return UInt16.ofNat last
  | _ => return d.last

/-- Memory over a range that is not reversed ends where the range does. -/
theorem Device.guardedLast_memory (name : String) {first last : UInt16} (h : first ≤ last) :
    (memory name first last).guardedLast = .ok last := by
  have hlt := last.toNat_lt
  have hle := UInt16.le_iff_toNat_le.1 h
  have hsize : (Array.replicate (last.toNat + 1 - first.toNat) (0 : UInt8)).size =
      last.toNat + 1 - first.toNat := Array.size_replicate
  have habove : (last.toNat + 1 - first.toNat - 1) % UInt16.size = last.toNat - first.toNat := by
    rw [UInt16.size]
    omega
  have hsum : first.toNat + (last.toNat - first.toNat) = last.toNat := by omega
  have hfits : first.toNat + (last.toNat - first.toNat) < UInt16.size := by
    rw [hsum]
    exact hlt
  rw [guardedLast, memory]
  dsimp only
  rw [hsize, difference_eq_ok (by omega), ok_bind, habove, sum_eq_ok hfits, ok_bind, hsum,
    UInt16.ofNat_toNat]
  rfl

namespace MemoryBus

/-- Map a device. Those that lose addresses to it are looked up to be reported. -/
def guardedMap (bus : MemoryBus) (d : Device) : Guarded MemoryBus := do
  let last ← d.guardedLast
  let _ ← (bus.lostSpans d.first last).mapM fun span => element bus.devices span.owner
  let (_, bus) ← wire (bus.mapDevice d)
  return bus

/-- The devices that lose addresses are on the bus. -/
theorem Sound.owner_lt_of_mem_lostSpans {bus : MemoryBus} (h : bus.Sound) {first last : UInt16}
    {span : LostSpan} (hspan : span ∈ bus.lostSpans first last) :
    span.owner < bus.devices.size := by
  -- A span is an extent, so its owner holds an address, and on a sound bus it is a position.
  have hextent := (bus.records_lostSpans first last).sound span hspan
  exact h span.low span.owner hextent.low_owner

/-- A device with a range that is not reversed is mapped to a bus that has room. -/
theorem Sound.guardedMap_eq {bus : MemoryBus} (h : bus.Sound) {d : Device}
    (hrange : d.first ≤ d.last) (hlast : d.guardedLast = .ok d.last)
    (hroom : bus.devices.size < capacity) : bus.guardedMap d = .ok (bus.claim d) := by
  have hlost : ∀ span ∈ bus.lostSpans d.first d.last,
      element bus.devices span.owner = .ok (bus.devices.getD span.owner d) := fun span hspan =>
    element_eq_getD (h.owner_lt_of_mem_lostSpans hspan) d
  have haccepted : bus.refusal? d = none := by
    rw [refusal?, if_neg (UInt16.not_lt.2 hrange), if_neg (Nat.not_le.2 hroom)]
  rw [guardedMap, hlast, ok_bind, mapM_eq_ok hlost, ok_bind, mapDevice, haccepted]
  rfl

/-- Devices with ranges that are not reversed are mapped one after the other. -/
theorem Sound.foldlM_guardedMap {bus : MemoryBus} (h : bus.Sound) {devices : List Device}
    (hranges : ∀ d ∈ devices, d.first ≤ d.last ∧ d.guardedLast = .ok d.last)
    (hroom : bus.devices.size + devices.length ≤ capacity) :
    devices.foldlM guardedMap bus = .ok (devices.foldl MemoryBus.claim bus) := by
  induction devices generalizing bus with
  | nil => rfl
  | cons d rest ih =>
    rw [List.length_cons] at hroom
    obtain ⟨hrange, hlast⟩ := hranges d List.mem_cons_self
    have hmap := h.guardedMap_eq hrange hlast (by omega)
    rw [List.foldlM_cons, hmap, ok_bind, List.foldl_cons]
    refine ih (h.claim d) (fun other hother => hranges other (List.mem_cons_of_mem _ hother)) ?_
    rw [devices_claim, Array.size_push]
    omega

end MemoryBus

/-! ## The processor's bus -/

namespace Wiring

/-- The devices of the processor's bus, each built with its assertions. -/
def guardedDevices (c : Cartridge) : List (Except WiringError Device) :=
  [(Device.mirrored? 0x0000 0x0800 4).map (·.named "internal ram"),
    (Device.mirrored? 0x2000 8 (0x2000 / 8)).map (·.named "ppu registers"),
    (Device.memory? 0x4000 0x5FFF).map (·.named "io"),
    (Device.memory? 0x6000 0x7FFF).map (·.named "work ram"),
    .ok (.prgWindow c.header.mapper)]

/-- The processor's bus for a cartridge. -/
def guardedBus (c : Cartridge) : Guarded MemoryBus := do
  let devices ← (guardedDevices c).mapM wire
  devices.foldlM MemoryBus.guardedMap .empty

theorem guardedDevices_eq (c : Cartridge) :
    guardedDevices c = (lowerDevices ++ upperDevices c).map .ok := by
  simp [guardedDevices, lowerDevices, upperDevices, Device.mirrored?, Device.memory?,
    UInt16.size, Except.map, Device.named, Device.mirrored, Device.memory]

/-- No device of the processor's bus is refused when it is mapped. -/
theorem guardedBus_eq (c : Cartridge) : guardedBus c = .ok (referenceBus c) := by
  have hbuilt : (guardedDevices c).mapM wire = .ok (lowerDevices ++ upperDevices c) := by
    rw [guardedDevices_eq, List.mapM_map]
    exact (mapM_eq_ok fun _ _ => rfl).trans (congrArg Except.ok (List.map_id _))
  have hempty : MemoryBus.empty.Sound := MemoryBus.sound_wired []
  rw [guardedBus, hbuilt, ok_bind]
  apply hempty.foldlM_guardedMap
  · intro d hd
    simp only [lowerDevices, upperDevices, List.cons_append, List.nil_append, List.mem_cons,
      List.not_mem_nil, or_false] at hd
    rcases hd with rfl | rfl | rfl | rfl | rfl
    · exact ⟨by decide, rfl⟩
    · exact ⟨by decide, rfl⟩
    · exact ⟨by decide, Device.guardedLast_memory "io" (by decide)⟩
    · exact ⟨by decide, Device.guardedLast_memory "work ram" (by decide)⟩
    · exact ⟨show (0x8000 : UInt16) ≤ 0xFFFF by decide, rfl⟩
  · simp [lowerDevices, upperDevices, MemoryBus.empty, MemoryBus.capacity]

namespace ReferenceBoard

variable {c : Cartridge} {past : List BusCall} {board : Board}

theorem slot_complete (h : ReferenceBoard c past board) : ∀ c ∈ board.slot, c.Complete := by
  obtain ⟨bus, slotted, events, rfl, -, hslotted⟩ := h
  intro found hfound
  obtain rfl := Option.some.inj hfound
  exact hslotted.complete

theorem guardedPeek_eq (h : ReferenceBoard c past board) (addr : UInt16) :
    board.guardedPeek addr = .ok (board.peek addr) :=
  Board.guardedPeek_eq (h.fault?_eq_none addr) h.slot_complete

/-- A program has no hazard: by induction on it, for the board stays the processor's. -/
theorem guardedRun_eq {α : Type} (h : ReferenceBoard c past board) (p : Program α) :
    p.guardedRun board = .ok (p.run board) := by
  induction p generalizing past board with
  | done a => rfl
  | read addr next ih =>
    have hread := Board.guardedRead_eq (h.fault?_eq_none addr) h.slot_complete
    rw [Program.guardedRun, hread]
    exact ih (Bus.read board addr).1 (h.afterCall (.read addr))
  | write addr value next ih =>
    have hwrite := Board.guardedWrite_eq (h.fault?_eq_none addr) h.slot_complete value
    rw [Program.guardedRun, hwrite]
    exact ih (h.afterCall (.write addr value))

end ReferenceBoard

end Wiring

end NesMachine
