import NesMachine.Proofs.Guarded.Checks
import NesMachine.Proofs.Cartridge.Banks
import NesMachine.Proofs.Bus.Storage

/-!
# Guarded storage

The accesses of a memory bus with every place, difference and remainder guarded, from the banks of
the cartridge up to the bus. Banks are counted from the bytes that are stored and not from the
header. An access that is answered has no hazard if the cartridge is complete
(`MemoryBus.guardedRead_eq`, `MemoryBus.guardedWrite_eq`).
-/

set_option autoImplicit false

namespace NesMachine

open Guarded

/-! ## The windows of a cartridge -/

namespace Cartridge

/-- Where the program byte for an address is stored, from the number of stored bytes. -/
def guardedPrgOffset (c : Cartridge) (addr : UInt16) : Guarded Nat :=
  match c.header.mapper with
  | .uxrom => do
      let banks := c.prg.size / prgBankSize
      let bank ←
        if addr < 0xC000 then remainder c.bankSelect.toNat banks else difference banks 1
      return bank * prgBankSize + addr.toNat % prgBankSize
  | .nrom | .cnrom =>
      return addr.toNat % (if prgBankSize < c.prg.size then 2 * prgBankSize else prgBankSize)

/-- The program byte for an address. -/
def guardedPeekPrg (c : Cartridge) (addr : UInt16) : Guarded UInt8 := do
  element c.prg (← c.guardedPrgOffset addr)

/-- The cartridge after a write to the program window. -/
def guardedWritePrg (c : Cartridge) (value : UInt8) : Guarded Cartridge :=
  match c.header.mapper with
  | .nrom => return c
  | .uxrom => do
      let bank ← remainder value.toNat (c.prg.size / prgBankSize)
      return { c with bankSelect := UInt8.ofNat bank }
  | .cnrom => do
      let bank ← remainder value.toNat (max c.header.chrBanks.toNat 1)
      return { c with bankSelect := UInt8.ofNat bank }

/-- Where the pattern bank that is shown starts. -/
def guardedChrStart (c : Cartridge) : Guarded Nat :=
  match c.header.mapper with
  | .nrom | .uxrom => return 0
  | .cnrom => do
      let bank ← remainder c.bankSelect.toNat (max (c.chr.size / chrBankSize) 1)
      return bank * chrBankSize

/-- Where the pattern byte for an address is stored, from the number of stored bytes. -/
def guardedChrOffset (c : Cartridge) (addr : UInt16) : Guarded Nat := do
  let start ← c.guardedChrStart
  remainder (start + addr.toNat % chrBankSize) c.chr.size

/-- The pattern byte for an address. -/
def guardedPeekChr (c : Cartridge) (addr : UInt16) : Guarded UInt8 := do
  element c.chr (← c.guardedChrOffset addr)

/-- The cartridge after a write to the pattern window, which only writable memory takes. -/
def guardedWriteChr (c : Cartridge) (addr : UInt16) (value : UInt8) : Guarded Cartridge :=
  if c.header.chrIsRam then do
    return { c with chr := ← replace c.chr (← c.guardedChrOffset addr) value }
  else return c

variable {c : Cartridge}

theorem Complete.storedBanks (h : c.Complete) : c.prg.size / prgBankSize = c.prgBanks := by
  rw [h.prg_size]
  exact Nat.mul_div_cancel _ (by decide)

theorem Complete.storedChoices (h : c.Complete) : c.chr.size / chrBankSize = c.chrChoices := by
  rw [h.chr_size]
  exact Nat.mul_div_cancel _ (by decide)

theorem Complete.guardedPrgOffset_eq (h : c.Complete) (addr : UInt16) :
    c.guardedPrgOffset addr = .ok (c.prgOffset addr) := by
  have hpos := h.prgBanks_pos
  rw [guardedPrgOffset, prgOffset, h.storedBanks]
  cases c.header.mapper with
  | uxrom =>
    dsimp only
    split
    · rw [remainder_eq_ok hpos]
      rfl
    · rw [difference_eq_ok hpos]
      rfl
  | nrom | cnrom =>
    -- More than one bank is announced exactly if more bytes than one bank are stored.
    have hmore : prgBankSize < c.prg.size ↔ 1 < c.prgBanks := by
      rw [h.prg_size, prgBankSize]
      omega
    simp only [hmore]
    rfl

theorem Complete.guardedPeekPrg_eq (h : c.Complete) (addr : UInt16) :
    c.guardedPeekPrg addr = .ok (c.peekPrg addr) := by
  rw [guardedPeekPrg, h.guardedPrgOffset_eq]
  exact element_eq_getD (h.prgOffset_lt addr) 0

theorem Complete.guardedWritePrg_eq (h : c.Complete) (value : UInt8) :
    c.guardedWritePrg value = .ok (c.writePrg value) := by
  have hpos := h.prgBanks_pos
  have hchoices : 0 < max c.header.chrBanks.toNat 1 := Nat.le_max_right ..
  rw [guardedWritePrg, Cartridge.writePrg, bankSelected, h.storedBanks]
  cases c.header.mapper with
  | nrom => rfl
  | uxrom =>
    dsimp only
    rw [remainder_eq_ok hpos]
    rfl
  | cnrom =>
    dsimp only
    rw [remainder_eq_ok hchoices]
    rfl

theorem Complete.guardedChrOffset_eq (h : c.Complete) (addr : UInt16) :
    c.guardedChrOffset addr = .ok (c.chrOffset addr) := by
  have hpos : 0 < c.chrChoices := Nat.le_max_right ..
  have hlt := h.chrOffset_lt addr
  have hsize : 0 < c.chr.size := Nat.zero_lt_of_lt hlt
  have hstart : c.guardedChrStart = .ok (c.chrOffset addr - addr.toNat % chrBankSize) := by
    rw [guardedChrStart, h.storedChoices, Nat.max_eq_left hpos, chrOffset]
    cases c.header.mapper with
    | nrom | uxrom =>
      dsimp only
      rw [Nat.sub_self]
      rfl
    | cnrom =>
      dsimp only
      rw [remainder_eq_ok hpos, Nat.add_sub_cancel]
      rfl
  have hwithin : addr.toNat % chrBankSize ≤ c.chrOffset addr := by
    rw [chrOffset]
    cases c.header.mapper with
    | nrom | uxrom => exact Nat.le_refl _
    | cnrom => exact Nat.le_add_left ..
  rw [guardedChrOffset, hstart, ok_bind, Nat.sub_add_cancel hwithin, remainder_eq_ok hsize,
    Nat.mod_eq_of_lt hlt]

theorem Complete.guardedPeekChr_eq (h : c.Complete) (addr : UInt16) :
    c.guardedPeekChr addr = .ok (c.peekChr addr) := by
  rw [guardedPeekChr, h.guardedChrOffset_eq]
  exact element_eq_getD (h.chrOffset_lt addr) 0

theorem Complete.guardedWriteChr_eq (h : c.Complete) (addr : UInt16) (value : UInt8) :
    c.guardedWriteChr addr value = .ok (c.writeChr addr value) := by
  rw [guardedWriteChr, Cartridge.writeChr, h.guardedChrOffset_eq]
  split
  · rw [ok_bind, replace_eq_ok (h.chrOffset_lt addr)]
    rfl
  · rfl

end Cartridge

/-! ## Devices -/

namespace Device

/-- The cartridge in the slot. -/
def guardedSlot (slot : Slot) : Guarded Cartridge :=
  slot.elim (.error .emptySlot) .ok

/-- The distance of an address from the start of the range. -/
def guardedOffset (d : Device) (addr : UInt16) : Guarded Nat :=
  difference addr.toNat d.first.toNat

/-- The byte that a read would return. -/
def guardedPeek (d : Device) (slot : Slot) (addr : UInt16) : Guarded UInt8 :=
  match d.body with
  | .memory cells => do element cells (← d.guardedOffset addr)
  | .mirrored page => do element page (← remainder (← d.guardedOffset addr) page.size)
  | .latch value => return value
  | .prgWindow => do (← guardedSlot slot).guardedPeekPrg addr
  | .chrWindow => do (← guardedSlot slot).guardedPeekChr addr

/-- The device and the slot after a write. -/
def guardedWrite (d : Device) (slot : Slot) (addr : UInt16) (value : UInt8) :
    Guarded (Device × Slot) :=
  match d.body with
  | .memory cells => do
      let cells ← replace cells (← d.guardedOffset addr) value
      return ({ d with body := .memory cells }, slot)
  | .mirrored page => do
      let cell ← remainder (← d.guardedOffset addr) page.size
      return ({ d with body := .mirrored (← replace page cell value) }, slot)
  | .latch _ => return ({ d with body := .latch value }, slot)
  | .prgWindow => do return (d, some (← (← guardedSlot slot).guardedWritePrg value))
  | .chrWindow => do return (d, some (← (← guardedSlot slot).guardedWriteChr addr value))

variable {d : Device} {slot : Slot} {addr : UInt16}

theorem guardedOffset_eq (h : d.first ≤ addr) : d.guardedOffset addr = .ok (d.offset addr) :=
  difference_eq_ok (UInt16.le_iff_toNat_le.1 h)

/-- What memory needs to answer an access. -/
theorem fault?_eq_none_of_memory {name : String} {first last : UInt16} {cells : Array UInt8}
    (h : (⟨name, first, last, .memory cells⟩ : Device).fault? slot addr = none) :
    first ≤ addr ∧ addr.toNat - first.toNat < cells.size := by
  dsimp only [fault?] at h
  split at h
  · assumption
  · cases h

/-- What mirrored memory needs to answer an access. -/
theorem fault?_eq_none_of_mirrored {name : String} {first last : UInt16} {page : Array UInt8}
    (h : (⟨name, first, last, .mirrored page⟩ : Device).fault? slot addr = none) :
    first ≤ addr ∧ 0 < page.size := by
  dsimp only [fault?] at h
  split at h
  · assumption
  · cases h

/-- A device that answers an access shows the byte without a hazard. -/
theorem guardedPeek_eq (h : d.fault? slot addr = none) (hslot : ∀ c ∈ slot, c.Complete) :
    d.guardedPeek slot addr = .ok (d.peek slot addr) := by
  obtain ⟨name, first, last, body⟩ := d
  cases body with
  | memory cells =>
    obtain ⟨hfirst, hsize⟩ := fault?_eq_none_of_memory h
    rw [guardedPeek, peek]
    dsimp only
    rw [guardedOffset_eq hfirst]
    exact element_eq_getD hsize 0
  | mirrored page =>
    obtain ⟨hfirst, hsize⟩ := fault?_eq_none_of_mirrored h
    rw [guardedPeek, peek]
    dsimp only
    rw [guardedOffset_eq hfirst, ok_bind, remainder_eq_ok hsize]
    exact element_eq_getD (Nat.mod_lt _ hsize) 0
  | latch value => rfl
  | prgWindow =>
    cases slot with
    | none => cases h
    | some c => exact (hslot c rfl).guardedPeekPrg_eq addr
  | chrWindow =>
    cases slot with
    | none => cases h
    | some c => exact (hslot c rfl).guardedPeekChr_eq addr

/-- A device that answers an access takes a write without a hazard. -/
theorem guardedWrite_eq (h : d.fault? slot addr = none) (hslot : ∀ c ∈ slot, c.Complete)
    (value : UInt8) :
    d.guardedWrite slot addr value = .ok (d.write addr value, d.writeSlot addr value slot) := by
  obtain ⟨name, first, last, body⟩ := d
  cases body with
  | memory cells =>
    obtain ⟨hfirst, hsize⟩ := fault?_eq_none_of_memory h
    rw [guardedWrite]
    dsimp only
    rw [guardedOffset_eq hfirst, ok_bind]
    show (replace cells (addr.toNat - first.toNat) value >>= _) = _
    rw [replace_eq_ok hsize]
    rfl
  | mirrored page =>
    obtain ⟨hfirst, hsize⟩ := fault?_eq_none_of_mirrored h
    rw [guardedWrite]
    dsimp only
    rw [guardedOffset_eq hfirst, ok_bind, remainder_eq_ok hsize, ok_bind,
      replace_eq_ok (Nat.mod_lt _ hsize)]
    rfl
  | latch old => rfl
  | prgWindow =>
    cases slot with
    | none => cases h
    | some c =>
      have hwrite := (hslot c rfl).guardedWritePrg_eq value
      rw [guardedWrite]
      dsimp only [guardedSlot, Option.elim_some]
      rw [ok_bind, hwrite]
      rfl
  | chrWindow =>
    cases slot with
    | none => cases h
    | some c =>
      have hwrite := (hslot c rfl).guardedWriteChr_eq addr value
      rw [guardedWrite]
      dsimp only [guardedSlot, Option.elim_some]
      rw [ok_bind, hwrite]
      rfl

end Device

/-! ## The bus -/

namespace MemoryBus

/-- The position of the device that owns an address. -/
def guardedOwner (bus : MemoryBus) (addr : UInt16) : Guarded Nat :=
  (bus.owner? addr).elim (.error (.unmapped addr)) .ok

/-- The byte that a read would return. -/
def guardedPeek (bus : MemoryBus) (slot : Slot) (addr : UInt16) : Guarded UInt8 := do
  let d ← element bus.devices (← bus.guardedOwner addr)
  d.guardedPeek slot addr

/-- The byte that a read returns, and the bus after it. -/
def guardedRead (bus : MemoryBus) (slot : Slot) (addr : UInt16) : Guarded (UInt8 × MemoryBus) := do
  let owner ← bus.guardedOwner addr
  let d ← element bus.devices owner
  let value ← d.guardedPeek slot addr
  return (value, { bus with devices := ← replace bus.devices owner d.afterRead })

/-- The bus and the slot after a write. -/
def guardedWrite (bus : MemoryBus) (slot : Slot) (addr : UInt16) (value : UInt8) :
    Guarded (MemoryBus × Slot) := do
  let owner ← bus.guardedOwner addr
  let d ← element bus.devices owner
  let (d, slot) ← d.guardedWrite slot addr value
  return ({ bus with devices := ← replace bus.devices owner d }, slot)

variable {bus : MemoryBus} {slot : Slot} {addr : UInt16}

/-- An address that is answered has an owner, and this is a device that answers it. -/
theorem exists_device_of_fault?_eq_none (h : bus.fault? slot addr = none) :
    ∃ owner d, bus.owner? addr = some owner ∧ bus.devices[owner]? = some d ∧
      bus.device? addr = some d ∧ d.fault? slot addr = none := by
  rw [fault?] at h
  cases hdevice : bus.device? addr with
  | none =>
    rw [hdevice] at h
    cases h
  | some d =>
    rw [hdevice] at h
    obtain ⟨owner, howner, hplace⟩ := device?_eq_some_iff.1 hdevice
    exact ⟨owner, d, howner, hplace, rfl, h⟩

/-- A change of the owner replaces it in its place. -/
theorem modifyOwner_eq {owner : Nat} {d : Device} (howner : bus.owner? addr = some owner)
    (hplace : bus.devices[owner]? = some d) (change : Device → Device) :
    bus.modifyOwner addr change =
      { bus with devices := bus.devices.setIfInBounds owner (change d) } := by
  have hdevices : bus.devices.modify owner change =
      bus.devices.setIfInBounds owner (change d) := by
    apply Array.ext_getElem?
    intro i
    rw [Array.getElem?_modify, Array.getElem?_setIfInBounds]
    by_cases hi : owner = i
    · obtain ⟨hlt, hvalue⟩ := Array.getElem?_eq_some_iff.1 hplace
      subst hi
      simp [hlt, hvalue]
    · simp [hi]
  rw [modifyOwner, howner]
  dsimp only
  rw [hdevices]

theorem guardedPeek_eq (h : bus.fault? slot addr = none) (hslot : ∀ c ∈ slot, c.Complete) :
    bus.guardedPeek slot addr = .ok (bus.peek slot addr) := by
  obtain ⟨owner, d, howner, hplace, hdevice, hanswers⟩ := exists_device_of_fault?_eq_none h
  rw [guardedPeek, guardedOwner, howner, peek, hdevice]
  show (element bus.devices owner >>= _) = _
  rw [element_eq_ok hplace]
  exact Device.guardedPeek_eq hanswers hslot

theorem guardedRead_eq (h : bus.fault? slot addr = none) (hslot : ∀ c ∈ slot, c.Complete) :
    bus.guardedRead slot addr = .ok (bus.peek slot addr, bus.afterRead addr) := by
  obtain ⟨owner, d, howner, hplace, hdevice, hanswers⟩ := exists_device_of_fault?_eq_none h
  obtain ⟨hlt, -⟩ := Array.getElem?_eq_some_iff.1 hplace
  rw [guardedRead, guardedOwner, howner, peek, hdevice, afterRead, modifyOwner_eq howner hplace]
  show (element bus.devices owner >>= _) = _
  rw [element_eq_ok hplace, ok_bind, Device.guardedPeek_eq hanswers hslot, ok_bind,
    replace_eq_ok hlt]
  rfl

/-- An address that is answered is written without a hazard. -/
theorem guardedWrite_eq (h : bus.fault? slot addr = none) (hslot : ∀ c ∈ slot, c.Complete)
    (value : UInt8) : bus.guardedWrite slot addr value =
      .ok (bus.write addr value, bus.writeSlot addr value slot) := by
  obtain ⟨owner, d, howner, hplace, hdevice, hanswers⟩ := exists_device_of_fault?_eq_none h
  obtain ⟨hlt, -⟩ := Array.getElem?_eq_some_iff.1 hplace
  rw [guardedWrite, guardedOwner, howner, writeSlot, hdevice, write, modifyOwner_eq howner hplace]
  show (element bus.devices owner >>= _) = _
  rw [element_eq_ok hplace, ok_bind, Device.guardedWrite_eq hanswers hslot, ok_bind]
  dsimp only
  rw [replace_eq_ok hlt]
  rfl

end MemoryBus

end NesMachine
