import NesMachine.MemoryBus

/-!
# What a memory bus stores

A storage cell of a bus is a device with the number of a cell in it (`MemoryBus.cell?`). A write is
seen at exactly the addresses that share its cell (`MemoryBus.peek_write`), and a read changes
nothing unless a latch answers it (`MemoryBus.afterRead_eq_self`).

Accesses change nothing but what is stored: a bus that is cleared of it stays the same
(`MemoryBus.cleared_write`), so routing, faults, cells and windows may be looked up on the cleared
bus.
-/

set_option autoImplicit false

namespace NesMachine

/-! ## Devices -/

namespace Device

/-- The cell of a device that stores the byte for an address. -/
def cell? (d : Device) (addr : UInt16) : Option Nat :=
  match d.body with
  | .memory cells => if d.offset addr < cells.size then some (d.offset addr) else none
  | .mirrored page => if 0 < page.size then some (d.offset addr % page.size) else none
  | _ => none

/-- Whether a device is a latch, which a read clears. -/
def isLatch (d : Device) : Bool :=
  match d.body with
  | .latch _ => true
  | _ => false

section Cells

variable {name : String} {first last addr : UInt16} {cells : Array UInt8} {cell : Nat}

theorem cell?_memory_eq_some_iff :
    (⟨name, first, last, .memory cells⟩ : Device).cell? addr = some cell ↔
      addr.toNat - first.toNat < cells.size ∧ addr.toNat - first.toNat = cell := by
  show (if addr.toNat - first.toNat < cells.size then some _ else none) = _ ↔ _
  rw [Option.ite_none_right_eq_some, Option.some.injEq]
  exact Iff.rfl

theorem cell?_mirrored_eq_some_iff :
    (⟨name, first, last, .mirrored cells⟩ : Device).cell? addr = some cell ↔
      0 < cells.size ∧ (addr.toNat - first.toNat) % cells.size = cell := by
  show (if 0 < cells.size then some _ else none) = _ ↔ _
  rw [Option.ite_none_right_eq_some, Option.some.injEq]
  exact Iff.rfl

end Cells

/-- A device with nothing stored in it. -/
def cleared : Device → Device
  | ⟨name, first, last, .memory cells⟩ =>
      ⟨name, first, last, .memory (Array.replicate cells.size 0)⟩
  | ⟨name, first, last, .mirrored page⟩ =>
      ⟨name, first, last, .mirrored (Array.replicate page.size 0)⟩
  | ⟨name, first, last, .latch _⟩ => ⟨name, first, last, .latch 0⟩
  | d => d

@[simp] theorem cleared_write (d : Device) (addr : UInt16) (value : UInt8) :
    (d.write addr value).cleared = d.cleared := by
  obtain ⟨name, first, last, body⟩ := d
  cases body <;> simp [write, cleared]

@[simp] theorem cleared_afterRead (d : Device) : d.afterRead.cleared = d.cleared := by
  obtain ⟨name, first, last, body⟩ := d
  cases body <;> rfl

@[simp] theorem isLatch_cleared (d : Device) : d.cleared.isLatch = d.isLatch := by
  obtain ⟨name, first, last, body⟩ := d
  cases body <;> rfl

@[simp] theorem cell?_cleared (d : Device) : d.cleared.cell? = d.cell? := by
  obtain ⟨name, first, last, body⟩ := d
  cases body with
  | memory cells =>
    funext addr
    simp only [cleared, cell?]
    rw [Array.size_replicate]
    rfl
  | mirrored page =>
    funext addr
    simp only [cleared, cell?]
    rw [Array.size_replicate]
    rfl
  | latch | prgWindow | chrWindow => rfl

@[simp] theorem fault?_cleared (d : Device) : d.cleared.fault? = d.fault? := by
  obtain ⟨name, first, last, body⟩ := d
  cases body with
  | memory cells =>
    funext slot addr
    simp only [cleared, fault?]
    rw [Array.size_replicate]
    rfl
  | mirrored page =>
    funext slot addr
    simp only [cleared, fault?]
    rw [Array.size_replicate]
    rfl
  | latch | prgWindow | chrWindow => rfl

@[simp] theorem writeSlot_cleared (d : Device) : d.cleared.writeSlot = d.writeSlot := by
  obtain ⟨name, first, last, body⟩ := d
  cases body <;> rfl

/-- A cleared device shows zero at its cells. -/
theorem peek_cleared {d : Device} {addr : UInt16} {cell : Nat} (h : d.cell? addr = some cell)
    (slot : Slot) : d.cleared.peek slot addr = 0 := by
  obtain ⟨name, first, last, body⟩ := d
  cases body with
  | memory cells =>
    simp only [cleared, peek, Array.getD_eq_getD_getElem?, Array.getElem?_replicate]
    split <;> rfl
  | mirrored page =>
    simp only [cleared, peek, Array.getD_eq_getD_getElem?, Array.getElem?_replicate]
    split <;> rfl
  | latch | prgWindow | chrWindow => cases h

/-- A write is seen at the addresses of its cell and at no other. -/
theorem peek_write {d : Device} {seen : UInt16} {cell : Nat} (h : d.cell? seen = some cell)
    (addr : UInt16) (value : UInt8) (slot later : Slot) :
    (d.write addr value).peek later seen =
      if d.cell? addr = some cell then value else d.peek slot seen := by
  obtain ⟨name, first, last, body⟩ := d
  cases body with
  | memory cells =>
    rw [cell?_memory_eq_some_iff] at h
    obtain ⟨hsize, rfl⟩ := h
    simp only [cell?_memory_eq_some_iff, write, peek, offset, Array.getD_eq_getD_getElem?,
      Array.getElem?_setIfInBounds]
    by_cases hcell : addr.toNat - first.toNat = seen.toNat - first.toNat
    · simp [hcell, hsize]
    · simp [hcell]
  | mirrored page =>
    rw [cell?_mirrored_eq_some_iff] at h
    obtain ⟨hsize, rfl⟩ := h
    have hbound := Nat.mod_lt (seen.toNat - first.toNat) hsize
    simp only [cell?_mirrored_eq_some_iff, write, peek, offset, Array.getD_eq_getD_getElem?,
      Array.getElem?_setIfInBounds, Array.size_setIfInBounds]
    by_cases hcell : (addr.toNat - first.toNat) % page.size = (seen.toNat - first.toNat) % page.size
    · simp [hcell, hsize, hbound]
    · simp [hcell]
  | latch | prgWindow | chrWindow => cases h

theorem afterRead_of_not_latch {d : Device} (h : d.isLatch = false) : d.afterRead = d := by
  obtain ⟨name, first, last, body⟩ := d
  cases body with
  | memory | mirrored | prgWindow | chrWindow => rfl
  | latch => cases h

/-- A cell does not depend on the slot. -/
theorem peek_of_cell {d : Device} {addr : UInt16} {cell : Nat} (h : d.cell? addr = some cell)
    (slot later : Slot) : d.peek later addr = d.peek slot addr := by
  obtain ⟨name, first, last, body⟩ := d
  cases body with
  | memory | mirrored => rfl
  | latch | prgWindow | chrWindow => cases h

end Device

/-! ## Buses -/

namespace MemoryBus

/-- The device and the cell in it that store the byte for an address. -/
def cell? (bus : MemoryBus) (addr : UInt16) : Option (Nat × Nat) :=
  (bus.owner? addr).bind fun index =>
    (bus.devices[index]?).bind fun d => (d.cell? addr).map (Prod.mk index)

/-- A bus with nothing stored in its devices. -/
def cleared (bus : MemoryBus) : MemoryBus :=
  { bus with devices := bus.devices.map Device.cleared }

@[simp] theorem owner?_cleared (bus : MemoryBus) : bus.cleared.owner? = bus.owner? := rfl

@[simp] theorem owner?_modifyOwner (bus : MemoryBus) (addr : UInt16) (change : Device → Device) :
    (bus.modifyOwner addr change).owner? = bus.owner? := by
  rw [modifyOwner]
  split <;> rfl

theorem device?_eq_some_iff {bus : MemoryBus} {addr : UInt16} {d : Device} :
    bus.device? addr = some d ↔ ∃ index, bus.owner? addr = some index ∧
      bus.devices[index]? = some d :=
  Option.bind_eq_some_iff

/-- A change of the owner of an address is seen at the addresses of that owner. -/
theorem device?_modifyOwner (bus : MemoryBus) (addr seen : UInt16) (change : Device → Device) :
    (bus.modifyOwner addr change).device? seen =
      if bus.owner? seen = bus.owner? addr then (bus.device? seen).map change
      else bus.device? seen := by
  rw [device?, owner?_modifyOwner, device?, modifyOwner]
  cases haddr : bus.owner? addr with
  | none =>
    cases hseen : bus.owner? seen with
    | none => rfl
    | some index => rfl
  | some index =>
    cases hseen : bus.owner? seen with
    | none => rfl
    | some other =>
      simp only [Option.bind_some, Array.getElem?_modify, Option.some.injEq, eq_comm]

/-- A change that keeps what is there besides storage keeps the cleared bus. -/
theorem cleared_modifyOwner {change : Device → Device} (h : ∀ d, (change d).cleared = d.cleared)
    (bus : MemoryBus) (addr : UInt16) : (bus.modifyOwner addr change).cleared = bus.cleared := by
  rw [modifyOwner]
  split
  · rfl
  · rename_i index _
    have hdevices : (bus.devices.modify index change).map Device.cleared =
        bus.devices.map Device.cleared := by
      apply Array.ext_getElem?
      intro i
      rw [Array.getElem?_map, Array.getElem?_map, Array.getElem?_modify]
      split
      · rw [Option.map_map]
        exact congrFun (congrArg _ (funext h)) _
      · rfl
    rw [cleared, cleared, hdevices]

@[simp] theorem cleared_write (bus : MemoryBus) (addr : UInt16) (value : UInt8) :
    (bus.write addr value).cleared = bus.cleared :=
  cleared_modifyOwner (fun d => d.cleared_write addr value) bus addr

theorem device?_cleared (bus : MemoryBus) (addr : UInt16) :
    bus.cleared.device? addr = (bus.device? addr).map Device.cleared := by
  rw [device?, device?, owner?_cleared, cleared, Option.map_bind]
  congr 1
  funext index
  exact Array.getElem?_map ..

@[simp] theorem cell?_cleared (bus : MemoryBus) : bus.cleared.cell? = bus.cell? := by
  funext addr
  rw [cell?, cell?, owner?_cleared, cleared]
  congr 1
  funext index
  rw [Array.getElem?_map, Option.bind_map]
  congr 1
  funext d
  rw [Function.comp_apply, Device.cell?_cleared]

@[simp] theorem fault?_cleared (bus : MemoryBus) : bus.cleared.fault? = bus.fault? := by
  funext slot addr
  rw [fault?, fault?, device?_cleared]
  cases bus.device? addr with
  | none => rfl
  | some d => exact congrFun (congrFun d.fault?_cleared slot) addr

@[simp] theorem writeSlot_cleared (bus : MemoryBus) : bus.cleared.writeSlot = bus.writeSlot := by
  funext addr value slot
  rw [writeSlot, writeSlot, device?_cleared]
  cases bus.device? addr with
  | none => rfl
  | some d => exact congrFun (congrFun (congrFun d.writeSlot_cleared addr) value) slot

theorem device?_of_cell {bus : MemoryBus} {addr : UInt16} {index cell : Nat}
    (h : bus.cell? addr = some (index, cell)) :
    ∃ d, bus.owner? addr = some index ∧ bus.devices[index]? = some d ∧
      bus.device? addr = some d ∧ d.cell? addr = some cell := by
  obtain ⟨index', howner, hrest⟩ := Option.bind_eq_some_iff.1 h
  obtain ⟨d, hdevice, hcell⟩ := Option.bind_eq_some_iff.1 hrest
  obtain ⟨cell', hcell', hpair⟩ := Option.map_eq_some_iff.1 hcell
  obtain ⟨rfl, rfl⟩ := Prod.mk.inj hpair
  exact ⟨d, howner, hdevice, device?_eq_some_iff.2 ⟨_, howner, hdevice⟩, hcell'⟩

theorem peek_of_cleared {bus : MemoryBus} {addr : UInt16} {cell : Nat × Nat}
    (hbus : bus.cleared = bus) (h : bus.cell? addr = some cell) (slot : Slot) :
    bus.peek slot addr = 0 := by
  obtain ⟨d, -, -, hdevice, hcell⟩ := device?_of_cell h
  rw [← hbus, peek, device?_cleared, hdevice]
  exact Device.peek_cleared hcell slot

/-- A write is seen at the addresses of its cell and at no other cell. -/
theorem peek_write {bus : MemoryBus} {seen : UInt16} {cell : Nat × Nat}
    (h : bus.cell? seen = some cell) (addr : UInt16) (value : UInt8) (slot later : Slot) :
    (bus.write addr value).peek later seen =
      if bus.cell? addr = some cell then value else bus.peek slot seen := by
  obtain ⟨index, offset⟩ := cell
  obtain ⟨d, howner, hplace, hdevice, hcell⟩ := device?_of_cell h
  rw [peek, peek, write, device?_modifyOwner, hdevice, howner]
  by_cases haddr : bus.owner? addr = some index
  · -- The written address has the same owner, so the cells within the device decide.
    have hsame : bus.cell? addr = some (index, offset) ↔ d.cell? addr = some offset := by
      simp [cell?, haddr, hplace]
    simp only [haddr, if_true, Option.map_some, Option.elim_some, hsame]
    exact Device.peek_write hcell addr value slot later
  · -- Another device is written, if any, and the one that is seen keeps its cells.
    have hother : bus.cell? addr ≠ some (index, offset) := by
      intro hc
      obtain ⟨_, howner', -⟩ := device?_of_cell hc
      exact haddr howner'
    rw [if_neg (Ne.symm haddr), if_neg hother]
    exact Device.peek_of_cell hcell slot later

/-- A read leaves a bus as it is unless a latch answers it. -/
theorem afterRead_eq_self {bus : MemoryBus} {addr : UInt16}
    (h : ∀ d, bus.device? addr = some d → d.isLatch = false) : bus.afterRead addr = bus := by
  rw [afterRead, modifyOwner]
  split
  · rfl
  · rename_i index howner
    have hdevices : bus.devices.modify index Device.afterRead = bus.devices := by
      apply Array.ext_getElem?
      intro i
      rw [Array.getElem?_modify]
      split
      · rename_i hindex
        cases hplace : bus.devices[i]? with
        | none => rfl
        | some d =>
          have hdevice := device?_eq_some_iff.2 ⟨index, howner, hindex ▸ hplace⟩
          rw [Option.map_some, Device.afterRead_of_not_latch (h d hdevice)]
      · rfl
    rw [hdevices]

end MemoryBus

end NesMachine
