import NesMachine.Proofs.Bus.Ownership
import NesMachine.Proofs.Bus.Recall
import NesMachine.Proofs.Cartridge.Accepted
import NesMachine.Wiring

/-!
# The layout of the standard buses

What answers each address of the processor's bus and of the picture unit's bus
(`Wiring.answer?_referenceBus`, `Wiring.answer?_pictureBus`), and what follows for the cells, the
faults, the windows and the slot. The cartridge only names the windows: which device answers depends
on the address alone.
-/

set_option autoImplicit false

namespace NesMachine

theorem le_of_lt_next {addr last next : UInt16} (h : addr < next)
    (hnext : next.toNat = last.toNat + 1) : addr ≤ last := by
  rw [UInt16.lt_iff_toNat_lt] at h
  rw [UInt16.le_iff_toNat_le]
  omega

/-! ## Single devices -/

namespace Device

section Memory

variable {name : String} {first last addr : UInt16} {page count : Nat}

/-- Memory over a range stores the byte for each address of it in a cell of its own. -/
theorem cell?_memory (hfirst : first ≤ addr) (hlast : addr ≤ last) :
    (memory name first last).cell? addr = some (addr.toNat - first.toNat) := by
  rw [UInt16.le_iff_toNat_le] at hfirst hlast
  rw [memory, cell?_memory_eq_some_iff, Array.size_replicate]
  exact ⟨by omega, rfl⟩

theorem fault?_memory (hfirst : first ≤ addr) (hlast : addr ≤ last) (slot : Slot) :
    (memory name first last).fault? slot addr = none := by
  have hsize : addr.toNat - first.toNat < last.toNat + 1 - first.toNat := by
    rw [UInt16.le_iff_toNat_le] at hfirst hlast
    omega
  simp [memory, fault?, offset, hfirst, hsize]

/-- Mirrored memory stores a byte at the distance of its address in the page. -/
theorem cell?_mirrored (hpage : 0 < page) :
    (mirrored name first page count).cell? addr = some ((addr.toNat - first.toNat) % page) := by
  rw [mirrored, cell?_mirrored_eq_some_iff, Array.size_replicate]
  exact ⟨hpage, rfl⟩

theorem fault?_mirrored (hpage : 0 < page) (hfirst : first ≤ addr) (slot : Slot) :
    (mirrored name first page count).fault? slot addr = none := by
  simp [mirrored, fault?, hfirst, hpage]

@[simp] theorem cleared_memory (name : String) (first last : UInt16) :
    (memory name first last).cleared = memory name first last := by
  simp [memory, cleared]

@[simp] theorem cleared_mirrored (name : String) (first : UInt16) (page count : Nat) :
    (mirrored name first page count).cleared = mirrored name first page count := by
  simp [mirrored, cleared]

@[simp] theorem isLatch_mirrored (name : String) (first : UInt16) (page count : Nat) :
    (mirrored name first page count).isLatch = false := rfl

end Memory

end Device

/-! ## Buses -/

namespace MemoryBus

theorem cleared_wired {devices : List Device} (h : ∀ d ∈ devices, d.cleared = d) :
    (wired devices).cleared = wired devices := by
  have hdevices : (wired devices).devices.map Device.cleared = (wired devices).devices := by
    rw [devices_wired, List.map_toArray, List.map_congr_left h, List.map_id']
  rw [cleared, hdevices]

theorem latchless_wired {devices : List Device} (h : ∀ d ∈ devices, d.isLatch = false) :
    (wired devices).Latchless := by
  intro addr d hdevice
  obtain ⟨index, -, hplace⟩ := device?_eq_some_iff.1 hdevice
  rw [devices_wired, List.getElem?_toArray] at hplace
  exact h d (List.mem_of_getElem? hplace)

section Answers

variable {bus : MemoryBus} {addr : UInt16} {d : Device} {index : Nat}

theorem device?_of_answer (h : bus.answer? addr = some (d, index)) :
    bus.device? addr = some d := by
  rw [← map_fst_answer?, h]
  rfl

theorem cell?_of_answer (h : bus.answer? addr = some (d, index)) :
    bus.cell? addr = (d.cell? addr).map (Prod.mk index) := by
  obtain ⟨place, howner, hanswer⟩ := Option.bind_eq_some_iff.1 h
  obtain ⟨found, hplace, hpair⟩ := Option.map_eq_some_iff.1 hanswer
  obtain ⟨rfl, rfl⟩ := Prod.mk.inj hpair
  rw [cell?, howner, Option.bind_some, hplace, Option.bind_some]

theorem cell?_of_no_answer (h : bus.answer? addr = none) : bus.cell? addr = none := by
  cases hcell : bus.cell? addr with
  | none => rfl
  | some cell =>
    obtain ⟨found, -, -, hdevice, -⟩ := device?_of_cell hcell
    rw [← map_fst_answer?, h] at hdevice
    cases hdevice

theorem fault?_of_answer (h : bus.answer? addr = some (d, index)) (slot : Slot) :
    bus.fault? slot addr = d.fault? slot addr := by
  rw [fault?, device?_of_answer h]

theorem peek_of_answer (h : bus.answer? addr = some (d, index)) (slot : Slot) :
    bus.peek slot addr = d.peek slot addr := by
  rw [peek, device?_of_answer h]
  rfl

theorem writeSlot_of_answer (h : bus.answer? addr = some (d, index)) (value : UInt8)
    (slot : Slot) : bus.writeSlot addr value slot = d.writeSlot addr value slot := by
  rw [writeSlot, device?_of_answer h]

/-- A write to an address that nothing answers leaves the slot. -/
theorem writeSlot_of_no_answer (h : bus.answer? addr = none) (value : UInt8) (slot : Slot) :
    bus.writeSlot addr value slot = slot := by
  rw [writeSlot, ← map_fst_answer?, h]
  rfl

end Answers

end MemoryBus

namespace Wiring

open MemoryBus

/-! ## The processor's bus -/

/-- The device that answers an address of the processor's bus, with its position. -/
def referenceAnswer (mapper : Mapper) (addr : UInt16) : Device × Nat :=
  if addr < 0x2000 then (.mirrored "internal ram" 0x0000 0x0800 4, 0)
  else if addr < 0x4000 then (.mirrored "ppu registers" 0x2000 8 1024, 1)
  else if addr < 0x6000 then (.memory "io" 0x4000 0x5FFF, 2)
  else if addr < 0x8000 then (.memory "work ram" 0x6000 0x7FFF, 3)
  else (.prgWindow mapper, 4)

/-- Every address of the processor's bus is answered. -/
theorem answer?_referenceBus (c : Cartridge) (addr : UInt16) :
    (referenceBus c).answer? addr = some (referenceAnswer c.header.mapper addr) := by
  have hlast := addr.toNat_lt
  have hwired := answer?_wired (lowerDevices ++ upperDevices c) addr
  rw [wired, ← referenceBus] at hwired
  rw [hwired, lowerDevices, upperDevices, referenceAnswer]
  simp only [Device.contains, UInt16.le_iff_toNat_le, Device.mirrored, UInt16.toNat_zero,
    Nat.reduceMul, Nat.zero_add, Nat.add_one_sub_one, UInt16.reduceOfNat, UInt16.reduceToNat,
    Nat.reduceAdd, Device.memory, Nat.reduceSub, Device.prgWindow, List.cons_append,
    List.nil_append, List.zipIdx_cons, List.zipIdx_nil, List.reverse_cons, List.reverse_nil,
    List.find?_cons, Nat.zero_le, decide_true, Bool.true_and, List.find?_nil,
    UInt16.lt_iff_toNat_lt]
  grind

/-- No device of the processor's bus has anything stored in it or is a latch. -/
theorem fresh_referenceDevices (c : Cartridge) :
    ∀ d ∈ lowerDevices ++ upperDevices c, d.cleared = d ∧ d.isLatch = false := by
  intro d hd
  simp only [lowerDevices, upperDevices, List.cons_append, List.nil_append, List.mem_cons,
    List.not_mem_nil, or_false] at hd
  rcases hd with rfl | rfl | rfl | rfl | rfl
  · exact ⟨Device.cleared_mirrored .., rfl⟩
  · exact ⟨Device.cleared_mirrored .., rfl⟩
  · exact ⟨Device.cleared_memory .., rfl⟩
  · exact ⟨Device.cleared_memory .., rfl⟩
  · exact ⟨rfl, rfl⟩

theorem cleared_referenceBus (c : Cartridge) : (referenceBus c).cleared = referenceBus c :=
  cleared_wired fun d hd => (fresh_referenceDevices c d hd).1

theorem latchless_referenceBus (c : Cartridge) : (referenceBus c).Latchless :=
  latchless_wired fun d hd => (fresh_referenceDevices c d hd).2

/-- The cells of the processor's bus. -/
theorem cell?_referenceBus (c : Cartridge) (addr : UInt16) :
    (referenceBus c).cell? addr =
      if addr < 0x2000 then some (0, addr.toNat % 0x800)
      else if addr < 0x4000 then some (1, (addr.toNat - 0x2000) % 8)
      else if addr < 0x6000 then some (2, addr.toNat - 0x4000)
      else if addr < 0x8000 then some (3, addr.toNat - 0x6000)
      else none := by
  have hanswer := answer?_referenceBus c addr
  rw [referenceAnswer] at hanswer
  -- One case for each device: two mirrored pages, two plain memories and the window.
  split_ifs at hanswer ⊢ with hram hregisters hio hwork
  · rw [cell?_of_answer hanswer, Device.cell?_mirrored (by decide)]
    rfl
  · rw [cell?_of_answer hanswer, Device.cell?_mirrored (by decide)]
    rfl
  · rw [cell?_of_answer hanswer, Device.cell?_memory (UInt16.not_lt.1 hregisters)
      (le_of_lt_next hio rfl)]
    rfl
  · rw [cell?_of_answer hanswer, Device.cell?_memory (UInt16.not_lt.1 hio)
      (le_of_lt_next hwork rfl)]
    rfl
  · rw [cell?_of_answer hanswer]
    rfl

/-- With a complete cartridge, nothing on the processor's bus is a fault. -/
theorem fault?_referenceBus {c slotted : Cartridge} (h : slotted.Complete) (addr : UInt16) :
    (referenceBus c).fault? (some slotted) addr = none := by
  have hanswer := answer?_referenceBus c addr
  rw [referenceAnswer] at hanswer
  split_ifs at hanswer with hram hregisters hio hwork
  · rw [fault?_of_answer hanswer]
    exact Device.fault?_mirrored (by decide) (UInt16.le_iff_toNat_le.2 (Nat.zero_le _)) _
  · rw [fault?_of_answer hanswer]
    exact Device.fault?_mirrored (by decide) (UInt16.not_lt.1 hram) _
  · rw [fault?_of_answer hanswer]
    exact Device.fault?_memory (UInt16.not_lt.1 hregisters) (le_of_lt_next hio rfl) _
  · rw [fault?_of_answer hanswer]
    exact Device.fault?_memory (UInt16.not_lt.1 hio) (le_of_lt_next hwork rfl) _
  · rw [fault?_of_answer hanswer]
    simp [Device.prgWindow, Device.fault?, Cartridge.prgInRange, h.prgBanks_pos, h.prgOffset_lt]

theorem referenceAnswer_window (mapper : Mapper) {addr : UInt16} (haddr : ¬ addr < 0x8000) :
    referenceAnswer mapper addr = (.prgWindow mapper, 4) := by
  grind [referenceAnswer]

theorem peek_referenceBus (c : Cartridge) {addr : UInt16} (haddr : ¬ addr < 0x8000)
    (slot : Slot) : (referenceBus c).peek slot addr = slot.elim 0 (·.peekPrg addr) := by
  have hanswer := answer?_referenceBus c addr
  rw [referenceAnswer_window _ haddr] at hanswer
  rw [peek_of_answer hanswer]
  rfl

/-- A write from `8000` on goes to the program window, and no other write reaches the slot. -/
theorem writeSlot_referenceBus (c : Cartridge) (addr : UInt16) (value : UInt8) (slot : Slot) :
    (referenceBus c).writeSlot addr value slot =
      if addr < 0x8000 then slot else slot.map (·.writePrg value) := by
  have hanswer := answer?_referenceBus c addr
  split_ifs with hlow
  · rw [referenceAnswer] at hanswer
    split_ifs at hanswer <;> exact writeSlot_of_answer hanswer value slot
  · rw [referenceAnswer_window _ hlow] at hanswer
    exact writeSlot_of_answer hanswer value slot

/-! ## The picture unit's bus -/

/-- The device that answers an address of the picture unit's bus, with its position. -/
def pictureAnswer (mapper : Mapper) (addr : UInt16) : Option (Device × Nat) :=
  if addr < 0x2000 then some (.chrWindow mapper, 0)
  else if addr < 0x4000 then some (.mirrored "nametables" 0x2000 0x0800 4, 1)
  else none

/-- Addresses below `4000` of the picture unit's bus are answered. -/
theorem answer?_pictureBus (c : Cartridge) (addr : UInt16) :
    (pictureBus c).answer? addr = pictureAnswer c.header.mapper addr := by
  have hwired := answer?_wired (pictureDevices c) addr
  rw [wired, ← pictureBus] at hwired
  rw [hwired, pictureDevices, pictureAnswer]
  simp only [Device.contains, UInt16.le_iff_toNat_le, Device.chrWindow, Device.mirrored,
    UInt16.reduceToNat, Nat.reduceMul, Nat.reduceAdd, Nat.add_one_sub_one, UInt16.reduceOfNat,
    List.zipIdx_cons, Nat.zero_add, List.zipIdx_nil, List.reverse_cons, List.reverse_nil,
    List.nil_append, List.cons_append, List.find?_cons, UInt16.toNat_zero, Nat.zero_le,
    decide_true, Bool.true_and, List.find?_nil, UInt16.lt_iff_toNat_lt]
  grind

/-- No device of the picture unit's bus has anything stored in it or is a latch. -/
theorem fresh_pictureDevices (c : Cartridge) :
    ∀ d ∈ pictureDevices c, d.cleared = d ∧ d.isLatch = false := by
  intro d hd
  simp only [pictureDevices, List.mem_cons, List.not_mem_nil, or_false] at hd
  rcases hd with rfl | rfl
  · exact ⟨rfl, rfl⟩
  · exact ⟨Device.cleared_mirrored .., rfl⟩

theorem cleared_pictureBus (c : Cartridge) : (pictureBus c).cleared = pictureBus c :=
  cleared_wired fun d hd => (fresh_pictureDevices c d hd).1

theorem latchless_pictureBus (c : Cartridge) : (pictureBus c).Latchless :=
  latchless_wired fun d hd => (fresh_pictureDevices c d hd).2

/-- The cells of the picture unit's bus. -/
theorem cell?_pictureBus (c : Cartridge) (addr : UInt16) :
    (pictureBus c).cell? addr =
      if 0x2000 ≤ addr ∧ addr < 0x4000 then some (1, (addr.toNat - 0x2000) % 0x800) else none := by
  have hanswer := answer?_pictureBus c addr
  rw [pictureAnswer] at hanswer
  split_ifs at hanswer with hpattern hnametable
  · rw [cell?_of_answer hanswer, if_neg (fun h => UInt16.not_lt.2 h.1 hpattern)]
    rfl
  · rw [cell?_of_answer hanswer, Device.cell?_mirrored (by decide),
      if_pos ⟨UInt16.not_lt.1 hpattern, hnametable⟩]
    rfl
  · rw [cell?_of_no_answer hanswer, if_neg (fun h => hnametable h.2)]

theorem fault?_pictureBus {c slotted : Cartridge} (h : slotted.Complete) {addr : UInt16}
    (haddr : addr < 0x4000) : (pictureBus c).fault? (some slotted) addr = none := by
  have hanswer := answer?_pictureBus c addr
  rw [pictureAnswer] at hanswer
  split_ifs at hanswer with hpattern
  · rw [fault?_of_answer hanswer]
    simp [Device.chrWindow, Device.fault?, Cartridge.chrInRange, h.chrOffset_lt]
  · rw [fault?_of_answer hanswer]
    exact Device.fault?_mirrored (by decide) (UInt16.not_lt.1 hpattern) _

theorem peek_pictureBus (c : Cartridge) {addr : UInt16} (haddr : addr < 0x2000) (slot : Slot) :
    (pictureBus c).peek slot addr = slot.elim 0 (·.peekChr addr) := by
  have hanswer := answer?_pictureBus c addr
  rw [pictureAnswer, if_pos haddr] at hanswer
  rw [peek_of_answer hanswer]
  rfl

/-- A write below `2000` goes to the pattern window, and no other write reaches the slot. -/
theorem writeSlot_pictureBus (c : Cartridge) (addr : UInt16) (value : UInt8) (slot : Slot) :
    (pictureBus c).writeSlot addr value slot =
      if addr < 0x2000 then slot.map (·.writeChr addr value) else slot := by
  have hanswer := answer?_pictureBus c addr
  rw [pictureAnswer] at hanswer
  split_ifs at hanswer ⊢ with hpattern hnametable
  · exact writeSlot_of_answer hanswer value slot
  · exact writeSlot_of_answer hanswer value slot
  · exact writeSlot_of_no_answer hanswer value slot

end Wiring

end NesMachine
