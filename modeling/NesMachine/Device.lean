import NesMachine.Cartridge.Events

/-!
# Devices

A device claims an inclusive range of addresses and is handed absolute addresses. Memory turns them
into offsets into its cells; mirrored memory repeats one page over its range, so that every copy
aliases the same cells; a latch is one byte that a read clears; and a cartridge window passes the
access on to the cartridge in the slot, which all windows of a machine share.

Access is total: what no cell answers reads as zero and takes no write. `fault?` names the accesses
for which that happens.
-/

set_option autoImplicit false

namespace NesMachine

/-- The cartridge slot of a machine. -/
abbrev Slot := Option Cartridge

/-- What a device does with the accesses in its range. -/
inductive DeviceBody where
  /-- One cell for each address. -/
  | memory (cells : Array UInt8)
  /-- One page of cells, repeated. -/
  | mirrored (page : Array UInt8)
  /-- One byte at every address, cleared by a read. -/
  | latch (value : UInt8)
  /-- The program window of the cartridge in the slot. -/
  | prgWindow
  /-- The pattern window of the cartridge in the slot. -/
  | chrWindow
  deriving DecidableEq

/-- A device with the range that it claims. -/
structure Device where
  name : String
  first : UInt16
  last : UInt16
  body : DeviceBody
  deriving DecidableEq

/-- Why an access is not answered. -/
inductive BusFault where
  /-- No device claims the address. -/
  | unmapped (addr : UInt16)
  /-- The device has no cell for the address. -/
  | outsideStorage (device : String) (addr : UInt16)
  /-- The slot that the device passes the access to is empty. -/
  | emptySlot (device : String)
  deriving DecidableEq

/-- The message for a user. -/
def BusFault.message : BusFault → String
  | .unmapped addr => "bus access to unmapped address 0x" ++ Text.Hex.wordText addr
  | .outsideStorage device addr =>
      device ++ " has no storage for address 0x" ++ Text.Hex.wordText addr
  | .emptySlot device => device ++ " has no cartridge"

/-- Why a device cannot be built or mapped. -/
inductive WiringError where
  | memoryReversed (first last : UInt16)
  | mirroringEmpty
  | mirroringTooLarge (start : UInt16) (page count : Nat)
  | rangeReversed (device : String) (first last : UInt16)
  | tableFull (device : String)
  deriving DecidableEq

/-- The message for a user. -/
def WiringError.message : WiringError → String
  | .memoryReversed first last =>
      "ram range reversed: 0x" ++ Text.Hex.wordText first ++ "-0x" ++ Text.Hex.wordText last
  | .mirroringEmpty => "mirrored ram needs a non-empty page and at least one copy"
  | .mirroringTooLarge start page count =>
      "mirrored ram at 0x" ++ Text.Hex.wordText start ++ " (" ++ count.repr ++ " x 0x" ++
        String.ofList (Text.Hex.shortest page) ++ ") runs past 0xFFFF"
  | .rangeReversed device first last =>
      "device " ++ device ++ " has a reversed range 0x" ++ Text.Hex.wordText first ++ "-0x" ++
        Text.Hex.wordText last
  | .tableFull device => "device table full, cannot map " ++ device

namespace Device

/-! ## Building devices -/

/-- Zeroed memory over a range. -/
def memory (name : String) (first last : UInt16) : Device :=
  ⟨name, first, last, .memory (Array.replicate (last.toNat + 1 - first.toNat) 0)⟩

/-- Zeroed memory over a range that is not reversed. -/
def memory? (first last : UInt16) : Except WiringError Device :=
  if last < first then .error (.memoryReversed first last) else .ok (memory "ram" first last)

/-- Copies of a zeroed page from an address on. -/
def mirrored (name : String) (start : UInt16) (page count : Nat) : Device :=
  ⟨name, start, UInt16.ofNat (start.toNat + page * count - 1), .mirrored (Array.replicate page 0)⟩

/-- At least one copy of a page that is not empty, all below the top of memory. -/
def mirrored? (start : UInt16) (page count : Nat) : Except WiringError Device :=
  if page = 0 ∨ count = 0 then .error .mirroringEmpty
  else if UInt16.size < start.toNat + page * count then
    .error (.mirroringTooLarge start page count)
  else .ok (mirrored "mirrored ram" start page count)

/-- A latch over a range. -/
def latch (first last : UInt16) (value : UInt8) : Device :=
  ⟨"latch", first, last, .latch value⟩

/-- The program window, at the processor's upper half of memory. -/
def prgWindow (mapper : Mapper) : Device :=
  ⟨mapper.name ++ " prg", 0x8000, 0xFFFF, .prgWindow⟩

/-- The pattern window, at the picture unit's pattern tables. -/
def chrWindow (mapper : Mapper) : Device :=
  ⟨mapper.name ++ " chr", 0x0000, 0x1FFF, .chrWindow⟩

/-- The same device under another name. -/
def named (d : Device) (name : String) : Device :=
  { d with name }

/-- Whether an address is in the range of a device. -/
def contains (d : Device) (addr : UInt16) : Bool :=
  decide (d.first ≤ addr) && decide (addr ≤ d.last)

/-! ## Accesses -/

/-- The distance of an address from the start of the range. -/
def offset (d : Device) (addr : UInt16) : Nat :=
  addr.toNat - d.first.toNat

/-- Why an access to a device is not answered, if it is not. -/
def fault? (d : Device) (slot : Slot) (addr : UInt16) : Option BusFault :=
  let outside := BusFault.outsideStorage d.name addr
  match d.body with
  | .memory cells =>
      if d.first ≤ addr ∧ d.offset addr < cells.size then none else some outside
  | .mirrored page => if d.first ≤ addr ∧ 0 < page.size then none else some outside
  | .latch _ => none
  | .prgWindow =>
      match slot with
      | none => some (.emptySlot d.name)
      | some c => if c.prgInRange addr then none else some outside
  | .chrWindow =>
      match slot with
      | none => some (.emptySlot d.name)
      | some c => if c.chrInRange addr then none else some outside

/-- The byte that a read would return. -/
def peek (d : Device) (slot : Slot) (addr : UInt16) : UInt8 :=
  match d.body with
  | .memory cells => cells.getD (d.offset addr) 0
  | .mirrored page => page.getD (d.offset addr % page.size) 0
  | .latch value => value
  | .prgWindow => slot.elim 0 (·.peekPrg addr)
  | .chrWindow => slot.elim 0 (·.peekChr addr)

/-- The device after a read. -/
def afterRead : Device → Device
  | ⟨name, first, last, .latch _⟩ => ⟨name, first, last, .latch 0⟩
  | d => d

/-- The device after a write. -/
def write (addr : UInt16) (value : UInt8) : Device → Device
  | ⟨name, first, last, .memory cells⟩ =>
      ⟨name, first, last, .memory (cells.setIfInBounds (addr.toNat - first.toNat) value)⟩
  | ⟨name, first, last, .mirrored page⟩ =>
      let cell := (addr.toNat - first.toNat) % page.size
      ⟨name, first, last, .mirrored (page.setIfInBounds cell value)⟩
  | ⟨name, first, last, .latch _⟩ => ⟨name, first, last, .latch value⟩
  | d => d

/-- The slot after a write to a device. -/
def writeSlot (d : Device) (addr : UInt16) (value : UInt8) (slot : Slot) : Slot :=
  match d.body with
  | .prgWindow => slot.map (·.writePrg value)
  | .chrWindow => slot.map (·.writeChr addr value)
  | _ => slot

/-- The event of a write to a device, if there is one. -/
def writeEvent? (d : Device) (slot : Slot) (addr : UInt16) (value : UInt8) : Option Event :=
  match d.body with
  | .prgWindow => slot.map (·.prgWriteEvent addr value)
  | .chrWindow => slot.bind (·.chrWriteEvent? addr)
  | _ => none

end Device

end NesMachine
