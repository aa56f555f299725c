import NesMachine.AddressTable
import NesMachine.Device

/-!
# The memory bus

A memory bus routes each address to the device that owns it. A device that is mapped takes all the
addresses of its range; the earlier devices keep what they own elsewhere, with everything they
store. An overridden device is reported with the lowest and the highest address that it loses.
-/

set_option autoImplicit false

namespace NesMachine

/-- The devices of a bus in the order in which they were mapped, and the owner of each address as a
position among them. -/
structure MemoryBus where
  devices : Array Device
  owners : AddressTable (Option Nat)

/-- The addresses of a range with both ends included, in increasing order. -/
def addressRange (first last : UInt16) : List UInt16 :=
  (List.range' first.toNat (last.toNat + 1 - first.toNat)).map UInt16.ofNat

/-- What an earlier device loses to a new one: from its lowest to its highest address. -/
structure LostSpan where
  owner : Nat
  low : UInt16
  high : UInt16
  deriving DecidableEq

/-- Record that an owner loses an address above those recorded before. The spans are in increasing
order of their owners. -/
def LostSpan.extend (owner : Nat) (addr : UInt16) : List LostSpan → List LostSpan
  | [] => [⟨owner, addr, addr⟩]
  | span :: rest =>
      if owner < span.owner then ⟨owner, addr, addr⟩ :: span :: rest
      else if owner = span.owner then { span with high := addr } :: rest
      else span :: extend owner addr rest

namespace MemoryBus

/-- The number of devices that a bus has room for. -/
def capacity : Nat := 0x10000

/-- A bus without devices. -/
def empty : MemoryBus :=
  ⟨#[], .const none⟩

/-! ## Owners -/

/-- The position of the device that owns an address. -/
def owner? (bus : MemoryBus) (addr : UInt16) : Option Nat :=
  bus.owners.get addr

/-- The device that owns an address. -/
def device? (bus : MemoryBus) (addr : UInt16) : Option Device :=
  (bus.owner? addr).bind (bus.devices[·]?)

/-- The name of the device that owns an address. -/
def ownerName? (bus : MemoryBus) (addr : UInt16) : Option String :=
  (bus.device? addr).map Device.name

/-- Whether an address has an owner. -/
def isMapped (bus : MemoryBus) (addr : UInt16) : Bool :=
  (bus.owner? addr).isSome

/-- Whether every address has an owner. -/
def fullyMapped (bus : MemoryBus) : Bool :=
  bus.owners.all Option.isSome

/-- Extend the last of some runs of owners to an address, or start a new one. The runs are kept
with the last one first. -/
private def extendRun (runs : List (UInt16 × UInt16 × Option String)) (addr : UInt16)
    (name? : Option String) : List (UInt16 × UInt16 × Option String) :=
  match runs with
  | (first, last, current?) :: rest =>
      if current? = name? then (first, addr, current?) :: rest
      else (addr, addr, name?) :: (first, last, current?) :: rest
  | [] => [(addr, addr, name?)]

/-- The longest ranges of addresses with owners of one name, each with its ends. -/
def ownerRuns (bus : MemoryBus) : List (UInt16 × UInt16 × Option String) :=
  ((addressRange 0 0xFFFF).foldl
    (fun runs addr => extendRun runs addr (bus.ownerName? addr)) []).reverse

/-! ## Mapping devices -/

/-- What the earlier devices lose to a new device with a range. -/
def lostSpans (bus : MemoryBus) (first last : UInt16) : List LostSpan :=
  (addressRange first last).foldl
    (fun spans addr =>
      match bus.owner? addr with
      | none => spans
      | some owner => LostSpan.extend owner addr spans) []

/-- Give the range of a device to it. -/
def claim (bus : MemoryBus) (d : Device) : MemoryBus :=
  let index := bus.devices.size
  { devices := bus.devices.push d
    owners := (addressRange d.first d.last).foldl
      (fun owners addr => owners.set addr (some index)) bus.owners }

/-- Why a device cannot be mapped, if it cannot. -/
def refusal? (bus : MemoryBus) (d : Device) : Option WiringError :=
  if d.last < d.first then some (.rangeReversed d.name d.first d.last)
  else if capacity ≤ bus.devices.size then some (.tableFull d.name)
  else none

/-- Map a device. The answer has its position on the bus. -/
def mapDevice (bus : MemoryBus) (d : Device) : Except WiringError (Nat × MemoryBus) :=
  match bus.refusal? d with
  | some error => .error error
  | none =>
      let index := bus.devices.size
      .ok (index, bus.claim d)

/-- The event of mapping a device. -/
def mappedEvent (d : Device) : Event :=
  .deviceMapped d.name d.first d.last

/-- The events of mapping a device: one for each earlier device that loses addresses, and one for
the new device. -/
def claimEvents (bus : MemoryBus) (d : Device) : List Event :=
  (bus.lostSpans d.first d.last).map (fun span =>
    let earlier := (bus.devices[span.owner]?).elim "" Device.name
    .overridden d.name d.first d.last earlier span.low span.high) ++ [mappedEvent d]

/-! ## Accesses -/

/-- Why an access to an address is not answered, if it is not. -/
def fault? (bus : MemoryBus) (slot : Slot) (addr : UInt16) : Option BusFault :=
  match bus.device? addr with
  | none => some (.unmapped addr)
  | some d => d.fault? slot addr

/-- The byte that a read would return. -/
def peek (bus : MemoryBus) (slot : Slot) (addr : UInt16) : UInt8 :=
  (bus.device? addr).elim 0 (·.peek slot addr)

/-- The bus after a change of the device that owns an address. -/
def modifyOwner (bus : MemoryBus) (addr : UInt16) (change : Device → Device) : MemoryBus :=
  match bus.owner? addr with
  | none => bus
  | some index => { bus with devices := bus.devices.modify index change }

/-- The bus after a read. -/
def afterRead (bus : MemoryBus) (addr : UInt16) : MemoryBus :=
  bus.modifyOwner addr Device.afterRead

/-- The bus after a write. -/
def write (bus : MemoryBus) (addr : UInt16) (value : UInt8) : MemoryBus :=
  bus.modifyOwner addr (Device.write addr value)

/-- The slot after a write to the bus. -/
def writeSlot (bus : MemoryBus) (addr : UInt16) (value : UInt8) (slot : Slot) : Slot :=
  match bus.device? addr with
  | none => slot
  | some d => d.writeSlot addr value slot

/-- The event of a write, if there is one. -/
def writeEvent? (bus : MemoryBus) (slot : Slot) (addr : UInt16) (value : UInt8) : Option Event :=
  (bus.device? addr).bind (·.writeEvent? slot addr value)

end MemoryBus

end NesMachine
