import NesMachine.Drive
import NesMachine.Wiring

/-!
# Machines

A machine is a processor on its board, with the picture unit's bus beside it; both buses see the
cartridge in the board's slot. A `Session` is a sequence of calls to a machine. It ends at the first
access that nothing answers and at the first device that cannot be built or mapped, and it records
the accesses that go over the processor's bus. Looking at memory through `look` and what is done
`quietly` leaves no record.
-/

set_option autoImplicit false

namespace NesMachine

/-- Why a session ends early. -/
inductive MachineFault where
  | bus (fault : BusFault)
  | wiring (error : WiringError)
  deriving DecidableEq

/-- The message for a user. -/
def MachineFault.message : MachineFault → String
  | .bus fault => fault.message
  | .wiring error => error.message

/-- A processor on its board, the picture unit's address space, and the accesses so far. -/
structure Machine where
  cpu : Cpu
  board : Board
  picture : AddressSpace
  accesses : Array Access

namespace Machine

/-- A processor at power on on a board. -/
def ofSpaces (slot : Slot) (space picture : AddressSpace) : Machine :=
  ⟨.powerOn, .ofSpace slot space, picture, #[]⟩

/-- Exchange the address spaces of the processor and the picture unit. -/
def exchange : Machine → Machine
  | ⟨cpu, ⟨slot, space, events⟩, picture, accesses⟩ =>
      ⟨cpu, ⟨slot, picture, events⟩, space, accesses⟩

/-- Forget the events and the accesses so far. -/
def forget (m : Machine) : Machine :=
  { m with board.events := #[], accesses := #[] }

end Machine

/-- A sequence of calls to a machine. -/
abbrev Session (α : Type) := ExceptT MachineFault (StateM Machine) α

namespace Session

variable {α : Type}

/-! ## Calls to the processor -/

/-- Drive the processor on the board. A call that is not answered leaves the processor as it was. -/
def drive (call : Cpu → Board → Array Access → Attempt (α × Cpu)) : Session α := fun m =>
  match m with
  | ⟨cpu, board, picture, accesses⟩ =>
      match call cpu board accesses with
      | ⟨.ok (value, cpu), board, accesses⟩ => (.ok value, ⟨cpu, board, picture, accesses⟩)
      | ⟨.error fault, board, accesses⟩ =>
          (.error (.bus fault), ⟨cpu, board, picture, accesses⟩)

/-- Drive the processor by a call that returns nothing else. -/
def drive_ (call : Cpu → Board → Array Access → Attempt Cpu) : Session Unit :=
  drive fun cpu board accesses =>
    match call cpu board accesses with
    | ⟨result, board, accesses⟩ => ⟨result.map (Prod.mk ()), board, accesses⟩

/-- Advance by one cycle. -/
def clock : Session Unit := drive_ Cpu.clockOn

/-- Advance to the end of the instruction in progress and count the cycles. -/
def step : Session UInt32 := drive Cpu.stepOn

/-- Reset the processor. -/
def reset : Session Unit := drive_ Cpu.resetOn

/-- Request an interrupt. -/
def irq : Session Unit := drive_ Cpu.irqOn

/-- Signal a non-maskable interrupt. -/
def nmi : Session Unit := drive_ Cpu.nmiOn

/-- The state of the processor. -/
def cpu : Session Cpu := return (← get).cpu

/-- Change the state of the processor. -/
def setCpu (change : Cpu → Cpu) : Session Unit :=
  modify fun m => { m with cpu := change m.cpu }

/-- Make some clocks and see the state after each. -/
def clocks (count : Nat) : Session (Array Cpu) := do
  let mut states := #[]
  for _ in [0:count] do
    clock
    states := states.push (← cpu)
  return states

/-- Make some steps and see the cycles and the state after each. -/
def steps (count : Nat) : Session (Array (UInt32 × Cpu)) := do
  let mut states := #[]
  for _ in [0:count] do
    let cycles ← step
    states := states.push (cycles, ← cpu)
  return states

/-- Step until the program counter has a value, but at most `limit` times, and count the steps. -/
def stepUntil (pc : UInt16) (limit : Nat) : Session Nat := do
  let mut count := 0
  for _ in [0:limit] do
    if (← cpu).regs.pc == pc then break
    let _ ← step
    count := count + 1
  return count

/-! ## Memory -/

/-- Leave no record of the accesses of a session. -/
def quietly (session : Session α) : Session α := fun m =>
  let made := m.accesses
  let (result, m) := session m
  (result, { m with accesses := made })

/-- Run a session on the picture unit's bus instead of the processor's. -/
def onPicture (session : Session α) : Session α := fun m =>
  let (result, m) := session m.exchange
  (result, m.exchange)

/-- Read a byte. -/
def read (addr : UInt16) : Session UInt8 :=
  drive fun cpu board made => (return (← Program.readByte addr, cpu) : Program _).attempt made board

/-- Write a byte. -/
def write (addr : UInt16) (value : UInt8) : Session Unit :=
  drive fun cpu board made =>
    (return (← Program.writeByte addr value, cpu) : Program _).attempt made board

/-- Look at some bytes. -/
def look (addrs : List UInt16) : Session (List UInt8) := fun m =>
  match addrs.findSome? m.board.fault? with
  | some fault => (.error (.bus fault), m)
  | none => (.ok (addrs.map m.board.peek), m)

/-- Look at some bytes and record that. -/
def inspect (addrs : List UInt16) : Session (List UInt8) := do
  let values ← look addrs
  modify fun m => { m with
    accesses := m.accesses.appendList (List.zipWith Access.peek addrs values) }
  return values

/-- Some addresses from one on, which wrap at the top of memory. -/
def addressesFrom (addr : UInt16) (count : Nat) : List UInt16 :=
  (List.range count).map fun i => addr + UInt16.ofNat i

/-- Write some bytes without a record. -/
def poke (addr : UInt16) (values : List UInt8) : Session Unit :=
  quietly ((List.zip (addressesFrom addr values.length) values).forM fun (a, v) => write a v)

/-- Decode the instruction at an address. -/
def decode (addr : UInt16) : Session Decoded := do
  let d := decodeAt (← get).board.peek addr
  let _ ← inspect d.addresses
  return d

/-- Disassemble a range. -/
def disassembly (first last : UInt16) : Session (List Decoded) := do
  let found := disassemble (← get).board.peek first last
  let _ ← inspect (found.flatMap Decoded.addresses)
  return found

/-- The trace line of the processor. -/
def traceLine : Session TraceLine := do
  let c ← cpu
  let _ ← decode c.regs.pc
  return c.traceLine (← get).board.peek

/-! ## Wiring -/

/-- The memory bus that answers the processor, if there is one. -/
def bus? : Session (Option MemoryBus) := do
  match (← get).board.space with
  | .flat _ => return none
  | .mapped bus => return some bus

/-- Map a device, or do nothing on flat memory. The answer has the position of the device. -/
def mapDevice (built : Except WiringError Device) : Session Nat := fun m =>
  match built, m with
  | .error error, m => (.error (.wiring error), m)
  | .ok _, ⟨cpu, ⟨slot, .flat memory, events⟩, picture, accesses⟩ =>
      (.ok 0, ⟨cpu, ⟨slot, .flat memory, events⟩, picture, accesses⟩)
  | .ok d, ⟨cpu, ⟨slot, .mapped bus, events⟩, picture, accesses⟩ =>
      match bus.refusal? d with
      | some error =>
          (.error (.wiring error), ⟨cpu, ⟨slot, .mapped bus, events⟩, picture, accesses⟩)
      | none =>
          let events := events.appendList (bus.claimEvents d)
          let index := bus.devices.size
          (.ok index, ⟨cpu, ⟨slot, .mapped (bus.claim d), events⟩, picture, accesses⟩)

/-- Replace the address space. -/
def rewire (space : AddressSpace) (events : List Event) : Session Unit :=
  modify fun m => { m with board := { m.board with space }.note events }

end Session

end NesMachine
