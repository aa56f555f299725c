import NesMachine.Bus.Flat
import NesMachine.MemoryBus

/-!
# Boards

A board is what the processor sees through its pins: flat memory, or a memory bus with the cartridge
in its slot. It is a bus, so programs run on it. It also collects the events of the writes that it
takes, and tells which accesses nothing answers: `Program.attempt` stops before the first of these,
and otherwise ends as `Program.run` does.
-/

set_option autoImplicit false

namespace NesMachine

/-- What answers the processor. -/
inductive AddressSpace where
  | flat (memory : FlatMemory)
  | mapped (bus : MemoryBus)

/-- An address space, the cartridge in the slot, and the events so far. -/
structure Board where
  slot : Slot
  space : AddressSpace
  events : Array Event

namespace Board

/-- A board on which nothing has happened. -/
def ofSpace (slot : Slot) (space : AddressSpace) : Board :=
  ⟨slot, space, #[]⟩

/-- Add events. -/
def note (b : Board) (events : List Event) : Board :=
  { b with events := b.events.appendList events }

/-- Why an access to an address is not answered, if it is not. -/
def fault? (b : Board) (addr : UInt16) : Option BusFault :=
  match b.space with
  | .flat _ => none
  | .mapped bus => bus.fault? b.slot addr

/-- The byte that a read would return. -/
def peek (b : Board) (addr : UInt16) : UInt8 :=
  match b.space with
  | .flat memory => memory.peek addr
  | .mapped bus => bus.peek b.slot addr

/-- The byte that a read returns, and the board after it. -/
def read (b : Board) (addr : UInt16) : UInt8 × Board :=
  let value := b.peek addr
  match b with
  | ⟨slot, .flat memory, events⟩ => (value, ⟨slot, .flat memory, events⟩)
  | ⟨slot, .mapped bus, events⟩ => (value, ⟨slot, .mapped (bus.afterRead addr), events⟩)

/-- The board after a write. -/
def write (b : Board) (addr : UInt16) (value : UInt8) : Board :=
  match b with
  | ⟨slot, .flat memory, events⟩ => ⟨slot, .flat (memory.write addr value), events⟩
  | ⟨slot, .mapped bus, events⟩ =>
      let events := events.appendList (bus.writeEvent? slot addr value).toList
      let slot := bus.writeSlot addr value slot
      ⟨slot, .mapped (bus.write addr value), events⟩

instance : Bus Board where
  read := read
  write := write
  peek := peek

end Board

/-- The end of a program on a board: its result, or the access that was not answered; the board; and
the accesses that were answered. -/
structure Attempt (α : Type) where
  result : Except BusFault α
  board : Board
  accesses : Array Access

/-- Run a program on a board up to the first access that nothing answers, after the accesses in
`made`. -/
def Program.attempt {α : Type} (made : Array Access) : Program α → Board → Attempt α
  | .done a, board => ⟨.ok a, board, made⟩
  | .read addr next, board =>
      match board.fault? addr with
      | some fault => ⟨.error fault, board, made⟩
      | none =>
          let (value, board) := board.read addr
          (next value).attempt (made.push (.read addr value)) board
  | .write addr value next, board =>
      match board.fault? addr with
      | some fault => ⟨.error fault, board, made⟩
      | none => next.attempt (made.push (.write addr value)) (board.write addr value)

end NesMachine
