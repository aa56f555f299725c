import NesMachine.AddressTable
import NesMachine.Bus

/-!
# Flat memory

The simplest bus: one byte cell for each address. A read changes nothing, and a peek returns the
byte written last.
-/

set_option autoImplicit false

namespace NesMachine

/-- One byte for every address. -/
structure FlatMemory where
  cells : AddressTable UInt8

namespace FlatMemory

/-- Memory that holds zero everywhere. -/
def zero : FlatMemory :=
  ⟨.const 0⟩

/-- The byte at an address. -/
def peek (m : FlatMemory) (addr : UInt16) : UInt8 :=
  m.cells.get addr

/-- The memory with one byte replaced. -/
def write (m : FlatMemory) (addr : UInt16) (value : UInt8) : FlatMemory :=
  ⟨m.cells.set addr value⟩

instance : Bus FlatMemory where
  read m addr := (m.peek addr, m)
  write := write
  peek := peek

@[simp] theorem peek_zero (addr : UInt16) : zero.peek addr = 0 :=
  AddressTable.get_const 0 addr

theorem peek_write (m : FlatMemory) (addr seen : UInt16) (value : UInt8) :
    (m.write addr value).peek seen = if seen = addr then value else m.peek seen :=
  m.cells.get_set addr seen value

end FlatMemory

end NesMachine
