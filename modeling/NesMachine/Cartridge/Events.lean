import NesMachine.Cartridge.Image
import NesMachine.Cartridge.Window
import NesMachine.Event

/-!
# Events of cartridges

Reading an image reports a trainer as soon as the header is accepted, and the cartridge once all of
it is read. A write to a window reports the bank it selects or that it is ignored.
-/

set_option autoImplicit false

namespace NesMachine.Cartridge

/-- The events of reading an image. -/
def imageEvents (image : Array UInt8) : List Event :=
  match Header.ofImage image with
  | .error _ => []
  | .ok header =>
      let skipped := if header.trainer then [Event.trainerSkipped trainerLength] else []
      match ofImage image with
      | .error _ => skipped
      | .ok _ => skipped ++ [.cartridgeLoaded header]

/-- The event of a write to the program window. -/
def prgWriteEvent (c : Cartridge) (addr : UInt16) (value : UInt8) : Event :=
  match c.bankSelected value, c.header.mapper with
  | some bank, .uxrom => .prgBankSelected value bank
  | some bank, _ => .chrBankSelected value bank
  | none, _ => .prgWriteIgnored value addr

/-- The event of a write to the pattern window. -/
def chrWriteEvent? (c : Cartridge) (addr : UInt16) : Option Event :=
  if c.header.chrIsRam then none else some (.chrWriteIgnored (c.chrOffset addr))

end NesMachine.Cartridge
