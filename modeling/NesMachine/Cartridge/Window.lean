import NesMachine.Cartridge.Basic

/-!
# The two windows of a cartridge

A cartridge answers the processor through its program window and the picture unit through its
pattern window. Both see the same bank register: on a UxROM board it selects the program bank in
the lower half of the program window, with the last bank fixed in the upper half; on a CNROM board
it selects the pattern bank. The register is set by a write to the program window and holds the
value modulo the number of banks.

Reading is total: outside the stored bytes it gives zero. `prgInRange` and `chrInRange` tell whether
an address is answered from stored bytes.
-/

set_option autoImplicit false

namespace NesMachine.Cartridge

/-- The number of PRG banks. -/
def prgBanks (c : Cartridge) : Nat :=
  c.header.prgBanks.toNat

/-- The number of pattern banks to choose from; writable pattern memory is one bank. -/
def chrChoices (c : Cartridge) : Nat :=
  max c.header.chrBanks.toNat 1

/-! ## The program window -/

/-- Where the program byte for an address is stored. Without switching, a single bank appears in
both halves of the program window. -/
def prgOffset (c : Cartridge) (addr : UInt16) : Nat :=
  match c.header.mapper with
  | .uxrom =>
      let bank := if addr < 0xC000 then c.bankSelect.toNat % c.prgBanks else c.prgBanks - 1
      bank * prgBankSize + addr.toNat % prgBankSize
  | .nrom | .cnrom => addr.toNat % (if 1 < c.prgBanks then 2 * prgBankSize else prgBankSize)

/-- Whether the program byte for an address exists. -/
def prgInRange (c : Cartridge) (addr : UInt16) : Bool :=
  decide (0 < c.prgBanks) && decide (c.prgOffset addr < c.prg.size)

/-- The program byte for an address. -/
def peekPrg (c : Cartridge) (addr : UInt16) : UInt8 :=
  c.prg.getD (c.prgOffset addr) 0

/-- The bank that a write to the program window selects, if the board has a register. -/
def bankSelected (c : Cartridge) (value : UInt8) : Option UInt8 :=
  match c.header.mapper with
  | .nrom => none
  | .uxrom => some (UInt8.ofNat (value.toNat % c.prgBanks))
  | .cnrom => some (UInt8.ofNat (value.toNat % c.chrChoices))

/-- The cartridge after a write to the program window. -/
def writePrg (c : Cartridge) (value : UInt8) : Cartridge :=
  { c with bankSelect := (c.bankSelected value).getD c.bankSelect }

/-! ## The pattern window -/

/-- Where the pattern byte for an address is stored. -/
def chrOffset (c : Cartridge) (addr : UInt16) : Nat :=
  let within := addr.toNat % chrBankSize
  match c.header.mapper with
  | .nrom | .uxrom => within
  | .cnrom => c.bankSelect.toNat % c.chrChoices * chrBankSize + within

/-- Whether the pattern byte for an address exists. -/
def chrInRange (c : Cartridge) (addr : UInt16) : Bool :=
  decide (c.chrOffset addr < c.chr.size)

/-- The pattern byte for an address. -/
def peekChr (c : Cartridge) (addr : UInt16) : UInt8 :=
  c.chr.getD (c.chrOffset addr) 0

/-- The cartridge after a write to the pattern window, which only writable memory takes. -/
def writeChr (c : Cartridge) (addr : UInt16) (value : UInt8) : Cartridge :=
  if c.header.chrIsRam then
    { c with chr := c.chr.setIfInBounds (c.chrOffset addr) value }
  else c

end NesMachine.Cartridge
