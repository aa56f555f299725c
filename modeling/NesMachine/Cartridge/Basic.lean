/-!
# Cartridges

A cartridge holds program memory (PRG) in banks of 16 KiB, pattern memory (CHR) in banks of 8 KiB,
and the one register of its board, which selects a bank. A board is one of three kinds; boards
without CHR banks carry 8 KiB of writable pattern memory instead.
-/

set_option autoImplicit false

namespace NesMachine

/-- How a board arranges the nametables. -/
inductive Mirroring where
  | horizontal | vertical
  deriving DecidableEq

/-- The name of an arrangement. -/
def Mirroring.name : Mirroring → String
  | .horizontal => "Horizontal"
  | .vertical => "Vertical"

/-- The supported kinds of board. -/
inductive Mapper where
  /-- No bank switching. -/
  | nrom
  /-- Switches the PRG bank in the lower half of the program window. -/
  | uxrom
  /-- Switches the CHR bank. -/
  | cnrom
  deriving DecidableEq

namespace Mapper

/-- The number of a kind of board in a cartridge image. -/
def id : Mapper → UInt8
  | .nrom => 0
  | .uxrom => 2
  | .cnrom => 3

/-- The kind of board with a number. -/
def ofId? (number : UInt8) : Option Mapper :=
  [nrom, uxrom, cnrom].find? fun mapper => mapper.id == number

/-- The name of a kind of board. -/
def name : Mapper → String
  | .nrom => "NROM"
  | .uxrom => "UxROM"
  | .cnrom => "CNROM"

/-- A number names at most one kind of board. -/
theorem ofId?_eq_some_iff {number : UInt8} {mapper : Mapper} :
    ofId? number = some mapper ↔ mapper.id = number := by
  constructor
  · intro h
    simpa using List.find?_some h
  · rintro rfl
    cases mapper <;> rfl

end Mapper

/-- The bytes in a PRG bank. -/
def prgBankSize : Nat := 0x4000

/-- The bytes in a CHR bank. -/
def chrBankSize : Nat := 0x2000

/-- What the header of a cartridge image says about the cartridge. -/
structure Header where
  prgBanks : UInt8
  /-- Zero when the pattern memory is writable. -/
  chrBanks : UInt8
  mirroring : Mirroring
  /-- Whether the board has work RAM. -/
  extendedRam : Bool
  /-- Whether the image has a section for a trainer. -/
  trainer : Bool
  mapper : Mapper
  deriving DecidableEq

/-- Whether the pattern memory is writable. -/
def Header.chrIsRam (h : Header) : Bool :=
  h.chrBanks == 0

/-- A cartridge. -/
structure Cartridge where
  header : Header
  prg : Array UInt8
  chr : Array UInt8
  /-- The bank register of the board. -/
  bankSelect : UInt8
  deriving DecidableEq

end NesMachine
