import NesMachine.MemoryBus

/-!
# Standard wiring

The processor's bus for a cartridge has memory or the cartridge at every address:

| addresses     | device                                     |
|---------------|--------------------------------------------|
| `0000`–`1FFF` | internal RAM, a page of 2 KiB four times   |
| `2000`–`3FFF` | the picture unit's eight registers as RAM  |
| `4000`–`5FFF` | input and output as RAM                    |
| `6000`–`7FFF` | work RAM                                   |
| `8000`–`FFFF` | the program window of the cartridge          |

The picture unit's bus has the pattern window at `0000`–`1FFF` and nametable memory, a page of 2 KiB
four times, at `2000`–`3FFF`.
-/

set_option autoImplicit false

namespace NesMachine

namespace Wiring

/-- The devices of the processor's bus below the work RAM. -/
def lowerDevices : List Device :=
  [.mirrored "internal ram" 0x0000 0x0800 4,
    .mirrored "ppu registers" 0x2000 8 1024,
    .memory "io" 0x4000 0x5FFF]

/-- The devices of the processor's bus from the work RAM on. -/
def upperDevices (c : Cartridge) : List Device :=
  [.memory "work ram" 0x6000 0x7FFF, .prgWindow c.header.mapper]

/-- The devices of the picture unit's bus. -/
def pictureDevices (c : Cartridge) : List Device :=
  [.chrWindow c.header.mapper, .mirrored "nametables" 0x2000 0x0800 4]

/-- The processor's bus for a cartridge. -/
def referenceBus (c : Cartridge) : MemoryBus :=
  (lowerDevices ++ upperDevices c).foldl MemoryBus.claim .empty

/-- The picture unit's bus for a cartridge. -/
def pictureBus (c : Cartridge) : MemoryBus :=
  (pictureDevices c).foldl MemoryBus.claim .empty

/-- The events of wiring the processor's bus. No two of its devices share an address. -/
def referenceEvents (c : Cartridge) : List Event :=
  lowerDevices.map MemoryBus.mappedEvent ++
    (if c.header.extendedRam then [] else [.workRamUnflagged]) ++
    (upperDevices c).map MemoryBus.mappedEvent

/-- The events of wiring the picture unit's bus. No two of its devices share an address. -/
def pictureEvents (c : Cartridge) : List Event :=
  (pictureDevices c).map MemoryBus.mappedEvent

end Wiring

end NesMachine
