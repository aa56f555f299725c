import NesMachine.Cartridge.Basic
import NesMachine.Text.Hex
import NesMachine.Trace.Line

/-!
# Events

What a host may want to hear about while a machine is wired and runs. An event is data; its level
and its message are functions of it, so a host keeps the events of the levels that it wants.
-/

set_option autoImplicit false

namespace NesMachine

/-- How important an event is. -/
inductive Level where
  | warn | info | debug | trace
  deriving DecidableEq

namespace Level

/-- The position in the order from the most to the least important. -/
def rank : Level → Nat
  | .warn => 0
  | .info => 1
  | .debug => 2
  | .trace => 3

/-- The name of a level. -/
def name : Level → String
  | .warn => "WARN"
  | .info => "INFO"
  | .debug => "DEBUG"
  | .trace => "TRACE"

end Level

/-- Something that happened. -/
inductive Event where
  /-- An image has a trainer, which is passed over. -/
  | trainerSkipped (bytes : Nat)
  | cartridgeLoaded (header : Header)
  /-- Addresses of an earlier device went to a new one. -/
  | overridden (device : String) (first last : UInt16) (earlier : String) (low high : UInt16)
  | deviceMapped (device : String) (first last : UInt16)
  /-- Work RAM was mapped for a cartridge whose header does not ask for it. -/
  | workRamUnflagged
  | prgBankSelected (value bank : UInt8)
  | chrBankSelected (value bank : UInt8)
  | prgWriteIgnored (value : UInt8) (addr : UInt16)
  | chrWriteIgnored (offset : Nat)
  | irqIgnored (pc : UInt16)
  | irqTaken (pc : UInt16)
  | nmiTaken (pc : UInt16)
  | undocumentedOpcode (opcode : UInt8) (addr : UInt16)
  | traced (line : TraceLine)
  | referenceExhausted (instructions : Nat)
  | stopped (line : TraceLine)
  deriving DecidableEq

namespace Event

/-- The level of an event. -/
def level : Event → Level
  | .trainerSkipped _ | .overridden .. | .stopped _ => .warn
  | .cartridgeLoaded _ | .referenceExhausted _ => .info
  | .deviceMapped .. | .workRamUnflagged | .prgBankSelected .. | .chrBankSelected .. => .debug
  | .irqTaken _ | .nmiTaken _ => .debug
  | .prgWriteIgnored .. | .chrWriteIgnored _ | .irqIgnored _ | .undocumentedOpcode ..
  | .traced _ => .trace

/-- A byte with the mark for hexadecimal. -/
private def byteMarked (v : UInt8) : String :=
  "0x" ++ Text.Hex.byteText v

/-- An address with the mark for hexadecimal. -/
private def wordMarked (w : UInt16) : String :=
  "0x" ++ Text.Hex.wordText w

/-- A range of addresses. -/
private def range (first last : UInt16) : String :=
  wordMarked first ++ "-" ++ wordMarked last

/-- The summary of a cartridge. -/
private def summary (h : Header) : String :=
  "loaded " ++ h.mapper.name ++ " cartridge: " ++ h.prgBanks.toNat.repr ++ " PRG x16K, " ++
    h.chrBanks.toNat.repr ++ " CHR x8K" ++ (if h.chrIsRam then " (CHR-RAM)" else "") ++ ", " ++
    h.mirroring.name ++ " mirroring"

/-- The text of an event. -/
def message : Event → String
  | .trainerSkipped bytes => "iNES trainer present; skipping " ++ bytes.repr ++ " bytes"
  | .cartridgeLoaded header => summary header
  | .overridden device first last earlier low high =>
      device ++ " at " ++ range first last ++ " overrides " ++ earlier ++ " at " ++ range low high
  | .deviceMapped device first last => "mapped " ++ device ++ " at " ++ range first last
  | .workRamUnflagged => "cartridge has no extended RAM flag; mapping work RAM anyway"
  | .prgBankSelected value bank =>
      "UxROM bank select " ++ byteMarked value ++ " -> bank " ++ bank.toNat.repr
  | .chrBankSelected value bank =>
      "CNROM CHR bank select " ++ byteMarked value ++ " -> bank " ++ bank.toNat.repr
  | .prgWriteIgnored value addr =>
      "NROM ignores write " ++ byteMarked value ++ " to " ++ wordMarked addr
  | .chrWriteIgnored offset =>
      "ignored write to CHR-ROM offset 0x" ++ String.ofList (Text.Hex.atLeast 4 offset)
  | .irqIgnored pc => "irq ignored at pc=" ++ wordMarked pc ++ ": I set"
  | .irqTaken pc => "irq taken at pc=" ++ wordMarked pc
  | .nmiTaken pc => "nmi taken at pc=" ++ wordMarked pc
  | .undocumentedOpcode opcode addr =>
      "undocumented opcode " ++ byteMarked opcode ++ " at pc=" ++ wordMarked addr
  | .traced line => line.render
  | .referenceExhausted instructions =>
      "reference log exhausted after " ++ instructions.repr ++ " instructions"
  | .stopped line => "stopping at " ++ wordMarked line.pc ++ ": " ++ line.assembly

end Event

/-- The event of an interrupt request, which depends on whether requests are masked. -/
def Cpu.irqEvent (c : Cpu) : Event :=
  if c.regs.status.interruptDisable then .irqIgnored c.regs.pc else .irqTaken c.regs.pc

/-- The event of a non-maskable interrupt. -/
def Cpu.nmiEvent (c : Cpu) : Event :=
  .nmiTaken c.regs.pc

/-- The event of a clock that led from one state to another: the start of an opcode without an
assigned operation, which is one byte long. -/
def Cpu.clockEvent? (before after : Cpu) : Option Event :=
  if before.complete && (lookup after.opcode).op == .unassigned then
    some (.undocumentedOpcode after.opcode (after.regs.pc - 1))
  else none

end NesMachine
