import NesMachine.Machine
import NesMachine.Main
import NesMachine.Proofs.Program
import NesMachine.Proofs.Cpu.Boundary
import NesMachine.Proofs.Bus.History
import NesMachine.Proofs.Bus.Storage
import NesMachine.Proofs.Cpu.Control
import NesMachine.Proofs.Text.Numeral
import NesMachine.Proofs.Bus.Ownership
import NesMachine.Proofs.Cartridge.Accepted
import NesMachine.Proofs.Bus.Recall
import NesMachine.Proofs.Wiring.Layout
import NesMachine.Proofs.Cartridge.Banks
import NesMachine.Proofs.Wiring.Reference
import NesMachine.Proofs.Wiring.Workbench
import NesMachine.Proofs.Cpu.Decoding
import NesMachine.Proofs.Assembly
import NesMachine.Proofs.Text.Lines
import NesMachine.Proofs.Text.Words
import NesMachine.Proofs.Trace.RoundTrip
import NesMachine.Proofs.Trace.Log
import NesMachine.Proofs.Trace.Progress
import NesMachine.Proofs.Trace.SelfReference
import NesMachine.Proofs.Cpu.Clocks
import NesMachine.Proofs.Cpu.Cost
import NesMachine.Proofs.Agreement
import NesMachine.Proofs.Cpu.Calls
import NesMachine.Proofs.Cpu.Hidden
import NesMachine.Proofs.Trace.States
import NesMachine.Proofs.Trace.Verdict
import NesMachine.Proofs.Cpu.Accesses
import NesMachine.Proofs.Guarded.Checks
import NesMachine.Proofs.Guarded.Storage
import NesMachine.Proofs.Guarded.Wiring
import NesMachine.Proofs.Guarded.Processor
import NesMachine.Proofs.Guarded.Reading
import NesMachine.Proofs.Guarded.Trace
import NesMachine.Proofs.Bus.Routing
import NesMachine.Proofs.Cartridge.Format
import NesMachine.Proofs.Cpu.Frames
import NesMachine.Proofs.Cpu.Stack
import NesMachine.Proofs.Cpu.StatusMarks
import NesMachine.Proofs.Cpu.InterruptReturn
import NesMachine.Proofs.Trace.ReadBack
import NesMachine.Proofs.Wiring.Folded
import NesMachine.Proofs.ByteNumber
import NesMachine.Proofs.Cpu.Cells
import NesMachine.Proofs.Cpu.Decimal
import NesMachine.Proofs.Cpu.MultiByte
import NesMachine.Proofs.Trace.StatusColumn
import NesMachine.Proofs.Trace.Entries
import NesMachine.Proofs.ByteBits
import NesMachine.Proofs.Cpu.MultiByteShift
import NesMachine.Proofs.Cpu.Effects
import NesMachine.Proofs.Cpu.InterruptTiming
import NesMachine.Proofs.Cpu.Masking
import NesMachine.Proofs.Disassembly.Tiling
import NesMachine.Proofs.Disassembly.Unambiguous
import NesMachine.Proofs.Trace.Ending
import NesMachine.Proofs.Trace.CycleBase
import NesMachine.Proofs.Trace.SelfJump
import NesMachine.Proofs.Bus.Mirroring
import NesMachine.Proofs.Bus.Overrides
import NesMachine.Proofs.Text.AddressForm
import NesMachine.Proofs.CommandLine.Items
import NesMachine.Proofs.CommandLine.Options
