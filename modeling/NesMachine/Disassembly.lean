import NesMachine.Cpu.OpcodeTable
import NesMachine.Text.Hex

/-!
# Disassembly

An instruction is decoded from a view of memory, a function from addresses to bytes, so decoding
disturbs nothing. Its text is the mnemonic and the operand in assembler syntax, in which a branch
shows its target. A range is disassembled one instruction after the other; the last one may reach
past the end of the range, and nothing is decoded past the top of memory.
-/

set_option autoImplicit false

namespace NesMachine

/-- An instruction as it lies in memory. -/
structure Decoded where
  addr : UInt16
  opcode : UInt8
  /-- The operand bytes as a word, zero where there are none. -/
  operand : UInt16
  deriving DecidableEq

namespace Decoded

/-- The row of the opcode table. -/
def instruction (d : Decoded) : Instruction :=
  lookup d.opcode

/-- The number of bytes. -/
def size (d : Decoded) : Nat :=
  d.instruction.size

/-- The addresses of the bytes, which wrap at the top of memory. -/
def addresses (d : Decoded) : List UInt16 :=
  (List.range d.size).map fun i => d.addr + UInt16.ofNat i

/-- The bytes in the order in which they lie in memory. -/
def bytes (d : Decoded) : List UInt8 :=
  match d.instruction.mode.operandLength with
  | 0 => [d.opcode]
  | 1 => [d.opcode, lowByte d.operand]
  | _ => [d.opcode, lowByte d.operand, highByte d.operand]

/-- Where a branch goes: the distance counts from the next instruction. -/
def branchTarget (d : Decoded) : UInt16 :=
  d.addr + 2 + signExtend (lowByte d.operand)

/-- The operand in assembler syntax. -/
def operandChars (d : Decoded) : List Char :=
  let cell := '$' :: Text.Hex.byte (lowByte d.operand)
  let whole := '$' :: Text.Hex.ofWord d.operand
  match d.instruction.mode with
  | .implied => []
  | .immediate => '#' :: cell
  | .zeroPage => cell
  | .zeroPageX => cell ++ [',', 'X']
  | .zeroPageY => cell ++ [',', 'Y']
  | .indexedIndirect => '(' :: cell ++ [',', 'X', ')']
  | .indirectIndexed => '(' :: cell ++ [')', ',', 'Y']
  | .absolute => whole
  | .absoluteX => whole ++ [',', 'X']
  | .absoluteY => whole ++ [',', 'Y']
  | .indirect => '(' :: whole ++ [')']
  | .relative => '$' :: Text.Hex.ofWord d.branchTarget

/-- The operand in assembler syntax, as text. -/
def operandText (d : Decoded) : String :=
  String.ofList d.operandChars

/-- The mnemonic, and the operand if there is one. -/
def assemblyChars (d : Decoded) : List Char :=
  match d.operandChars with
  | [] => d.instruction.mnemonic.toList
  | operand => d.instruction.mnemonic.toList ++ ' ' :: operand

/-- The mnemonic, and the operand if there is one, as text. -/
def assembly (d : Decoded) : String :=
  String.ofList d.assemblyChars

/-- The line of a disassembly: address, assembly and the tag of the mode. -/
def listing (d : Decoded) : String :=
  "$" ++ Text.Hex.wordText d.addr ++ ": " ++ d.assembly ++ " \x7b" ++ d.instruction.mode.tag ++ "\x7d"

theorem size_pos (d : Decoded) : 0 < d.size :=
  d.instruction.size_pos

end Decoded

/-- Decode the instruction at an address. -/
def decodeAt (memory : UInt16 → UInt8) (addr : UInt16) : Decoded :=
  let opcode := memory addr
  let operand :=
    match (lookup opcode).mode.operandLength with
    | 0 => 0
    | 1 => word (memory (addr + 1)) 0
    | _ => word (memory (addr + 1)) (memory (addr + 2))
  ⟨addr, opcode, operand⟩

/-- Add to `found` the instructions from an address on that start at or before `last`. The address
is a number and not a word, so it passes the top of memory instead of wrapping. -/
def disassembleFrom (memory : UInt16 → UInt8) (last addr : Nat) (found : Array Decoded) :
    Array Decoded :=
  if addr ≤ last then
    let d := decodeAt memory (UInt16.ofNat addr)
    disassembleFrom memory last (addr + d.size) (found.push d)
  else found
termination_by last + 1 - addr
decreasing_by
  have hsize := (decodeAt memory (UInt16.ofNat addr)).size_pos
  omega

/-- The instructions of a range with both ends included, in the order of their addresses. -/
def disassemble (memory : UInt16 → UInt8) (first last : UInt16) : List Decoded :=
  (disassembleFrom memory last.toNat first.toNat #[]).toList

end NesMachine
