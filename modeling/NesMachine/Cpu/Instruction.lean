/-!
# Instructions

An instruction pairs an operation with an addressing mode and a base cost in cycles. The operation
says what is done to the operand, the addressing mode where the operand is and how many bytes it
takes in the code. The mnemonic is a function of the operation, with a mark on the encodings that
the manufacturer did not document.
-/

set_option autoImplicit false

namespace NesMachine

/-- Where an instruction finds its operand. `implied` includes the forms of shifts and rotations
that work on A. -/
inductive AddressingMode where
  | implied | immediate | zeroPage | zeroPageX | zeroPageY | relative
  | absolute | absoluteX | absoluteY | indirect | indexedIndirect | indirectIndexed
  deriving DecidableEq

namespace AddressingMode

/-- The three letters that name a mode in a disassembly. -/
def tag : AddressingMode → String
  | .implied => "IMP"
  | .immediate => "IMM"
  | .zeroPage => "ZP0"
  | .zeroPageX => "ZPX"
  | .zeroPageY => "ZPY"
  | .relative => "REL"
  | .absolute => "ABS"
  | .absoluteX => "ABX"
  | .absoluteY => "ABY"
  | .indirect => "IND"
  | .indexedIndirect => "IZX"
  | .indirectIndexed => "IZY"

/-- The number of operand bytes after the opcode. -/
def operandLength : AddressingMode → Nat
  | .implied => 0
  | .immediate | .zeroPage | .zeroPageX | .zeroPageY | .relative => 1
  | .indexedIndirect | .indirectIndexed => 1
  | .absolute | .absoluteX | .absoluteY | .indirect => 2

end AddressingMode

/-- The documented operations, and `unassigned` for the opcodes that only take their time. -/
inductive Op where
  | adc | and | asl | bcc | bcs | beq | bit | bmi | bne | bpl | brk | bvc | bvs | clc | cld | cli
  | clv | cmp | cpx | cpy | dec | dex | dey | eor | inc | inx | iny | jmp | jsr | lda | ldx | ldy
  | lsr | nop | ora | pha | php | pla | plp | rol | ror | rti | rts | sbc | sec | sed | sei | sta
  | stx | sty | tax | tay | tsx | txa | txs | tya | unassigned
  deriving DecidableEq

namespace Op

/-- The assembler's name of an operation. -/
def mnemonic : Op → String
  | .adc => "ADC"
  | .and => "AND"
  | .asl => "ASL"
  | .bcc => "BCC"
  | .bcs => "BCS"
  | .beq => "BEQ"
  | .bit => "BIT"
  | .bmi => "BMI"
  | .bne => "BNE"
  | .bpl => "BPL"
  | .brk => "BRK"
  | .bvc => "BVC"
  | .bvs => "BVS"
  | .clc => "CLC"
  | .cld => "CLD"
  | .cli => "CLI"
  | .clv => "CLV"
  | .cmp => "CMP"
  | .cpx => "CPX"
  | .cpy => "CPY"
  | .dec => "DEC"
  | .dex => "DEX"
  | .dey => "DEY"
  | .eor => "EOR"
  | .inc => "INC"
  | .inx => "INX"
  | .iny => "INY"
  | .jmp => "JMP"
  | .jsr => "JSR"
  | .lda => "LDA"
  | .ldx => "LDX"
  | .ldy => "LDY"
  | .lsr => "LSR"
  | .nop => "NOP"
  | .ora => "ORA"
  | .pha => "PHA"
  | .php => "PHP"
  | .pla => "PLA"
  | .plp => "PLP"
  | .rol => "ROL"
  | .ror => "ROR"
  | .rti => "RTI"
  | .rts => "RTS"
  | .sbc => "SBC"
  | .sec => "SEC"
  | .sed => "SED"
  | .sei => "SEI"
  | .sta => "STA"
  | .stx => "STX"
  | .sty => "STY"
  | .tax => "TAX"
  | .tay => "TAY"
  | .tsx => "TSX"
  | .txa => "TXA"
  | .txs => "TXS"
  | .tya => "TYA"
  | .unassigned => "???"

/-- Whether an operation takes one more cycle when indexing moves its operand to another page.
Those that only read do; the base cost of the others covers the worst case. -/
def paysPageCross : Op → Bool
  | .adc | .sbc | .and | .ora | .eor | .cmp | .lda | .ldx | .ldy | .nop => true
  | _ => false

end Op

/-- One row of the opcode table. -/
structure Instruction where
  op : Op
  mode : AddressingMode
  /-- The cost before the penalties for taken branches and crossed pages. -/
  cycles : UInt8
  documented : Bool
  deriving DecidableEq

namespace Instruction

/-- The name shown in a disassembly: an undocumented encoding of a known operation is starred. -/
def mnemonic (i : Instruction) : String :=
  if i.documented || i.op == .unassigned then i.op.mnemonic else "*" ++ i.op.mnemonic

/-- The number of bytes an instruction takes in the code, opcode included. -/
def size (i : Instruction) : Nat :=
  1 + i.mode.operandLength

theorem size_pos (i : Instruction) : 0 < i.size :=
  Nat.lt_of_lt_of_le Nat.one_pos (Nat.le_add_right 1 _)

end Instruction

end NesMachine
