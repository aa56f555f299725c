import NesMachine.Cpu.Instruction

/-!
# The opcode table

Every opcode byte has an instruction, so decoding is total (`lookup`). The 105 opcodes without a
documented meaning do nothing but take time: those that processors of this family treat as a
no-operation with an operand keep its length, and the rest are one byte long.
-/

set_option autoImplicit false

namespace NesMachine

/-- A documented instruction. -/
private def known (op : Op) (mode : AddressingMode) (cycles : UInt8) : Instruction :=
  ⟨op, mode, cycles, true⟩

/-- An undocumented encoding of the operation that does nothing. -/
private def idle (mode : AddressingMode) (cycles : UInt8) : Instruction :=
  ⟨.nop, mode, cycles, false⟩

/-- An opcode without an assigned operation. -/
private def gap (cycles : UInt8) : Instruction :=
  ⟨.unassigned, .implied, cycles, false⟩

/-- The instructions in rows of sixteen: the row is the high digit of the opcode, the column its
low digit. -/
def opcodeTable : Vector (Vector Instruction 16) 16 :=
  #v[
    -- 0x
    #v[known .brk .immediate 7, known .ora .indexedIndirect 6, gap 2, gap 8, idle .zeroPage 3,
       known .ora .zeroPage 3, known .asl .zeroPage 5, gap 5, known .php .implied 3,
       known .ora .immediate 2, known .asl .implied 2, gap 2, idle .absolute 4,
       known .ora .absolute 4, known .asl .absolute 6, gap 6],
    -- 1x
    #v[known .bpl .relative 2, known .ora .indirectIndexed 5, gap 2, gap 8, idle .zeroPageX 4,
       known .ora .zeroPageX 4, known .asl .zeroPageX 6, gap 6, known .clc .implied 2,
       known .ora .absoluteY 4, idle .implied 2, gap 7, idle .absoluteX 4,
       known .ora .absoluteX 4, known .asl .absoluteX 7, gap 7],
    -- 2x
    #v[known .jsr .absolute 6, known .and .indexedIndirect 6, gap 2, gap 8,
       known .bit .zeroPage 3, known .and .zeroPage 3, known .rol .zeroPage 5, gap 5,
       known .plp .implied 4, known .and .immediate 2, known .rol .implied 2, gap 2,
       known .bit .absolute 4, known .and .absolute 4, known .rol .absolute 6, gap 6],
    -- 3x
    #v[known .bmi .relative 2, known .and .indirectIndexed 5, gap 2, gap 8, idle .zeroPageX 4,
       known .and .zeroPageX 4, known .rol .zeroPageX 6, gap 6, known .sec .implied 2,
       known .and .absoluteY 4, idle .implied 2, gap 7, idle .absoluteX 4,
       known .and .absoluteX 4, known .rol .absoluteX 7, gap 7],
    -- 4x
    #v[known .rti .implied 6, known .eor .indexedIndirect 6, gap 2, gap 8, idle .zeroPage 3,
       known .eor .zeroPage 3, known .lsr .zeroPage 5, gap 5, known .pha .implied 3,
       known .eor .immediate 2, known .lsr .implied 2, gap 2, known .jmp .absolute 3,
       known .eor .absolute 4, known .lsr .absolute 6, gap 6],
    -- 5x
    #v[known .bvc .relative 2, known .eor .indirectIndexed 5, gap 2, gap 8, idle .zeroPageX 4,
       known .eor .zeroPageX 4, known .lsr .zeroPageX 6, gap 6, known .cli .implied 2,
       known .eor .absoluteY 4, idle .implied 2, gap 7, idle .absoluteX 4,
       known .eor .absoluteX 4, known .lsr .absoluteX 7, gap 7],
    -- 6x
    #v[known .rts .implied 6, known .adc .indexedIndirect 6, gap 2, gap 8, idle .zeroPage 3,
       known .adc .zeroPage 3, known .ror .zeroPage 5, gap 5, known .pla .implied 4,
       known .adc .immediate 2, known .ror .implied 2, gap 2, known .jmp .indirect 5,
       known .adc .absolute 4, known .ror .absolute 6, gap 6],
    -- 7x
    #v[known .bvs .relative 2, known .adc .indirectIndexed 5, gap 2, gap 8, idle .zeroPageX 4,
       known .adc .zeroPageX 4, known .ror .zeroPageX 6, gap 6, known .sei .implied 2,
       known .adc .absoluteY 4, idle .implied 2, gap 7, idle .absoluteX 4,
       known .adc .absoluteX 4, known .ror .absoluteX 7, gap 7],
    -- 8x
    #v[idle .immediate 2, known .sta .indexedIndirect 6, idle .immediate 2, gap 6,
       known .sty .zeroPage 3, known .sta .zeroPage 3, known .stx .zeroPage 3, gap 3,
       known .dey .implied 2, idle .immediate 2, known .txa .implied 2, gap 2,
       known .sty .absolute 4, known .sta .absolute 4, known .stx .absolute 4, gap 4],
    -- 9x
    #v[known .bcc .relative 2, known .sta .indirectIndexed 6, gap 2, gap 6,
       known .sty .zeroPageX 4, known .sta .zeroPageX 4, known .stx .zeroPageY 4, gap 4,
       known .tya .implied 2, known .sta .absoluteY 5, known .txs .implied 2, gap 5, gap 5,
       known .sta .absoluteX 5, gap 5, gap 5],
    -- Ax
    #v[known .ldy .immediate 2, known .lda .indexedIndirect 6, known .ldx .immediate 2, gap 6,
       known .ldy .zeroPage 3, known .lda .zeroPage 3, known .ldx .zeroPage 3, gap 3,
       known .tay .implied 2, known .lda .immediate 2, known .tax .implied 2, gap 2,
       known .ldy .absolute 4, known .lda .absolute 4, known .ldx .absolute 4, gap 4],
    -- Bx
    #v[known .bcs .relative 2, known .lda .indirectIndexed 5, gap 2, gap 5,
       known .ldy .zeroPageX 4, known .lda .zeroPageX 4, known .ldx .zeroPageY 4, gap 4,
       known .clv .implied 2, known .lda .absoluteY 4, known .tsx .implied 2, gap 4,
       known .ldy .absoluteX 4, known .lda .absoluteX 4, known .ldx .absoluteY 4, gap 4],
    -- Cx
    #v[known .cpy .immediate 2, known .cmp .indexedIndirect 6, idle .immediate 2, gap 8,
       known .cpy .zeroPage 3, known .cmp .zeroPage 3, known .dec .zeroPage 5, gap 5,
       known .iny .implied 2, known .cmp .immediate 2, known .dex .implied 2, gap 2,
       known .cpy .absolute 4, known .cmp .absolute 4, known .dec .absolute 6, gap 6],
    -- Dx
    #v[known .bne .relative 2, known .cmp .indirectIndexed 5, gap 2, gap 8, idle .zeroPageX 4,
       known .cmp .zeroPageX 4, known .dec .zeroPageX 6, gap 6, known .cld .implied 2,
       known .cmp .absoluteY 4, idle .implied 2, gap 7, idle .absoluteX 4,
       known .cmp .absoluteX 4, known .dec .absoluteX 7, gap 7],
    -- Ex
    #v[known .cpx .immediate 2, known .sbc .indexedIndirect 6, idle .immediate 2, gap 8,
       known .cpx .zeroPage 3, known .sbc .zeroPage 3, known .inc .zeroPage 5, gap 5,
       known .inx .implied 2, known .sbc .immediate 2, known .nop .implied 2, gap 2,
       known .cpx .absolute 4, known .sbc .absolute 4, known .inc .absolute 6, gap 6],
    -- Fx
    #v[known .beq .relative 2, known .sbc .indirectIndexed 5, gap 2, gap 8, idle .zeroPageX 4,
       known .sbc .zeroPageX 4, known .inc .zeroPageX 6, gap 6, known .sed .implied 2,
       known .sbc .absoluteY 4, idle .implied 2, gap 7, idle .absoluteX 4,
       known .sbc .absoluteX 4, known .inc .absoluteX 7, gap 7]]

/-- The instruction that an opcode byte stands for. -/
def lookup (opcode : UInt8) : Instruction :=
  have _bound := opcode.toNat_lt
  opcodeTable[opcode.toNat / 16][opcode.toNat % 16]

/-- Every base cost is between two and eight cycles. -/
theorem two_le_cycles_lookup (opcode : UInt8) :
    2 ≤ (lookup opcode).cycles ∧ (lookup opcode).cycles ≤ 8 := by
  have all : ∀ i : Fin 256, 2 ≤ (lookup (UInt8.ofFin i)).cycles ∧
      (lookup (UInt8.ofFin i)).cycles ≤ 8 := by decide +kernel
  exact all opcode.toFin

end NesMachine
