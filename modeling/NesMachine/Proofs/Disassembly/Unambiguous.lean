import Mathlib.Data.List.Nodup
import NesMachine.Proofs.Assembly
import NesMachine.Proofs.Cpu.Decoding

/-!
# The text of a documented instruction is unambiguous

At one address, documented instructions with equal assembly are the same bytes
(`assembly_determines_bytes`). The mnemonic of a documented instruction is three letters, so the text
falls into mnemonic and operand. With its digits hidden an operand shows its form, which depends on
the addressing mode alone (`Decoded.operandChars_hidden`), and no two documented rows of the opcode
table have one mnemonic and one form (`documented_inj`): branches show an address as the absolute
mode does, but no operation has both modes. The digits are then those of the operand, or of the
target of a branch, which tells the distance (`Decoded.operand_inj`).
-/

set_option autoImplicit false

namespace NesMachine

open Text

/-! ## Digits -/

namespace Text.Hex

theorem byte_inj {v w : UInt8} (h : byte v = byte w) : v = w := by
  have hread := readNumeral_byte v
  rw [h, readNumeral_byte] at hread
  exact UInt8.toNat_inj.1 (Except.ok.inj hread).symm

theorem ofWord_inj {v w : UInt16} (h : ofWord v = ofWord w) : v = w := by
  have hread := readNumeral_ofWord v
  rw [h, readNumeral_ofWord] at hread
  exact UInt16.toNat_inj.1 (Except.ok.inj hread).symm

/-- A character with a zero in the place of a digit. -/
def hidden (c : Char) : Char :=
  if (digitValue? 16 c).isSome then '0' else c

theorem map_hidden_fixed (width n : Nat) :
    (fixed width n).map hidden = List.replicate width '0' := by
  induction width generalizing n with
  | zero => rfl
  | succ width ih =>
    have hdigit : hidden (digit (n % 16)) = '0' := by
      rw [hidden, digitValue?_hexDigit (Nat.mod_lt n (by decide))]
      rfl
    rw [fixed, List.map_append, ih, List.map_singleton, hdigit, List.replicate_succ']

end Text.Hex

/-! ## Forms of operands -/

namespace AddressingMode

/-- How an operand of an addressing mode is written, with zeros for its digits. A branch shows its
target. -/
def form : AddressingMode → List Char
  | .implied => []
  | .immediate => ['#', '$', '0', '0']
  | .zeroPage => ['$', '0', '0']
  | .zeroPageX => ['$', '0', '0', ',', 'X']
  | .zeroPageY => ['$', '0', '0', ',', 'Y']
  | .indexedIndirect => ['(', '$', '0', '0', ',', 'X', ')']
  | .indirectIndexed => ['(', '$', '0', '0', ')', ',', 'Y']
  | .absolute | .relative => ['$', '0', '0', '0', '0']
  | .absoluteX => ['$', '0', '0', '0', '0', ',', 'X']
  | .absoluteY => ['$', '0', '0', '0', '0', ',', 'Y']
  | .indirect => ['(', '$', '0', '0', '0', '0', ')']

/-- The addressing mode that the form of an operand shows: a branch looks absolute. -/
def shown : AddressingMode → AddressingMode
  | .relative => .absolute
  | mode => mode

/-- The form of an operand tells which mode it shows. -/
theorem shown_eq_of_form_eq {mode other : AddressingMode} (h : mode.form = other.form) :
    mode.shown = other.shown := by
  cases mode <;> cases other <;> first
    | rfl
    | exact absurd h (by decide)

end AddressingMode

/-- With its digits hidden an operand shows the form of its mode. -/
theorem Decoded.operandChars_hidden (d : Decoded) :
    d.operandChars.map Hex.hidden = d.instruction.mode.form := by
  unfold operandChars Hex.byte Hex.ofWord
  cases d.instruction.mode <;>
    simp only [List.map_cons, List.map_append, List.map_nil, Hex.map_hidden_fixed] <;>
    decide

/-! ## Documented rows of the table -/

/-- The opcodes of the documented instructions. -/
def documentedOpcodes : List UInt8 :=
  ((List.range 256).map UInt8.ofNat).filter fun opcode => (lookup opcode).documented

theorem mem_documentedOpcodes {opcode : UInt8} (h : (lookup opcode).documented = true) :
    opcode ∈ documentedOpcodes := by
  refine List.mem_filter.2 ⟨List.mem_map.2 ⟨opcode.toNat, ?_, UInt8.ofNat_toNat⟩, h⟩
  exact List.mem_range.2 opcode.toNat_lt

/-- No two documented rows show one mode and have one mnemonic. -/
theorem documented_inj {opcode other : UInt8} (hopcode : (lookup opcode).documented = true)
    (hother : (lookup other).documented = true)
    (hmode : (lookup opcode).mode.shown = (lookup other).mode.shown)
    (hname : (lookup opcode).mnemonic.toList = (lookup other).mnemonic.toList) :
    opcode = other := by
  have hnodup : (documentedOpcodes.map fun opcode =>
      ((lookup opcode).mode.shown, (lookup opcode).mnemonic.toList)).Nodup := by decide +kernel
  exact List.inj_on_of_nodup_map hnodup (mem_documentedOpcodes hopcode)
    (mem_documentedOpcodes hother) (Prod.ext hmode hname)

namespace Decoded

variable {d e : Decoded}

/-- The mnemonic of a documented instruction is that of its operation, three letters. -/
theorem length_mnemonic (h : d.instruction.documented = true) :
    d.instruction.mnemonic.toList.length = 3 := by
  rw [Instruction.mnemonic, h]
  exact d.instruction.op.mnemonic_shape.1

/-- What stands behind the mnemonic: nothing, or a blank and the operand. -/
def behindMnemonic : List Char → List Char
  | [] => []
  | operand => ' ' :: operand

theorem behindMnemonic_inj {operand other : List Char}
    (h : behindMnemonic operand = behindMnemonic other) : operand = other := by
  cases operand with
  | nil =>
    cases other with
    | nil => rfl
    | cons first rest => cases h
  | cons first rest =>
    cases other with
    | nil => cases h
    | cons second more => exact (List.cons.inj h).2

theorem assemblyChars_eq (d : Decoded) :
    d.assemblyChars = d.instruction.mnemonic.toList ++ behindMnemonic d.operandChars := by
  rw [assemblyChars]
  cases d.operandChars with
  | nil => exact (List.append_nil _).symm
  | cons first rest => rfl

/-- Documented instructions with one text have one mnemonic and one text of the operand. -/
theorem parts_of_assemblyChars_eq (hd : d.instruction.documented = true)
    (he : e.instruction.documented = true) (h : d.assemblyChars = e.assemblyChars) :
    d.instruction.mnemonic.toList = e.instruction.mnemonic.toList ∧
      d.operandChars = e.operandChars := by
  rw [assemblyChars_eq, assemblyChars_eq] at h
  have hlength := (length_mnemonic hd).trans (length_mnemonic he).symm
  obtain ⟨hname, hbehind⟩ := List.append_inj h hlength
  exact ⟨hname, behindMnemonic_inj hbehind⟩

/-- Documented instructions with one text have one opcode. -/
theorem opcode_eq_of_assemblyChars_eq (hd : d.instruction.documented = true)
    (he : e.instruction.documented = true) (h : d.assemblyChars = e.assemblyChars) :
    d.opcode = e.opcode := by
  obtain ⟨hname, hoperand⟩ := parts_of_assemblyChars_eq hd he h
  have hform : d.instruction.mode.form = e.instruction.mode.form := by
    rw [← d.operandChars_hidden, hoperand, e.operandChars_hidden]
  exact documented_inj hd he (AddressingMode.shown_eq_of_form_eq hform) hname

/-! ## Operands -/

/-- At one address branches with one target have one distance. -/
theorem distance_inj (haddr : d.addr = e.addr) (h : d.branchTarget = e.branchTarget) :
    lowByte d.operand = lowByte e.operand := by
  rw [branchTarget, branchTarget, haddr] at h
  have hextended := (UInt16.add_right_inj _).1 h
  rw [← lowByte_word (lowByte d.operand), ← lowByte_word (lowByte e.operand)]
  exact congrArg lowByte hextended

/-- Within one mode the text of an operand and the address tell the operand bytes. -/
theorem operand_inj {mode : AddressingMode} (hd : d.instruction.mode = mode)
    (he : e.instruction.mode = mode) (haddr : d.addr = e.addr)
    (h : d.operandChars = e.operandChars) :
    (mode.operandLength = 1 → lowByte d.operand = lowByte e.operand) ∧
      (mode.operandLength = 2 → d.operand = e.operand) := by
  unfold operandChars at h
  rw [hd, he] at h
  cases mode with
  | implied => exact ⟨nofun, nofun⟩
  | relative =>
    have htarget := Hex.ofWord_inj (List.cons.inj h).2
    exact ⟨fun _ => distance_inj haddr htarget, nofun⟩
  | immediate | zeroPage | zeroPageX | zeroPageY | indexedIndirect | indirectIndexed =>
    simp only [List.cons_append, List.cons.injEq, List.append_left_inj, true_and] at h
    exact ⟨fun _ => Hex.byte_inj h, nofun⟩
  | absolute | absoluteX | absoluteY | indirect =>
    simp only [List.cons_append, List.cons.injEq, List.append_left_inj, true_and] at h
    exact ⟨nofun, fun _ => Hex.ofWord_inj h⟩

/-- At one address instructions with one opcode and one text of the operand have the same bytes. -/
theorem bytes_inj (haddr : d.addr = e.addr) (hopcode : d.opcode = e.opcode)
    (h : d.operandChars = e.operandChars) : d.bytes = e.bytes := by
  have hinstruction : d.instruction = e.instruction := congrArg lookup hopcode
  obtain ⟨hbyte, hword⟩ := operand_inj rfl (congrArg Instruction.mode hinstruction.symm) haddr h
  rw [bytes, bytes, hopcode, ← hinstruction]
  rcases operandLength_cases d.instruction.mode with hlength | hlength | hlength
  · rw [hlength]
    rfl
  · rw [hlength, hbyte hlength]
    rfl
  · rw [hlength, hword hlength]

end Decoded

/-! ## What the text tells -/

/-- The operand of a decoded instruction is the word that its bytes behind the opcode make. -/
theorem operand_decodeAt (memory : UInt16 → UInt8) (addr : UInt16) :
    (decodeAt memory addr).operand =
      word ((decodeAt memory addr).bytes.getD 1 0) ((decodeAt memory addr).bytes.getD 2 0) := by
  have hinstruction : (decodeAt memory addr).instruction = lookup (memory addr) := rfl
  rw [Decoded.bytes, hinstruction]
  rcases operandLength_cases (lookup (memory addr)).mode with hnone | hbyte | hword
  · rw [hnone]
    simp only [decodeAt, hnone]
    rfl
  · rw [hbyte]
    simp only [decodeAt, hbyte, lowByte_word]
    rfl
  · rw [hword]
    simp only [decodeAt, hword]
    exact (word_lowByte_highByte _).symm

/-- At one address the bytes of a decoded instruction tell all of it. -/
theorem decodeAt_eq_of_bytes_eq {memory other : UInt16 → UInt8} {addr : UInt16}
    (h : (decodeAt memory addr).bytes = (decodeAt other addr).bytes) :
    decodeAt memory addr = decodeAt other addr := by
  have hhead : ∀ d : Decoded, d.bytes.head? = some d.opcode := by
    intro d
    rw [Decoded.bytes]
    split <;> rfl
  have hopcode : (decodeAt memory addr).opcode = (decodeAt other addr).opcode := by
    apply Option.some.inj
    rw [← hhead, ← hhead, h]
  have hoperand : (decodeAt memory addr).operand = (decodeAt other addr).operand := by
    rw [operand_decodeAt, operand_decodeAt, h]
  show Decoded.mk addr (decodeAt memory addr).opcode (decodeAt memory addr).operand =
    Decoded.mk addr (decodeAt other addr).opcode (decodeAt other addr).operand
  rw [hopcode, hoperand]

/-- At one address and in any two memories, documented instructions have one text exactly if they
have the same bytes, and then they have one opcode and one operand. -/
theorem assembly_determines_bytes (addr : UInt16) (memory other : UInt16 → UInt8)
    (hd : (decodeAt memory addr).instruction.documented = true)
    (he : (decodeAt other addr).instruction.documented = true) :
    let d := decodeAt memory addr
    let e := decodeAt other addr
    (d.assembly = e.assembly ↔ d.bytes = e.bytes) ∧
      (d.assembly = e.assembly → d.opcode = e.opcode ∧ d.operand = e.operand) := by
  intro d e
  have hbytes : d.assembly = e.assembly → d.bytes = e.bytes := by
    intro h
    have hchars : d.assemblyChars = e.assemblyChars := String.ofList_injective h
    have hopcode := Decoded.opcode_eq_of_assemblyChars_eq hd he hchars
    exact Decoded.bytes_inj rfl hopcode (Decoded.parts_of_assemblyChars_eq hd he hchars).2
  have hall : d.bytes = e.bytes → d = e := decodeAt_eq_of_bytes_eq
  refine ⟨⟨hbytes, fun h => ?_⟩, fun h => ?_⟩
  · rw [hall h]
  · rw [hall (hbytes h)]
    exact ⟨rfl, rfl⟩

/-- A branch to itself at the top of memory is told by its text, in two memories that differ
elsewhere. -/
theorem assembly_determines_bytes_branch :
    let memory : UInt16 → UInt8 := fun addr => if addr = 0xFFFF then 0xD0 else 0xFE
    let other : UInt16 → UInt8 := fun addr => if addr = 0xFFFF then 0xD0 else
      if addr = 0 then 0xFE else 7
    (decodeAt memory 0xFFFF).instruction.documented = true ∧
      (decodeAt other 0xFFFF).instruction.documented = true ∧
      (decodeAt memory 0xFFFF).assembly = "BNE $FFFF" ∧
      (decodeAt other 0xFFFF).assembly = "BNE $FFFF" ∧
      (decodeAt memory 0xFFFF).bytes = (decodeAt other 0xFFFF).bytes := by
  intro memory other
  have hd : (decodeAt memory 0xFFFF).instruction.documented = true := by decide +kernel
  have he : (decodeAt other 0xFFFF).instruction.documented = true := by decide +kernel
  have htext : (decodeAt memory 0xFFFF).assembly = "BNE $FFFF" := by decide +kernel
  have hother : (decodeAt other 0xFFFF).assembly = "BNE $FFFF" := by decide +kernel
  have hbytes := (assembly_determines_bytes 0xFFFF memory other hd he).1
  exact ⟨hd, he, htext, hother, hbytes.1 (htext.trans hother.symm)⟩

end NesMachine
