import Mathlib.Data.List.Basic
import NesMachine.Disassembly
import NesMachine.Proofs.Text.Columns
import NesMachine.Proofs.Text.Words

/-!
# The characters of an assembly text

The assembly of a decoded instruction is a mnemonic of visible characters, and for most instructions
a blank and an operand of visible characters (`Decoded.assemblyChars_shape`). So it has at most
thirteen characters, holds no white space but blanks and has none at its ends
(`Decoded.trim_assemblyChars`).
-/

set_option autoImplicit false

namespace NesMachine

open Text

/-- An assembler's name is three visible characters. -/
theorem Op.mnemonic_shape (op : Op) :
    op.mnemonic.toList.length = 3 ∧ ∀ c ∈ op.mnemonic.toList, Visible c := by
  cases op <;> exact ⟨by decide, visible_of_all (by decide)⟩

/-- A mnemonic is three or four visible characters. -/
theorem Instruction.mnemonic_shape (i : Instruction) :
    3 ≤ i.mnemonic.toList.length ∧ i.mnemonic.toList.length ≤ 4 ∧
      ∀ c ∈ i.mnemonic.toList, Visible c := by
  obtain ⟨hlength, hvisible⟩ := i.op.mnemonic_shape
  rw [mnemonic]
  split
  · exact ⟨by omega, by omega, hvisible⟩
  · have hchars : ("*" ++ i.op.mnemonic).toList = '*' :: i.op.mnemonic.toList :=
      String.toList_append
    rw [hchars, List.length_cons, hlength]
    refine ⟨by decide, by decide, fun c hc => ?_⟩
    rcases List.mem_cons.1 hc with rfl | hname
    · decide
    · exact hvisible c hname

namespace Decoded

/-- An operand is at most eight visible characters. -/
theorem operandChars_shape (d : Decoded) :
    d.operandChars.length ≤ 8 ∧ ∀ c ∈ d.operandChars, Visible c := by
  have hdigits := visible_fixed
  have hmarks : ∀ c ∈ ['$', '#', '(', ')', ',', 'X', 'Y'], Visible c :=
    visible_of_all (by decide)
  unfold operandChars Hex.byte Hex.ofWord
  cases d.instruction.mode <;>
    simp only [List.length_cons, List.length_append, List.length_nil, Hex.length_fixed] <;>
    exact ⟨by decide, by grind⟩

/-- The assembly is a mnemonic, or a mnemonic, a blank and an operand, of visible characters. -/
theorem assemblyChars_shape (d : Decoded) :
    ∃ name operand : List Char, name ≠ [] ∧ (∀ c ∈ name ++ operand, Visible c) ∧
      name.length + operand.length ≤ 12 ∧
      (d.assemblyChars = name ∨ operand ≠ [] ∧ d.assemblyChars = name ++ ' ' :: operand) := by
  obtain ⟨hlow, hhigh, hname⟩ := d.instruction.mnemonic_shape
  obtain ⟨hlength, hoperand⟩ := d.operandChars_shape
  refine ⟨d.instruction.mnemonic.toList, d.operandChars, ?_, ?_, by omega, ?_⟩
  · exact List.length_pos_iff.1 (by omega)
  · exact List.forall_mem_append.2 ⟨hname, hoperand⟩
  · rw [assemblyChars]
    cases d.operandChars with
    | nil => exact .inl rfl
    | cons first rest => exact .inr ⟨List.cons_ne_nil first rest, rfl⟩

/-- What stands in the assembly is visible or a blank. -/
theorem mem_assemblyChars {d : Decoded} {c : Char} (hc : c ∈ d.assemblyChars) :
    Visible c ∨ c = ' ' := by
  obtain ⟨name, operand, -, hvisible, -, hshort | ⟨-, hlong⟩⟩ := d.assemblyChars_shape
  · rw [hshort] at hc
    exact .inl (hvisible c (List.mem_append_left operand hc))
  · rw [hlong] at hc
    rcases List.mem_append.1 hc with hname | htail
    · exact .inl (hvisible c (List.mem_append_left operand hname))
    · rcases List.mem_cons.1 htail with hblank | hoperand
      · exact .inr hblank
      · exact .inl (hvisible c (List.mem_append_right name hoperand))

theorem length_assemblyChars_le (d : Decoded) : d.assemblyChars.length ≤ 13 := by
  obtain ⟨name, operand, -, -, hlength, hshort | ⟨-, hlong⟩⟩ := d.assemblyChars_shape
  · rw [hshort]
    omega
  · rw [hlong, List.length_append, List.length_cons]
    omega

/-- The assembly has no white space at its ends. -/
theorem trim_assemblyChars (d : Decoded) : trim d.assemblyChars = d.assemblyChars := by
  obtain ⟨name, operand, hname, hvisible, -, htext⟩ := d.assemblyChars_shape
  have hfirst : ∀ c, name.head? = some c → isBlank c = false := fun c hc =>
    (hvisible c (List.mem_append_left operand (List.mem_of_head? hc))).not_blank
  rcases htext with hshort | ⟨hoperand, hlong⟩
  · rw [hshort]
    exact trim_of_ends hfirst fun c hc =>
      (hvisible c (List.mem_append_left operand (List.mem_of_getLast? hc))).not_blank
  · rw [hlong]
    apply trim_of_ends
    · rw [List.head?_append_of_ne_nil name hname]
      exact hfirst
    · rw [List.getLast?_append_cons, List.getLast?_cons_of_ne_nil hoperand]
      exact fun c hc =>
        (hvisible c (List.mem_append_right name (List.mem_of_getLast? hc))).not_blank

theorem length_bytes_le (d : Decoded) : d.bytes.length ≤ 3 := by
  rw [bytes]
  split <;> simp

end Decoded

end NesMachine
