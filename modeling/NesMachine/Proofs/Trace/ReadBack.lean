import NesMachine.Proofs.Trace.Log

/-!
# Which trace lines are read back

A line fits its columns if its instruction has at most three bytes and its assembly is ASCII text of
at most 31 characters without a colon and without white space at its ends (`TraceLine.Fits`). Every
line that fits is read back from its text with everything on it, whatever the registers and the
cycles, and the line of every processor fits (`trace_lines_read_back`).

One character more is too many: the assembly then fills its column to the last character, and the
key of the first register is no word of its own.
-/

set_option autoImplicit false

namespace NesMachine

open Text

/-- What is put into the columns of the bytes and the assembly stays within them. -/
structure TraceLine.Fits (t : TraceLine) : Prop where
  bytes_le : t.bytes.length ≤ 3
  ascii : ∀ c ∈ t.assembly.toList, IsAscii c
  no_colon : ':' ∉ t.assembly.toList
  first_not_blank : ∀ c, t.assembly.toList.head? = some c → isBlank c = false
  last_not_blank : ∀ c, t.assembly.toList.getLast? = some c → isBlank c = false
  length_le : t.assembly.toList.length ≤ 31

/-- The lines that fit are the printable ones. -/
theorem TraceLine.fits_iff_printable {t : TraceLine} : t.Fits ↔ t.Printable := by
  constructor
  · intro h
    have htrimmed := trim_eq_self_iff.2 ⟨h.first_not_blank, h.last_not_blank⟩
    exact ⟨h.bytes_le, h.ascii, h.no_colon, htrimmed, h.length_le⟩
  · intro h
    obtain ⟨hfirst, hlast⟩ := trim_eq_self_iff.1 h.trimmed
    exact ⟨h.bytes_le, h.ascii, h.no_colon, hfirst, hlast, h.length_le⟩

/-- Every line that fits its columns is read back from its text. The line of a processor fits,
whatever its state and its memory, so it is read back too. -/
theorem trace_lines_read_back :
    (∀ t : TraceLine, t.Fits → TraceLine.read? t.render = some t) ∧
      ∀ (c : Cpu) (memory : UInt16 → UInt8), (c.traceLine memory).Fits ∧
        TraceLine.read? (c.traceLine memory).render = some (c.traceLine memory) := by
  refine ⟨?_, ?_⟩
  · intro t h
    exact TraceLine.read?_render (TraceLine.fits_iff_printable.1 h)
  · intro c memory
    have hprintable := (c.plain_traceLine memory).toPrintable
    exact ⟨TraceLine.fits_iff_printable.2 hprintable, TraceLine.read?_render hprintable⟩

/-- The widest line: three bytes, a star before thirty characters, and the largest total of cycles.
-/
theorem trace_lines_read_back_widest :
    let t : TraceLine := ⟨0xFFFF, [0xE3, 0xFF, 0x00], "*ISC $FFFF = 00 @ 00FF = 0A B C", 0x0A, 0xFF,
      0x00, 0x6E, 0xFB, 0xFFFFFFFFFFFFFFFF⟩
    t.Fits ∧ t.assembly.toList.length = 31 ∧ TraceLine.read? t.render = some t := by
  intro t
  have hascii : t.assembly.toList.all (fun c => decide (IsAscii c)) = true := by decide +kernel
  have htrimmed : trim t.assembly.toList = t.assembly.toList := by decide +kernel
  have hlength : t.assembly.toList.length = 31 := by decide +kernel
  obtain ⟨hfirst, hlast⟩ := trim_eq_self_iff.1 htrimmed
  have hfits : t.Fits := by
    refine ⟨by decide, ?_, by decide +kernel, hfirst, hlast, Nat.le_of_eq hlength⟩
    intro c hc
    exact of_decide_eq_true (List.all_eq_true.1 hascii c hc)
  exact ⟨hfits, hlength, trace_lines_read_back.1 t hfits⟩

/-- With 32 characters and no star the assembly runs into the first key. -/
example : TraceLine.read? { TraceLine.blank with
    assembly := "LDA ($FF),Y = 00FF @ 0100 = 0A B" }.render = none := by
  decide +kernel

end NesMachine
