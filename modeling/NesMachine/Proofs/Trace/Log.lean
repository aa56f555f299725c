import NesMachine.Proofs.Assembly
import NesMachine.Proofs.Text.Lines
import NesMachine.Proofs.Trace.RoundTrip
import NesMachine.Trace.Run

/-!
# Trace lines in a log

The line of a processor is plain, whatever the processor is about to execute
(`Cpu.plain_traceLine`): its assembly is printed characters and blanks. So it is printable, and a
text of such lines, used as a reference log, has just these lines
(`TraceOutcome.referenceLines_text`).
-/

set_option autoImplicit false

namespace NesMachine

open Text

/-! ## Plain lines -/

/-- A printable line whose assembly holds no white space but blanks. -/
structure TraceLine.Plain (t : TraceLine) : Prop extends t.Printable where
  plain : ∀ c ∈ t.assembly.toList, Visible c ∨ c = ' '

/-- The line of a processor is plain. -/
theorem Cpu.plain_traceLine (c : Cpu) (memory : UInt16 → UInt8) :
    (c.traceLine memory).Plain := by
  let d := decodeAt memory c.regs.pc
  have hassembly : (c.traceLine memory).assembly.toList = d.assemblyChars := String.toList_ofList
  refine ⟨⟨d.length_bytes_le, ?_, ?_, ?_, ?_⟩, ?_⟩ <;> rw [hassembly]
  · intro character hmem
    rcases Decoded.mem_assemblyChars hmem with hvisible | rfl
    · exact hvisible.ascii
    · decide
  · intro hcolon
    rcases Decoded.mem_assemblyChars hcolon with hvisible | hblank
    · exact hvisible.ne_colon rfl
    · exact absurd hblank (by decide)
  · exact d.trim_assemblyChars
  · exact Nat.le_trans d.length_assemblyChars_le (by decide)
  · exact fun character hmem => Decoded.mem_assemblyChars hmem

namespace TraceLine

variable {t : TraceLine}

/-- What stands on a plain line is visible, a blank or a colon. -/
theorem Plain.mem_chars (h : t.Plain) {c : Char} (hc : c ∈ t.chars) :
    Visible c ∨ c = ' ' ∨ c = ':' := by
  rcases TraceLine.mem_chars hc with hvisible | hblank | hcolon | hassembly
  · exact .inl hvisible
  · exact .inr (.inl hblank)
  · exact .inr (.inr hcolon)
  · rcases h.plain c hassembly with hvisible | hblank
    · exact .inl hvisible
    · exact .inr (.inl hblank)

theorem Plain.feed_notMem (h : t.Plain) : '\n' ∉ t.chars := by
  intro hc
  exact absurd (h.mem_chars hc) (by decide)

theorem Plain.getLast?_ne (h : t.Plain) : t.chars.getLast? ≠ some '\r' := by
  intro hc
  exact absurd (h.mem_chars (List.mem_of_getLast? hc)) (by decide)

theorem any_not_blank (t : TraceLine) : t.chars.any (!isBlank ·) = true :=
  List.any_eq_true.2 ⟨':', by simp [chars], rfl⟩

end TraceLine

/-! ## A text as a log -/

namespace TraceOutcome

/-- The text of some lines is the lines with a line feed behind each. -/
theorem toList_text (outcome : TraceOutcome) :
    outcome.text.toList = terminated (outcome.lines.toList.map TraceLine.chars) := by
  have hfold : ∀ (rows : List TraceLine) (written : String),
      (rows.foldl (fun text line => text ++ line.render ++ "\n") written).toList =
        written.toList ++ terminated (rows.map TraceLine.chars) := by
    intro rows
    induction rows with
    | nil => simp [terminated]
    | cons row rest ih =>
      intro written
      rw [List.foldl_cons, ih]
      simp [terminated, TraceLine.render]
  rw [text, ← Array.foldl_toList, hfold]
  rfl

/-- A text of plain lines, as a reference log, has these lines. -/
theorem referenceLines_text {outcome : TraceOutcome}
    (h : ∀ line ∈ outcome.lines.toList, line.Plain) :
    referenceLines outcome.text = outcome.lines.toList.map TraceLine.render := by
  have hlines : Text.lines outcome.text.toList = outcome.lines.toList.map TraceLine.chars := by
    rw [toList_text]
    apply lines_of_terminated
    · exact List.forall_mem_map.2 fun line hline => (h line hline).feed_notMem
    · exact List.forall_mem_map.2 fun line hline => (h line hline).getLast?_ne
  have hkept : (outcome.lines.toList.map TraceLine.chars).filter
      (fun line => line.any (!isBlank ·)) = outcome.lines.toList.map TraceLine.chars :=
    List.filter_eq_self.2 (List.forall_mem_map.2 fun line _ => line.any_not_blank)
  rw [referenceLines, hlines, hkept, List.map_map]
  rfl

end TraceOutcome

end NesMachine
