import NesMachine.Proofs.Trace.Progress

/-!
# A trace is its own reference

The text that a trace writes without a reference log is accepted as a reference log
(`TraceSettings.trace_accepts_itself`): the trace with it has the same result and writes the same
text. It rests on the round trip of each line (`TraceLine.read?_render`), on the lines of the text
(`TraceOutcome.referenceLines_text`) and on an induction over the run (`Tracer.run_own_log`).
-/

set_option autoImplicit false

namespace NesMachine.TraceSettings

/-- A trace that returns a number of instructions without a reference log returns the same number
and writes the same text with this text as its reference log. -/
theorem trace_accepts_itself (s : TraceSettings) (image : Array UInt8) (n : Nat)
    (hok : ((s.against none).run image).result = .ok n) :
    let alone := (s.against none).run image
    let again := (s.against (some alone.text)).run image
    again.result = .ok n ∧ again.text = alone.text ∧ again.events = alone.events := by
  intro alone again
  cases hc : Cartridge.ofImage image with
  | error error =>
    rw [run, hc] at hok
    cases hok
  | ok c =>
    let t := s.start c (Cartridge.imageEvents image)
    have ht : t.OnReference c := start_onReference hc s _
    have halone : alone = Tracer.run s.stopOnJam s.instructions (t.against none) :=
      run_against hc s _
    have hagain : again = Tracer.run s.stopOnJam s.instructions
        (t.against (some (referenceLines alone.text))) := run_against hc s _
    -- The text holds the lines of the run, and they are plain, so the log has them all.
    have hlines : alone.lines.toList = t.written s.stopOnJam s.instructions := by
      rw [halone, Tracer.lines_run ht]
      rfl
    have hlog : referenceLines alone.text =
        (t.written s.stopOnJam s.instructions).map TraceLine.render := by
      rw [TraceOutcome.referenceLines_text, hlines]
      rw [hlines]
      exact fun line hline => Tracer.plain_of_mem_written hline
    have hsame : again = alone := by
      rw [hagain, hlog, Tracer.run_own_log ht, halone]
    rw [hsame]
    exact ⟨hok, rfl, rfl⟩

/-- The standard trace of a bank of `NOP` instructions executes ten thousand of them and accepts
itself. -/
theorem trace_accepts_itself_standard :
    let image := Cartridge.headerBytes .nrom 1 0 ++ Array.replicate 0x4000 0xEA
    let alone := (standard.against none).run image
    let again := (standard.against (some alone.text)).run image
    alone.result = .ok 10000 ∧ again.result = .ok 10000 ∧ again.text = alone.text := by
  have hbody : (Array.replicate 0x4000 0xEA : Array UInt8).size =
      (1 : UInt8).toNat * prgBankSize + (0 : UInt8).toNat * chrBankSize := by
    simp [prgBankSize]
  obtain ⟨chr, himage⟩ := Cartridge.ofImage_of_body .nrom 1 0 (by decide) hbody
  have hjam : standard.stopOnJam = false := rfl
  have hok := result_run himage hjam
  obtain ⟨hresult, htext, -⟩ := trace_accepts_itself standard _ 10000 hok
  exact ⟨hok, hresult, htext⟩

end NesMachine.TraceSettings
