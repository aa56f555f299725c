import NesMachine.Proofs.Trace.Verdict

/-!
# The end of a trace run without a reference log

Without a reference log only the limit and the test for progress end a trace run, so the run of an
accepted image always returns a count and never an error. The count is the first state that the run
stops at, or the limit (`TraceSettings.EndsAt`); there is exactly one such count
(`TraceSettings.exists_endsAt`, `TraceSettings.EndsAt.unique`), and it tells what the run returns and
which lines it writes (`TraceSettings.run_of_endsAt`).
-/

set_option autoImplicit false

namespace NesMachine.TraceSettings

variable {s : TraceSettings} {c : Cartridge} {image : Array UInt8} {n : Nat}

/-! ## Where a run ends -/

/-- Where a run ends that compares with no log: it stops at no instruction before, and at this one
unless the limit is reached. -/
structure EndsAt (s : TraceSettings) (c : Cartridge) (n : Nat) : Prop where
  le_instructions : n ≤ s.instructions
  progresses : ∀ j < n, ¬ s.JamsAt c j
  jams : n < s.instructions → s.JamsAt c n

/-- A run ends somewhere: at the first instruction that it stops at, or else at the limit. -/
theorem exists_endsAt (s : TraceSettings) (c : Cartridge) : ∃ n, s.EndsAt c n := by
  classical
  by_cases hstops : ∃ j, j < s.instructions ∧ s.JamsAt c j
  · obtain ⟨hlt, hjams⟩ := Nat.find_spec hstops
    refine ⟨Nat.find hstops, Nat.le_of_lt hlt, fun j hj hearlier => ?_, fun _ => hjams⟩
    exact Nat.find_min hstops hj ⟨Nat.lt_trans hj hlt, hearlier⟩
  · refine ⟨s.instructions, Nat.le_refl _, fun j hj hjams => hstops ⟨j, hj, hjams⟩, fun hlt => ?_⟩
    exact absurd hlt (Nat.lt_irrefl _)

/-- A run ends at one place only. -/
theorem EndsAt.unique {m : Nat} (hn : s.EndsAt c n) (hm : s.EndsAt c m) : n = m := by
  -- The earlier of two ends is below the limit, so the run stops there and does not get further.
  rcases Nat.lt_trichotomy n m with hlt | heq | hgt
  · exact absurd (hn.jams (Nat.lt_of_lt_of_le hlt hm.le_instructions)) (hm.progresses n hlt)
  · exact heq
  · exact absurd (hm.jams (Nat.lt_of_lt_of_le hgt hn.le_instructions)) (hn.progresses m hgt)

/-- A run that does not stop for want of progress ends at the limit. -/
theorem endsAt_instructions (h : s.stopOnJam = false) : s.EndsAt c s.instructions where
  le_instructions := Nat.le_refl _
  progresses := fun _ _ hjams => Bool.false_ne_true (h.symm.trans hjams.1)
  jams := fun hlt => absurd hlt (Nat.lt_irrefl _)

/-! ## What a run returns -/

theorem lt_logLength (h : s.reference = none) (i : Nat) : (i : ℕ∞) < s.logLength := by
  rw [logLength, h]
  exact ENat.natCast_lt_top i

/-- Without a log no line fails. -/
theorem not_failsAt (h : s.reference = none) (i : Nat) (error : TraceError) :
    ¬ s.FailsAt c i error := by
  intro hfails
  have hnone : s.logLine? i = none := by rw [logLine?, h, Option.bind_none]
  cases hfails with
  | unparsable hline _ => exact Option.some_ne_none _ (hline.symm.trans hnone)
  | diverged hline _ _ => exact Option.some_ne_none _ (hline.symm.trans hnone)

/-- Without a log a run returns where it ends. It has written a line for each instruction that it
executed, and one more if it did not reach the limit. -/
theorem run_of_endsAt (hc : Cartridge.ofImage image = .ok c) (hlog : s.reference = none)
    (h : s.EndsAt c n) :
    (s.run image).result = .ok n ∧
      (s.run image).lines.toList = (List.range (min (n + 1) s.instructions)).map (s.lineAt c) := by
  have hpasses : ∀ i < n, s.PassesAt c i := fun i hi =>
    ⟨lt_logLength hlog i, not_failsAt hlog i, h.progresses i hi⟩
  rcases Nat.lt_or_eq_of_le h.le_instructions with hlt | heq
  · obtain ⟨t, ht, hrun⟩ := run_of_passes hc hpasses h.le_instructions
    obtain ⟨limit, hlimit⟩ := Nat.exists_eq_add_of_lt hlt
    have hhere : s.instructions - n = limit + 1 := by omega
    rw [hrun, hhere, ht.run_of_jamsAt (lt_logLength hlog n) (not_failsAt hlog n) (h.jams hlt),
      Nat.min_eq_left hlt]
    exact ⟨rfl, ht.lines_write⟩
  · rw [heq, Nat.min_eq_right (Nat.le_succ _)]
    exact run_to_limit hc fun i hi => hpasses i (heq ▸ hi)

end NesMachine.TraceSettings
