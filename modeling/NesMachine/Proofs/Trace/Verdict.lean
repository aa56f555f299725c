import Mathlib.Data.ENat.Lattice
import NesMachine.Proofs.Trace.States

/-!
# The verdict of a trace run

A trace run has four ways to end: the number of instructions that it was given, the end of the
reference log, a line that is unparsable or differs, and an instruction that makes no progress. Which
of them ends it depends on where each comes first in the sequence of states, and the tests of one
instruction have an order: log, line, progress. A run gets past each instruction that none of them
ends (`TraceSettings.run_of_passes`), so the least indices decide what it returns and which lines
it has written (`TraceSettings.trace_verdict`).
-/

set_option autoImplicit false

namespace NesMachine

/-! ## Least indices -/

/-- The least index with a property, infinite if there is none. -/
noncomputable def leastIndex (P : Nat → Prop) : ℕ∞ :=
  ⨅ (i : Nat) (_ : P i), (i : ℕ∞)

theorem leastIndex_le {P : Nat → Prop} {i : Nat} (h : P i) : leastIndex P ≤ i :=
  iInf₂_le i h

/-- A finite least index has the property. -/
theorem of_leastIndex_eq {P : Nat → Prop} {m : Nat} (h : leastIndex P = m) : P m := by
  by_contra hm
  -- Without `m` every index with the property is past it, and then so is the least one.
  have hpast : ((m : ℕ∞) + 1) ≤ leastIndex P := by
    refine le_iInf₂ fun i hi => ?_
    have hle : (m : ℕ∞) ≤ i := h ▸ leastIndex_le hi
    have hne : m ≠ i := fun heq => hm (heq ▸ hi)
    exact_mod_cast Nat.lt_of_le_of_ne (Nat.cast_le.1 hle) hne
  rw [h, ENat.natCast_add_one_le_iff] at hpast
  exact lt_irrefl _ hpast

theorem not_of_lt_leastIndex {P : Nat → Prop} {i : Nat} (h : (i : ℕ∞) < leastIndex P) : ¬ P i :=
  fun hi => not_le.2 h (leastIndex_le hi)

/-! ## What ends a run -/

/-- Two lines differ in the program counter, a register or the cycles. -/
def TraceLine.Differs (t u : TraceLine) : Prop :=
  t.pc ≠ u.pc ∨ t.a ≠ u.a ∨ t.x ≠ u.x ∨ t.y ≠ u.y ∨ t.p ≠ u.p ∨ t.sp ≠ u.sp ∨ t.cycles ≠ u.cycles

/-- The comparison of states tells whether lines differ. -/
theorem TraceLine.sameState_eq_false_iff (t u : TraceLine) :
    t.sameState u = false ↔ t.Differs u := by
  simp only [sameState, Differs, Bool.and_eq_false_iff, beq_eq_false_iff_ne, or_assoc]

namespace TraceSettings

variable (s : TraceSettings) (c : Cartridge)

/-- What a run compares with after some instructions, if there is a log. -/
def logFrom (i : Nat) : Option (List String) :=
  s.reference.map fun log => (referenceLines log).drop i

/-- A line of the reference log. -/
def logLine? (i : Nat) : Option String :=
  s.reference.bind fun log => (referenceLines log)[i]?

/-- The number of lines of the reference log, infinite without one. -/
def logLength : ℕ∞ :=
  s.reference.elim ⊤ fun log => (referenceLines log).length

/-- A line of the log is unparsable, or the state after as many steps has another program counter,
register or total of cycles. -/
inductive FailsAt (i : Nat) : TraceError → Prop
  | unparsable {expected : String} (hline : s.logLine? i = some expected)
      (hread : TraceLine.read? expected = none) : FailsAt i (.unparsable expected)
  | diverged {expected : String} {parsed : TraceLine} (hline : s.logLine? i = some expected)
      (hread : TraceLine.read? expected = some parsed)
      (hdiffers : (s.lineAt c i).Differs parsed) :
      FailsAt i (.diverged i expected (s.lineAt c i))

/-- The run is to stop where no progress is made, and the state after some steps is about to execute
an opcode without an assigned operation or a jump to itself. -/
def JamsAt (i : Nat) : Prop :=
  let cpu := (s.stateAt c i).1
  let next := decodeAt (Bus.peek (s.stateAt c i).2) cpu.regs.pc
  s.stopOnJam = true ∧ (next.instruction.op = .unassigned ∨
    next.instruction.op = .jmp ∧ next.instruction.mode = .absolute ∧ next.operand = cpu.regs.pc)

/-- Nothing ends a run at the state after some steps. -/
structure PassesAt (i : Nat) : Prop where
  inLog : (i : ℕ∞) < s.logLength
  agrees : ∀ error, ¬ s.FailsAt c i error
  progresses : ¬ s.JamsAt c i

variable {s : TraceSettings} {c : Cartridge} {i : Nat}

/-! ## Comparing one line -/

/-- Where a line fails, the comparison says how. -/
theorem compareLine_of_failsAt {error : TraceError} (h : s.FailsAt c i error) :
    compareLine i (s.lineAt c i) (s.logFrom i) = .fails error := by
  have hlog : ∀ {expected}, s.logLine? i = some expected →
      ∃ rest, s.logFrom i = some (expected :: rest) := by
    intro expected hline
    obtain ⟨log, hlog, hexpected⟩ := Option.bind_eq_some_iff.1 hline
    rw [logFrom, hlog, Option.map_some, List.drop_eq_getElem?_toList_append, hexpected]
    exact ⟨_, rfl⟩
  cases h with
  | unparsable hline hread =>
    obtain ⟨rest, hrest⟩ := hlog hline
    rw [hrest, compareLine, hread]
  | diverged hline hread hdiffers =>
    obtain ⟨rest, hrest⟩ := hlog hline
    rw [hrest, compareLine, hread]
    dsimp only
    rw [(TraceLine.sameState_eq_false_iff _ _).2 hdiffers]
    rfl

/-- Behind the last line of the log the comparison says so. -/
theorem compareLine_of_exhausted (h : s.logLength = i) (line : TraceLine) :
    compareLine i line (s.logFrom i) = .exhausted := by
  rw [logLength] at h
  cases hlog : s.reference with
  | none =>
    rw [hlog] at h
    exact absurd h (ENat.top_ne_natCast i)
  | some log =>
    rw [hlog] at h
    have hlength : (referenceLines log).length = i := Nat.cast_inj.1 h
    rw [logFrom, hlog, Option.map_some, List.drop_of_length_le (Nat.le_of_eq hlength)]
    rfl

/-- Elsewhere the line agrees, and the comparison leaves the log behind it. -/
theorem compareLine_of_agrees (hlog : (i : ℕ∞) < s.logLength)
    (h : ∀ error, ¬ s.FailsAt c i error) :
    compareLine i (s.lineAt c i) (s.logFrom i) = .agrees (s.logFrom (i + 1)) := by
  cases href : s.reference with
  | none =>
    rw [logFrom, logFrom, href]
    rfl
  | some log =>
    rw [logLength, href] at hlog
    have hlt : i < (referenceLines log).length := Nat.cast_lt.1 hlog
    have hline : s.logLine? i = some (referenceLines log)[i] := by
      rw [logLine?, href]
      exact List.getElem?_eq_getElem hlt
    rw [logFrom, logFrom, href, Option.map_some, Option.map_some, List.drop_eq_getElem_cons hlt,
      compareLine]
    cases hread : TraceLine.read? (referenceLines log)[i] with
    | none => exact absurd (.unparsable hline hread) (h _)
    | some parsed =>
      dsimp only
      cases hsame : (s.lineAt c i).sameState parsed with
      | true => rfl
      | false =>
        have hdiffers := (TraceLine.sameState_eq_false_iff _ _).1 hsame
        exact absurd (.diverged hline hread hdiffers) (h _)

end TraceSettings

/-! ## One instruction of a run -/

namespace Tracer

open TraceSettings

variable {s : TraceSettings} {c : Cartridge} {i : Nat} {t : Tracer}

theorem At.stops_iff (h : t.At s c i) : t.stops s.stopOnJam = true ↔ s.JamsAt c i := by
  rw [stops, h.cpu_eq, h.sameWiring.peek_eq, Cpu.jammed, JamsAt]
  simp only [Bool.and_eq_true, Bool.or_eq_true, beq_iff_eq, and_assoc]
  rfl

theorem At.run_of_failsAt (h : t.At s c i) {error : TraceError} (hfails : s.FailsAt c i error)
    (limit : Nat) : run s.stopOnJam (limit + 1) (t.against (s.logFrom i)) =
      (t.write t.line).finish [] (.error error) := by
  rw [run_succ h.onReference, h.executed_eq, h.line_eq, compareLine_of_failsAt hfails]

theorem At.run_of_exhausted (h : t.At s c i) (hlog : s.logLength = i) (limit : Nat) :
    run s.stopOnJam (limit + 1) (t.against (s.logFrom i)) =
      (t.write t.line).finish [.referenceExhausted i] (.ok i) := by
  rw [run_succ h.onReference, h.executed_eq, compareLine_of_exhausted hlog]

theorem At.run_of_jamsAt (h : t.At s c i) (hlog : (i : ℕ∞) < s.logLength)
    (hagrees : ∀ error, ¬ s.FailsAt c i error) (hjams : s.JamsAt c i) (limit : Nat) :
    run s.stopOnJam (limit + 1) (t.against (s.logFrom i)) =
      (t.write t.line).finish [.stopped t.line] (.ok i) := by
  rw [run_succ h.onReference, h.executed_eq, h.line_eq, compareLine_of_agrees hlog hagrees]
  exact if_pos (h.stops_iff.2 hjams)

theorem At.run_of_passesAt (h : t.At s c i) (hpasses : s.PassesAt c i) (limit : Nat) :
    run s.stopOnJam (limit + 1) (t.against (s.logFrom i)) =
      run s.stopOnJam limit (t.advance.against (s.logFrom (i + 1))) := by
  rw [run_succ h.onReference, h.executed_eq, h.line_eq,
    compareLine_of_agrees hpasses.inLog hpasses.agrees]
  exact if_neg fun hstops => hpasses.progresses (h.stops_iff.1 hstops)

end Tracer

/-! ## The whole run -/

namespace TraceSettings

variable {s : TraceSettings} {c : Cartridge} {image : Array UInt8}

/-- A run gets to an instruction if nothing ends it before. -/
theorem run_of_passes (hc : Cartridge.ofImage image = .ok c) {n : Nat}
    (hpasses : ∀ i < n, s.PassesAt c i) (hn : n ≤ s.instructions) :
    ∃ t : Tracer, t.At s c n ∧
      s.run image = Tracer.run s.stopOnJam (s.instructions - n) (t.against (s.logFrom n)) := by
  induction n with
  | zero => exact ⟨_, .start hc s _, run_against hc s s.reference⟩
  | succ n ih =>
    obtain ⟨t, ht, hrun⟩ := ih (fun i hi => hpasses i (Nat.lt_succ_of_lt hi)) (Nat.le_of_succ_le hn)
    obtain ⟨limit, hlimit⟩ := Nat.exists_eq_add_of_le' hn
    refine ⟨t.advance, ht.advance, ?_⟩
    have hhere : s.instructions - n = limit + 1 := by omega
    have hnext : s.instructions - (n + 1) = limit := by omega
    rw [hrun, hhere, ht.run_of_passesAt (hpasses n (Nat.lt_succ_self n)), hnext]

/-- A line that fails is a line of the log. -/
theorem FailsAt.lt_logLength {i : Nat} {error : TraceError} (h : s.FailsAt c i error) :
    (i : ℕ∞) < s.logLength := by
  have hsome : ∃ expected, s.logLine? i = some expected := by
    cases h with
    | unparsable hline hread => exact ⟨_, hline⟩
    | diverged hline hread hdiffers => exact ⟨_, hline⟩
  obtain ⟨expected, hline⟩ := hsome
  obtain ⟨log, hlog, hexpected⟩ := Option.bind_eq_some_iff.1 hline
  obtain ⟨hlt, -⟩ := List.getElem?_eq_some_iff.1 hexpected
  rw [logLength, hlog]
  exact Nat.cast_lt.2 hlt

/-- The first line of the log that fails. -/
noncomputable def firstFailure (s : TraceSettings) (c : Cartridge) : ℕ∞ :=
  leastIndex fun i => ∃ error, s.FailsAt c i error

/-- The first state without progress. -/
noncomputable def firstJam (s : TraceSettings) (c : Cartridge) : ℕ∞ :=
  leastIndex (s.JamsAt c)

/-- Within the log and before the first failure and the first jam nothing ends a run. -/
theorem passesAt_of_lt {i : Nat} (hlog : (i : ℕ∞) < s.logLength)
    (hfails : (i : ℕ∞) < s.firstFailure c) (hjams : (i : ℕ∞) < s.firstJam c) :
    s.PassesAt c i where
  inLog := hlog
  agrees := fun error herror => not_of_lt_leastIndex hfails ⟨error, herror⟩
  progresses := not_of_lt_leastIndex hjams

/-- A run fails at the first line that fails if it gets there. -/
theorem run_to_failure (hc : Cartridge.ofImage image = .ok c) {m : Nat}
    (hm : s.firstFailure c = m) (hlimit : m < s.instructions) (hjam : (m : ℕ∞) ≤ s.firstJam c) :
    (∃ error, (s.run image).result = .error error ∧ s.FailsAt c m error) ∧
      (s.run image).lines.toList = (List.range (m + 1)).map (s.lineAt c) := by
  obtain ⟨error, herror⟩ := of_leastIndex_eq hm
  have hpasses : ∀ i < m, s.PassesAt c i := by
    intro i hi
    have him : (i : ℕ∞) < m := Nat.cast_lt.2 hi
    exact passesAt_of_lt (him.trans herror.lt_logLength) (him.trans_eq hm.symm)
      (him.trans_le hjam)
  obtain ⟨t, ht, hrun⟩ := run_of_passes hc hpasses (Nat.le_of_lt hlimit)
  obtain ⟨limit, hrest⟩ := Nat.exists_eq_add_of_lt hlimit
  have hhere : s.instructions - m = limit + 1 := by omega
  rw [hrun, hhere, ht.run_of_failsAt herror]
  exact ⟨⟨error, rfl, herror⟩, ht.lines_write⟩

/-- A run that nothing ends before executes all its instructions. -/
theorem run_to_limit (hc : Cartridge.ofImage image = .ok c)
    (hpasses : ∀ i < s.instructions, s.PassesAt c i) :
    (s.run image).result = .ok s.instructions ∧
      (s.run image).lines.toList = (List.range s.instructions).map (s.lineAt c) := by
  obtain ⟨t, ht, hrun⟩ := run_of_passes hc hpasses (Nat.le_refl _)
  rw [hrun, Nat.sub_self]
  exact ⟨congrArg Except.ok ht.executed_eq, ht.lines_eq⟩

/-- A run ends at the first jam or behind the log if it gets there. It has written the line of the
instruction that it does not execute. -/
theorem run_to_end (hc : Cartridge.ofImage image = .ok c) {m : Nat}
    (hm : min s.logLength (s.firstJam c) = m) (hlimit : m < s.instructions)
    (hpasses : ∀ i < m, s.PassesAt c i) (hagrees : ∀ error, ¬ s.FailsAt c m error) :
    (s.run image).result = .ok m ∧
      (s.run image).lines.toList = (List.range (m + 1)).map (s.lineAt c) := by
  obtain ⟨t, ht, hrun⟩ := run_of_passes hc hpasses (Nat.le_of_lt hlimit)
  obtain ⟨limit, hrest⟩ := Nat.exists_eq_add_of_lt hlimit
  have hhere : s.instructions - m = limit + 1 := by omega
  rw [hrun, hhere]
  -- The log is looked at first, so its end decides where both come together.
  rcases eq_or_ne s.logLength m with hlog | hlog
  · rw [ht.run_of_exhausted hlog]
    exact ⟨rfl, ht.lines_write⟩
  · have hwithin : (m : ℕ∞) < s.logLength := lt_of_le_of_ne (hm ▸ min_le_left _ _) hlog.symm
    have hjam : s.firstJam c = m := by
      rcases min_choice s.logLength (s.firstJam c) with hmin | hmin
      · exact absurd (hmin.symm.trans hm) hlog
      · exact hmin.symm.trans hm
    rw [ht.run_of_jamsAt hwithin hagrees (of_leastIndex_eq hjam)]
    exact ⟨rfl, ht.lines_write⟩

/-- The verdict of a trace run of an accepted image. With `N` the number of instructions, `R` the
length of the log, `J` the first state without progress and `b` the first line that fails, the run
fails exactly if `b` is below `N` and not behind `J`, and has then written the lines up to the one
that fails. Otherwise it returns the least of `N`, `R` and `J`, and has written as many lines if that
is `N` and one more if not. -/
theorem trace_verdict (hc : Cartridge.ofImage image = .ok c) (s : TraceSettings) :
    let outcome := s.run image
    let N : ℕ∞ := s.instructions
    let R := s.logLength
    let J := s.firstJam c
    let b := s.firstFailure c
    ((∃ error, outcome.result = .error error) ↔ b < N ∧ b ≤ J) ∧
      (b < N ∧ b ≤ J →
        (∃ error, outcome.result = .error error ∧ s.FailsAt c b.toNat error) ∧
        outcome.lines.toList = (List.range (b.toNat + 1)).map (s.lineAt c)) ∧
      (¬ (b < N ∧ b ≤ J) →
        outcome.result = .ok (min N (min R J)).toNat ∧
        outcome.lines.toList = (List.range
          (if N ≤ min R J then s.instructions else (min R J).toNat + 1)).map (s.lineAt c)) := by
  intro outcome N R J b
  have hfailing : b < N ∧ b ≤ J →
      (∃ error, outcome.result = .error error ∧ s.FailsAt c b.toNat error) ∧
      outcome.lines.toList = (List.range (b.toNat + 1)).map (s.lineAt c) := by
    rintro ⟨hN, hJ⟩
    obtain ⟨m, hm⟩ := ENat.ne_top_iff_exists.1 (ne_top_of_lt hN)
    rw [← hm] at hN hJ ⊢
    exact run_to_failure hc hm.symm (Nat.cast_lt.1 hN) hJ
  have hreturning : ¬ (b < N ∧ b ≤ J) →
      outcome.result = .ok (min N (min R J)).toNat ∧
      outcome.lines.toList = (List.range
        (if N ≤ min R J then s.instructions else (min R J).toNat + 1)).map (s.lineAt c) := by
    intro hnot
    -- An index below the limit and not behind the first jam is before the first failure.
    have hbefore : ∀ i : Nat, (i : ℕ∞) < N → (i : ℕ∞) ≤ J → (i : ℕ∞) < b := by
      intro i hN hJ
      by_contra hb
      exact hnot ⟨(not_lt.1 hb).trans_lt hN, (not_lt.1 hb).trans hJ⟩
    have hpasses : ∀ i : Nat, (i : ℕ∞) < N → (i : ℕ∞) < min R J → s.PassesAt c i := by
      intro i hN hRJ
      obtain ⟨hR, hJ⟩ := lt_min_iff.1 hRJ
      exact passesAt_of_lt hR (hbefore i hN hJ.le) hJ
    rcases le_or_gt N (min R J) with hle | hlt
    · rw [if_pos hle, min_eq_left hle]
      exact run_to_limit hc fun i hi =>
        hpasses i (Nat.cast_lt.2 hi) ((Nat.cast_lt.2 hi).trans_le hle)
    · rw [if_neg (not_le.2 hlt), min_eq_right hlt.le]
      obtain ⟨m, hm⟩ := ENat.ne_top_iff_exists.1 (ne_top_of_lt hlt)
      rw [← hm] at hlt ⊢
      have hfirst : (m : ℕ∞) < b := hbefore m hlt (hm ▸ min_le_right _ _)
      refine run_to_end hc hm.symm (Nat.cast_lt.1 hlt) ?_ ?_
      · intro i hi
        have him : (i : ℕ∞) < m := Nat.cast_lt.2 hi
        exact hpasses i (him.trans hlt) (hm ▸ him)
      · exact fun error herror => not_of_lt_leastIndex hfirst ⟨error, herror⟩
  refine ⟨⟨?_, fun h => ?_⟩, hfailing, hreturning⟩
  · rintro ⟨error, herror⟩
    by_contra hnot
    rw [(hreturning hnot).1] at herror
    cases herror
  · obtain ⟨⟨error, herror, -⟩, -⟩ := hfailing h
    exact ⟨error, herror⟩

/-- Against a log whose only line is unparsable, the standard trace of a bank of `NOP` instructions
writes one line and fails. -/
theorem trace_verdict_unparsable_log :
    ∃ c, Cartridge.ofImage (Cartridge.headerBytes .nrom 1 0 ++ Array.replicate 0x4000 0xEA) =
        .ok c ∧
      let s := standard.against (some "x")
      let outcome :=
        s.run (Cartridge.headerBytes .nrom 1 0 ++ Array.replicate 0x4000 0xEA)
      s.firstFailure c = 0 ∧ outcome.result = .error (.unparsable "x") ∧
        outcome.lines.toList = [s.lineAt c 0] := by
  obtain ⟨c, himage⟩ := Cartridge.exists_ofImage_of_nops
  refine ⟨c, himage, ?_⟩
  generalize Cartridge.headerBytes .nrom 1 0 ++ Array.replicate 0x4000 0xEA = image at himage ⊢
  intro s outcome
  have hline : s.logLine? 0 = some "x" := by decide +kernel
  have hread : TraceLine.read? "x" = none := by decide +kernel
  have hzero : s.firstFailure c = 0 :=
    nonpos_iff_eq_zero.1 (leastIndex_le ⟨_, .unparsable hline hread⟩)
  have hlimit : 0 < s.instructions := by decide
  clear_value s
  have hbefore : s.firstFailure c < s.instructions ∧ s.firstFailure c ≤ s.firstJam c := by
    rw [hzero]
    exact ⟨Nat.cast_lt.2 hlimit, zero_le⟩
  have hfirst : (s.firstFailure c).toNat = 0 := by
    rw [hzero]
    rfl
  obtain ⟨⟨error, herror, hfails⟩, hlines⟩ := (trace_verdict himage s).2.1 hbefore
  rw [hfirst] at hfails hlines
  refine ⟨hzero, ?_, hlines⟩
  cases hfails with
  | unparsable hfirst _ =>
    rw [hline] at hfirst
    cases hfirst
    exact herror
  | diverged hfirst hparsed _ =>
    rw [hline] at hfirst
    cases hfirst
    rw [hread] at hparsed
    cases hparsed

end TraceSettings

end NesMachine
