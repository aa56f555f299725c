import NesMachine.Proofs.Cpu.Cost
import NesMachine.Proofs.Trace.Ending
import NesMachine.Proofs.Trace.StatusColumn

/-!
# Jumps to themselves

An absolute jump to its own address leads the processor back to the state before it: the step only
reads, counts three cycles and sets unused (`Cpu.step_of_jumpsToItself`). On the standard wiring
reads change nothing, so the next step is the same jump, and by induction so is every later one
(`TraceSettings.standsStill`). A trace run that stops there for want of progress therefore loses
nothing: if it is not to stop, all further lines repeat the last one but for the total of cycles
(`TraceSettings.lines_repeat_at_selfJump`).
-/

set_option autoImplicit false

namespace NesMachine

universe v

/-! ## One jump -/

/-- Absolute jumps take three cycles. -/
theorem cycles_lookup_of_jump {opcode : UInt8} (hop : (lookup opcode).op = .jmp)
    (hmode : (lookup opcode).mode = .absolute) : (lookup opcode).cycles = 3 := by
  have all : ∀ i : Fin 256, (lookup (UInt8.ofFin i)).op = .jmp →
      (lookup (UInt8.ofFin i)).mode = .absolute → (lookup (UInt8.ofFin i)).cycles = 3 := by
    decide +kernel
  exact all opcode.toFin hop hmode

namespace Cpu

variable {β : Type v} [Bus β] {c : Cpu} {bus : β}

/-- The instruction at the program counter is an absolute jump to its own address. -/
def JumpsToItself (c : Cpu) (memory : UInt16 → UInt8) : Prop :=
  let d := decodeAt memory c.regs.pc
  d.instruction.op = .jmp ∧ d.instruction.mode = .absolute ∧ d.operand = c.regs.pc

/-- The bytes of a jump to its own address. -/
theorem jumpsToItself_of_bytes {memory : UInt16 → UInt8} (hopcode : memory c.regs.pc = 0x4C)
    (hlow : memory (c.regs.pc + 1) = lowByte c.regs.pc)
    (hhigh : memory (c.regs.pc + 2) = highByte c.regs.pc) : c.JumpsToItself memory := by
  have hword : (lookup (memory c.regs.pc)).mode.operandLength = 2 := by
    rw [hopcode]
    decide
  refine ⟨?_, ?_, ?_⟩
  · show (lookup (memory c.regs.pc)).op = .jmp
    rw [hopcode]
    decide
  · show (lookup (memory c.regs.pc)).mode = .absolute
    rw [hopcode]
    decide
  · rw [operand_decodeAt_word hword, hlow, hhigh, word_lowByte_highByte]

/-- A jump to itself leaves the registers but for unused, which fetching sets. -/
theorem regs_step_of_jumpsToItself (hbus : Bus.ReadsArePeeks bus) (hc : c.complete = true)
    (hjump : c.JumpsToItself (Bus.peek bus)) :
    (c.step.run bus).1.2.regs = { c.regs with status.unused := true } := by
  obtain ⟨hop, hmode, hoperand⟩ := hjump
  obtain ⟨later, hregs, -, -⟩ := step_of_readsArePeeks hbus hc
  have haddress : (c.located (Bus.peek bus)).latches.address = c.regs.pc :=
    (address_located_absolute hmode).trans hoperand
  rw [hregs, hop]
  show { (c.located (Bus.peek bus)).regs with
    pc := (c.located (Bus.peek bus)).latches.address } = _
  rw [haddress, regs_located]

theorem writes_step_of_jump (hbus : Bus.ReadsArePeeks bus) (hc : c.complete = true)
    (hop : (decodeAt (Bus.peek bus) c.regs.pc).instruction.op = .jmp) :
    (c.step.accesses bus).filter Access.isWrite = [] := by
  obtain ⟨later, -, -, hwrites⟩ := step_of_readsArePeeks hbus hc
  rw [hwrites, hop]
  rfl

/-- Where reads change nothing, a jump to itself counts three cycles and leaves the registers, but
for unused, and the bus. -/
theorem step_of_jumpsToItself (hbus : ∀ addr, Bus.read bus addr = (Bus.peek bus addr, bus))
    (hc : c.complete = true) (hjump : c.JumpsToItself (Bus.peek bus)) :
    (c.step.run bus).1.1 = 3 ∧
      (c.step.run bus).1.2.regs = { c.regs with status.unused := true } ∧
      (c.step.run bus).2 = bus := by
  have hpeeks := Bus.readsArePeeks_of_read_eq hbus
  -- The test looks at the memory and the step fetches; here these are the same bytes.
  have hnext : c.nextInstruction bus = (decodeAt (Bus.peek bus) c.regs.pc).instruction := by
    rw [nextInstruction, hbus]
    rfl
  refine ⟨?_, regs_step_of_jumpsToItself hpeeks hc hjump, ?_⟩
  · rw [count_step_of_plain hc bus (by rw [hnext, hjump.1]; decide)
      (by rw [hnext, hjump.1]; decide), hnext]
    exact congrArg UInt8.toUInt32 (cycles_lookup_of_jump hjump.1 hjump.2.1)
  · exact Program.run_snd_of_no_writes hbus c.step (writes_step_of_jump hpeeks hc hjump.1)

end Cpu

/-! ## All further steps -/

namespace TraceSettings

variable {s : TraceSettings} {c : Cartridge} {image : Array UInt8} {i k : Nat}

/-- The state after some steps is about to execute an absolute jump to its own address. -/
def SelfJumpsAt (s : TraceSettings) (c : Cartridge) (i : Nat) : Prop :=
  (s.stateAt c i).1.JumpsToItself (Bus.peek (s.stateAt c i).2)

/-- From state `i` on, `k` steps have let three cycles each pass and have set unused. The other
registers, the program counter among them, and the board with all its memory are as they were. -/
structure StandsStill (s : TraceSettings) (c : Cartridge) (i k : Nat) : Prop where
  regs_eq : (s.stateAt c (i + k)).1.regs =
    { (s.stateAt c i).1.regs with status.unused := true }
  board_eq : (s.stateAt c (i + k)).2 = (s.stateAt c i).2
  clockCount_eq : (s.stateAt c (i + k)).1.clockCount =
    (s.stateAt c i).1.clockCount + UInt64.ofNat (3 * k)

/-- A state that jumps to itself is followed by one like it. -/
theorem step_stateAt_of_selfJumpsAt (hc : Cartridge.ofImage image = .ok c)
    (hjump : s.SelfJumpsAt c i) : s.StandsStill c i 1 := by
  obtain ⟨past, hboard⟩ := exists_referenceBoard_stateAt hc s i
  obtain ⟨hcount, hregs, hbus⟩ :=
    Cpu.step_of_jumpsToItself hboard.read_eq (s.complete_stateAt c i) hjump
  refine ⟨hregs, hbus, ?_⟩
  have hclock := (s.stateAt c i).1.clockCount_step (s.stateAt c i).2
  rw [hcount] at hclock
  exact hclock

/-- Where nothing has moved, the instruction is the same jump. -/
theorem StandsStill.selfJumpsAt (h : s.StandsStill c i k) (hjump : s.SelfJumpsAt c i) :
    s.SelfJumpsAt c (i + k) := by
  rw [SelfJumpsAt, Cpu.JumpsToItself, h.regs_eq, h.board_eq]
  exact hjump

/-- By induction on the steps, nothing moves any more behind a jump to itself. -/
theorem standsStill (hc : Cartridge.ofImage image = .ok c) (hjump : s.SelfJumpsAt c i)
    (hk : 1 ≤ k) : s.StandsStill c i k := by
  induction k, hk using Nat.le_induction with
  | base => exact step_stateAt_of_selfJumpsAt hc hjump
  | succ k hk ih =>
    -- The jump is still the same, so its step sets unused once more and moves nothing else.
    have hnext := step_stateAt_of_selfJumpsAt hc (ih.selfJumpsAt hjump)
    refine ⟨?_, hnext.board_eq.trans ih.board_eq, ?_⟩
    · rw [← Nat.add_assoc, hnext.regs_eq, ih.regs_eq]
    · rw [← Nat.add_assoc, hnext.clockCount_eq, ih.clockCount_eq, UInt64.add_assoc,
        ← UInt64.ofNat_add, Nat.mul_add]

theorem StandsStill.lineAt_eq (h : s.StandsStill c i k) :
    s.lineAt c (i + k) = { s.lineAt c i with
      p := (s.lineAt c i).p ||| 0x20
      cycles := (s.lineAt c i).cycles + UInt64.ofNat (3 * k) } := by
  simp only [lineAt, Cpu.traceLine, h.regs_eq, h.board_eq, h.clockCount_eq, Status.toByte_unused]

/-! ## The run that goes on -/

/-- The settings that stop where no progress is made. -/
def stopping (s : TraceSettings) : TraceSettings :=
  { s with stopOnJam := true }

/-- The settings that do not stop where no progress is made, with a limit of their own. -/
def goingOn (s : TraceSettings) (limit : Nat) : TraceSettings :=
  { s with stopOnJam := false, instructions := limit }

/-- The first state does not depend on where a run is to end, and so neither do the others. -/
theorem firstState_stopping (s : TraceSettings) (c : Cartridge) :
    s.stopping.firstState c = s.firstState c :=
  rfl

theorem firstState_goingOn (s : TraceSettings) (limit : Nat) (c : Cartridge) :
    (s.goingOn limit).firstState c = s.firstState c :=
  rfl

theorem jamsAt_of_selfJumpsAt (h : s.SelfJumpsAt c i) : s.stopping.JamsAt c i := by
  refine ⟨rfl, .inr ?_⟩
  rw [stateAt_congr (s.firstState_stopping c)]
  exact h

/-- A run that returns the index of its last line has stopped there, below the limit. -/
theorem lines_stopping (hc : Cartridge.ofImage image = .ok c) (hlog : s.reference = none)
    (hresult : (s.stopping.run image).result = .ok i) {line : TraceLine}
    (hline : (s.stopping.run image).lines.toList[i]? = some line) :
    i < s.instructions ∧
      (s.stopping.run image).lines.toList = (List.range (i + 1)).map (s.lineAt c) := by
  have hstoppingLog : s.stopping.reference = none := hlog
  obtain ⟨n, hends⟩ := s.stopping.exists_endsAt c
  obtain ⟨hn, hlines⟩ := run_of_endsAt hc hstoppingLog hends
  obtain rfl : n = i := Except.ok.inj (hn.symm.trans hresult)
  obtain ⟨hwritten, -⟩ := List.getElem?_eq_some_iff.1 hline
  rw [hlines, List.length_map, List.length_range] at hwritten
  have hbelow : n < s.stopping.instructions := Nat.lt_of_lt_of_le hwritten (Nat.min_le_right _ _)
  rw [Nat.min_eq_left hbelow, lineAt_congr (s.firstState_stopping c)] at hlines
  exact ⟨hbelow, hlines⟩

theorem lines_goingOn (hc : Cartridge.ofImage image = .ok c) (hlog : s.reference = none)
    (limit : Nat) :
    ((s.goingOn limit).run image).lines.toList = (List.range limit).map (s.lineAt c) := by
  have hgoingLog : (s.goingOn limit).reference = none := hlog
  have hends : (s.goingOn limit).EndsAt c limit := endsAt_instructions rfl
  have hlines := (run_of_endsAt hc hgoingLog hends).2
  have hlimit : (s.goingOn limit).instructions = limit := rfl
  rw [hlimit, Nat.min_eq_right (Nat.le_succ limit),
    lineAt_congr (s.firstState_goingOn limit c)] at hlines
  exact hlines

/-- A trace without a reference log that stops at an absolute jump to its own address loses nothing.
Not stopping there, with a limit that is no smaller, the run of an accepted image writes as many
lines as the limit says. They begin with those of the run that stopped, and from then on each is the
last of these again, with three cycles more for each line between them and with unused set: nothing
else of the processor and nothing of its board changes any more. -/
theorem lines_repeat_at_selfJump (hc : Cartridge.ofImage image = .ok c) (s : TraceSettings)
    (hlog : s.reference = none) {i : Nat} {line : TraceLine}
    (hresult : (s.stopping.run image).result = .ok i)
    (hline : (s.stopping.run image).lines.toList[i]? = some line)
    (hjump : s.SelfJumpsAt c i) {limit : Nat} (hlimit : s.instructions ≤ limit) :
    let stopped := (s.stopping.run image).lines.toList
    let longer := ((s.goingOn limit).run image).lines.toList
    longer.length = limit ∧ longer.take (i + 1) = stopped ∧
      ∀ k, 1 ≤ k → s.StandsStill c i k ∧
        (i + k < limit → longer[i + k]? = some { line with
          p := line.p ||| 0x20
          cycles := line.cycles + UInt64.ofNat (3 * k) }) := by
  intro stopped longer
  obtain ⟨hbelow, hstopped⟩ := lines_stopping hc hlog hresult hline
  have hlonger : longer = (List.range limit).map (s.lineAt c) := lines_goingOn hc hlog limit
  have hshown : line = s.lineAt c i :=
    lineAt_congr (s.firstState_stopping c) ▸ eq_lineAt_of_getElem? hc hline
  refine ⟨?_, ?_, fun k hk => ⟨standsStill hc hjump hk, fun hlt => ?_⟩⟩
  · rw [hlonger, List.length_map, List.length_range]
  · have hfits : i + 1 ≤ limit := Nat.le_trans hbelow hlimit
    rw [hlonger, ← List.map_take, List.take_range, Nat.min_eq_left hfits]
    exact hstopped.symm
  · rw [hlonger, List.getElem?_map, List.getElem?_range hlt, hshown,
      ← (standsStill hc hjump hk).lineAt_eq]
    rfl

/-- A program of one jump to itself. -/
theorem exists_ofImage_of_selfJump :
    ∃ c, Cartridge.ofImage (Cartridge.headerBytes .nrom 1 0 ++
        (#[0x4C, 0x00, 0x80] ++ Array.replicate 0x3FFD 0xEA)) = .ok c ∧
      ∀ s : TraceSettings, s.entry = some 0x8000 → s.SelfJumpsAt c 0 := by
  have hbody : (#[0x4C, 0x00, 0x80] ++ Array.replicate 0x3FFD 0xEA : Array UInt8).size =
      (1 : UInt8).toNat * prgBankSize + (0 : UInt8).toNat * chrBankSize := by
    simp [prgBankSize]
  obtain ⟨chr, himage⟩ := Cartridge.ofImage_of_body .nrom 1 0 (by decide) hbody
  generalize hc : Cartridge.mk .. = c at himage
  have hplace : ∀ written addr, c.programPlace written addr = addr.toNat % 0x4000 := by
    intro written addr
    simp [← hc, Cartridge.programPlace, Cartridge.prgBanks]
  have hprogram : c.prg[0]? = some 0x4C ∧ c.prg[1]? = some 0x00 ∧ c.prg[2]? = some 0x80 := by
    simp [← hc, prgBankSize]
  refine ⟨c, himage, fun s hentry => ?_⟩
  obtain ⟨past, hboard⟩ := exists_referenceBoard_stateAt himage s 0
  have hpc : (s.stateAt c 0).1.regs.pc = 0x8000 := congrArg (Option.getD · _) hentry
  have hpeek : ∀ addr : UInt16, 0x8000 ≤ addr →
      c.prg[addr.toNat % 0x4000]? = some (Bus.peek (s.stateAt c 0).2 addr) := by
    intro addr haddr
    rw [← hplace]
    exact hboard.peek_of_window haddr
  apply Cpu.jumpsToItself_of_bytes
  · rw [hpc]
    exact Option.some.inj ((hpeek 0x8000 (by decide)).symm.trans hprogram.1)
  · rw [hpc]
    exact Option.some.inj ((hpeek 0x8001 (by decide)).symm.trans hprogram.2.1)
  · rw [hpc]
    exact Option.some.inj ((hpeek 0x8002 (by decide)).symm.trans hprogram.2.2)

/-- From the status byte `00` that program stops a run at its first line, and ten thousand further
instructions repeat the line with unused set. -/
theorem lines_repeat_at_first_selfJump :
    ∃ c line, Cartridge.ofImage (Cartridge.headerBytes .nrom 1 0 ++
        (#[0x4C, 0x00, 0x80] ++ Array.replicate 0x3FFD 0xEA)) = .ok c ∧
      let image := Cartridge.headerBytes .nrom 1 0 ++
        (#[0x4C, 0x00, 0x80] ++ Array.replicate 0x3FFD 0xEA)
      let s : TraceSettings := { standard with entry := some 0x8000, status := some 0x00 }
      s.SelfJumpsAt c 0 ∧ (s.stopping.run image).result = .ok 0 ∧
        (s.stopping.run image).lines.toList = [line] ∧ line.p = 0x00 ∧
        ∀ k, 1 ≤ k → k < 10001 → ((s.goingOn 10001).run image).lines.toList[k]? = some { line with
          p := 0x20
          cycles := line.cycles + UInt64.ofNat (3 * k) } := by
  obtain ⟨c, himage, hjumps⟩ := exists_ofImage_of_selfJump
  generalize Cartridge.headerBytes .nrom 1 0 ++
    (#[0x4C, 0x00, 0x80] ++ Array.replicate 0x3FFD 0xEA) = image at himage ⊢
  let s : TraceSettings := { standard with entry := some 0x8000, status := some 0x00 }
  have hjump : s.SelfJumpsAt c 0 := hjumps s rfl
  have hends : s.stopping.EndsAt c 0 :=
    ⟨Nat.zero_le _, fun j hj => absurd hj (Nat.not_lt_zero j), fun _ => jamsAt_of_selfJumpsAt hjump⟩
  obtain ⟨hresult, hlines⟩ := run_of_endsAt himage rfl hends
  have hstopped : (s.stopping.run image).lines.toList = [s.lineAt c 0] := hlines
  have hline : (s.stopping.run image).lines.toList[0]? = some (s.lineAt c 0) := by
    rw [hstopped]
    rfl
  have hlimit : s.instructions ≤ 10001 := by decide
  obtain ⟨-, -, hrepeats⟩ := lines_repeat_at_selfJump himage s rfl hresult hline hjump hlimit
  have hp : (s.lineAt c 0).p = 0x00 := by
    show (s.firstState c).1.regs.status.toByte = 0x00
    rw [s.status_firstState c]
    rfl
  refine ⟨c, s.lineAt c 0, himage, hjump, hresult, hstopped, hp, fun k hk hlt => ?_⟩
  have hrepeat := (hrepeats k hk).2 (by omega)
  rw [hp, Nat.zero_add] at hrepeat
  exact hrepeat

end TraceSettings

end NesMachine
