import NesMachine.Proofs.Agreement
import NesMachine.Proofs.Cpu.Calls
import NesMachine.Proofs.Wiring.Attempts

/-!
# The processor's bus as a plain array

The processor cannot tell buses apart that answer reads alike and stay so
(`Cpu.comesOutAlike_of_simulation`). For a cartridge without bank switching the standard wiring is
such a bus: it cannot be told from a plain array of 64 KiB in which the copies of memory are folded
onto one and the program is not written to (`Wiring.FoldedArray.simulation`). Any calls therefore
end alike on both, in registers and cycles (`Wiring.session_parametric`).

The relation between the two is `Wiring.Folds`: the board has a history, and every address shows the
same on both. A write keeps it since it changes the same addresses on both, those of its cell
(`Wiring.ReferenceBoard.peek_write`, `Wiring.FoldedArray.peek_write`).
-/

set_option autoImplicit false

namespace NesMachine

universe v w

/-! ## Calls on two buses -/

/-- Some calls to one processor come out alike on two buses: with the same answers, the same
accesses and one processor, and with related buses. -/
structure Cpu.ComesOutAlike {β : Type v} {γ : Type w} [Bus β] [Bus γ] (R : β → γ → Prop)
    (calls : List CpuCall) (c : Cpu) (bus : β) (other : γ) : Prop where
  answers_eq : ((session calls c).run bus).1.1 = ((session calls c).run other).1.1
  cpu_eq : ((session calls c).run bus).1.2 = ((session calls c).run other).1.2
  accesses_eq : (session calls c).accesses bus = (session calls c).accesses other
  related : R ((session calls c).run bus).2 ((session calls c).run other).2

/-- Calls come out alike on buses that answer alike and stay so. -/
theorem Cpu.comesOutAlike_of_simulation {β : Type v} {γ : Type w} [Bus β] [Bus γ]
    {R : β → γ → Prop} (sim : Bus.Simulation R) {bus : β} {other : γ} (h : R bus other)
    (calls : List CpuCall) (c : Cpu) : ComesOutAlike R calls c bus other := by
  obtain ⟨hresult, hrelated, haccesses⟩ := sim.run (session calls c) h
  refine ⟨?_, ?_, haccesses, hrelated⟩
  · rw [hresult]
  · rw [hresult]

/-- A board with flat memory answers as the memory does. -/
theorem Board.simulation_flat :
    Bus.Simulation fun (m : FlatMemory) (b : Board) =>
      ∃ slot events, b = ⟨slot, .flat m, events⟩ where
  value_eq := by
    rintro m _ ⟨slot, events, rfl⟩ addr
    rfl
  read := by
    rintro m _ ⟨slot, events, rfl⟩ addr
    exact ⟨slot, events, rfl⟩
  write := by
    rintro m _ ⟨slot, events, rfl⟩ addr value
    exact ⟨slot, events, rfl⟩

namespace Wiring

open Cartridge

/-! ## The array -/

/-- The 32 KiB that a board without bank switching shows: its only bank twice, or its first two. -/
def programImage (c : Cartridge) : Array UInt8 :=
  if c.prgBanks = 1 then c.prg ++ c.prg else c.prg.extract 0 0x8000

/-- An array of bytes as a bus. Addresses below `4000` are folded onto one copy, and writes from
`8000` on are dropped. -/
structure FoldedArray where
  cells : Array UInt8

namespace FoldedArray

/-- The byte at an address. -/
def peek (a : FoldedArray) (addr : UInt16) : UInt8 :=
  a.cells.getD (referenceCell addr) 0

/-- The array after a write. -/
def write (a : FoldedArray) (addr : UInt16) (value : UInt8) : FoldedArray :=
  if addr < 0x8000 then ⟨a.cells.setIfInBounds (referenceCell addr) value⟩ else a

instance : Bus FoldedArray where
  read a addr := (a.peek addr, a)
  write := write
  peek := peek

@[simp] theorem bus_write (a : FoldedArray) (addr : UInt16) (value : UInt8) :
    Bus.write a addr value = a.write addr value := rfl

/-- Zeros and then the program of a cartridge. -/
def ofCartridge (c : Cartridge) : FoldedArray :=
  ⟨Array.replicate 0x8000 0 ++ programImage c⟩

end FoldedArray

/-! ## Cells -/

theorem referenceCell_lt {addr : UInt16} (haddr : addr < 0x8000) : referenceCell addr < 0x8000 := by
  have hbelow : addr.toNat < 0x8000 := UInt16.lt_iff_toNat_lt.1 haddr
  rw [referenceCell]
  split_ifs <;> omega

/-- From `8000` on every address is a cell of its own. -/
theorem referenceCell_of_window {addr : UInt16} (haddr : ¬ addr < 0x8000) :
    referenceCell addr = addr.toNat := by
  have hfrom : 0x8000 ≤ addr.toNat := Nat.not_lt.1 haddr
  rw [referenceCell, if_neg, if_neg]
  · rw [UInt16.lt_iff_toNat_lt]
    exact Nat.not_lt.2 (Nat.le_trans (by decide) hfrom)
  · rw [UInt16.lt_iff_toNat_lt]
    exact Nat.not_lt.2 (Nat.le_trans (by decide) hfrom)

/-- An address below `8000` and one from there on do not share a cell. -/
theorem referenceCell_ne {addr seen : UInt16} (haddr : addr < 0x8000) (hseen : ¬ seen < 0x8000) :
    referenceCell addr ≠ referenceCell seen := by
  have hbelow := referenceCell_lt haddr
  have hfrom : 0x8000 ≤ seen.toNat := Nat.not_lt.1 hseen
  rw [referenceCell_of_window hseen]
  omega

theorem referenceCell_lt_size (addr : UInt16) : referenceCell addr < UInt16.size := by
  by_cases haddr : addr < 0x8000
  · exact Nat.lt_trans (referenceCell_lt haddr) (by decide)
  · rw [referenceCell_of_window haddr]
    exact addr.toNat_lt_size

/-! ## Writes -/

/-- A write below `8000` changes the addresses of its cell on the array, and no other write changes
anything. -/
theorem FoldedArray.peek_write {a : FoldedArray} (hsize : a.cells.size = UInt16.size)
    (addr : UInt16) (value : UInt8) (seen : UInt16) :
    (a.write addr value).peek seen =
      if addr < 0x8000 ∧ referenceCell addr = referenceCell seen then value else a.peek seen := by
  have hlt : referenceCell seen < a.cells.size := hsize ▸ referenceCell_lt_size seen
  by_cases haddr : addr < 0x8000
  · rw [write, if_pos haddr, peek, peek]
    rw [Array.getD_eq_getD_getElem?, Array.getD_eq_getD_getElem?, Array.getElem?_setIfInBounds]
    by_cases hcell : referenceCell addr = referenceCell seen
    · simp [haddr, hcell, hlt]
    · simp [hcell]
  · rw [write, if_neg haddr, if_neg fun h => haddr h.1]

theorem FoldedArray.size_write (a : FoldedArray) (addr : UInt16) (value : UInt8) :
    (a.write addr value).cells.size = a.cells.size := by
  rw [write]
  split
  · exact Array.size_setIfInBounds ..
  · rfl

namespace ReferenceBoard

variable {c : Cartridge} {past : List BusCall} {board : Board}

/-- Without bank switching a write below `8000` changes the addresses of its cell on the board, and
no other write changes anything. -/
theorem peek_write (h : ReferenceBoard c past board) (hmapper : c.header.mapper = .nrom)
    (addr : UInt16) (value : UInt8) (seen : UInt16) :
    Bus.peek (Bus.write board addr value) seen =
      if addr < 0x8000 ∧ referenceCell addr = referenceCell seen then value
      else Bus.peek board seen := by
  have hlater : ReferenceBoard c (past ++ [.write addr value]) (Bus.write board addr value) :=
    h.afterCall (.write addr value)
  by_cases hseen : seen < 0x8000
  · rw [hlater.peek_of_cell hseen, h.peek_of_cell hseen, storedAt, lastWritten_concat, ← storedAt,
      BusCall.written?]
    by_cases hcell : referenceCell addr = referenceCell seen
    · have haddr : addr < 0x8000 := by
        by_contra hwindow
        exact referenceCell_ne hseen hwindow hcell.symm
      simp [haddr, hcell]
    · simp [hcell]
  · -- The bytes of the program are at the same places, whatever is written to the window.
    have hsame : c.programPlace (selectedBy (past ++ [.write addr value])) seen =
        c.programPlace (selectedBy past) seen := by
      rw [programPlace, programPlace, hmapper]
    have hshown := hlater.peek_of_window (UInt16.not_lt.1 hseen)
    rw [hsame, h.peek_of_window (UInt16.not_lt.1 hseen)] at hshown
    rw [if_neg fun hcell => referenceCell_ne hcell.1 hseen hcell.2]
    exact (Option.some.inj hshown).symm

end ReferenceBoard

/-! ## The relation -/

/-- A board with the processor's bus of a cartridge shows what an array of 64 KiB shows. -/
structure Folds (c : Cartridge) (board : Board) (a : FoldedArray) : Prop where
  history : ∃ past, ReferenceBoard c past board
  size_eq : a.cells.size = UInt16.size
  peek_eq : ∀ addr, Bus.peek board addr = a.peek addr

/-- Without bank switching the board and the array answer alike and stay so. -/
theorem FoldedArray.simulation {c : Cartridge} (hmapper : c.header.mapper = .nrom) :
    Bus.Simulation (Folds c) where
  value_eq := by
    intro board a h addr
    obtain ⟨past, hboard⟩ := h.history
    rw [hboard.read_eq addr]
    exact h.peek_eq addr
  read := by
    intro board a h addr
    obtain ⟨past, hboard⟩ := h.history
    rw [hboard.read_eq addr]
    exact h
  write := by
    intro board a h addr value
    obtain ⟨past, hboard⟩ := h.history
    refine ⟨⟨_, hboard.afterCall (.write addr value)⟩, ?_, ?_⟩
    · rw [bus_write, size_write]
      exact h.size_eq
    · intro seen
      rw [hboard.peek_write hmapper, bus_write, peek_write h.size_eq, h.peek_eq seen]

/-! ## The start -/

section Start

variable {c : Cartridge}

/-- A complete cartridge fills the program window. -/
theorem size_programImage (h : c.Complete) : (programImage c).size = 0x8000 := by
  have hpos := h.prgBanks_pos
  have hsize := h.prg_size
  rw [prgBankSize] at hsize
  rw [programImage]
  split
  · rename_i hone
    rw [hone] at hsize
    rw [Array.size_append, hsize]
  · rw [Array.size_extract]
    omega

/-- The image has at each place the program byte for the address there. -/
theorem getElem?_programImage (h : c.Complete) (hmapper : c.header.mapper = .nrom)
    (written : UInt8) {addr : UInt16} (haddr : ¬ addr < 0x8000) :
    (programImage c)[addr.toNat - 0x8000]? = c.prg[c.programPlace written addr]? := by
  have hfrom : 0x8000 ≤ addr.toNat := Nat.not_lt.1 haddr
  have hlast := addr.toNat_lt
  have hpos := h.prgBanks_pos
  have hsize := h.prg_size
  rw [prgBankSize] at hsize
  rw [programPlace, hmapper, programImage]
  by_cases hone : c.prgBanks = 1
  · -- One bank, which the upper half of the window repeats.
    rw [hone] at hsize
    rw [if_pos hone]
    dsimp only
    rw [if_pos hone]
    rcases Nat.lt_or_ge addr.toNat 0xC000 with hlower | hupper
    · have hplace : addr.toNat % 0x4000 = addr.toNat - 0x8000 := by omega
      rw [hplace, Array.getElem?_append_left (by omega)]
    · have hplace : addr.toNat % 0x4000 = addr.toNat - 0x8000 - c.prg.size := by omega
      rw [hplace, Array.getElem?_append_right (by omega)]
  · rw [if_neg hone]
    dsimp only
    rw [if_neg hone]
    have hplace : addr.toNat % 0x8000 = 0 + (addr.toNat - 0x8000) := by omega
    rw [hplace, Array.getElem?_extract, if_pos (by omega)]

theorem FoldedArray.size_ofCartridge (h : c.Complete) :
    (ofCartridge c).cells.size = UInt16.size := by
  rw [ofCartridge, Array.size_append, Array.size_replicate, size_programImage h]

theorem FoldedArray.peek_ofCartridge_of_cell (c : Cartridge) {addr : UInt16}
    (haddr : addr < 0x8000) : (ofCartridge c).peek addr = 0 := by
  have hlt := referenceCell_lt haddr
  rw [peek, ofCartridge, Array.getD_eq_getD_getElem?,
    Array.getElem?_append_left (by rwa [Array.size_replicate]), Array.getElem?_replicate,
    if_pos hlt, Option.getD_some]

theorem FoldedArray.peek_ofCartridge_of_window (c : Cartridge) {addr : UInt16}
    (haddr : ¬ addr < 0x8000) :
    (ofCartridge c).peek addr = ((programImage c)[addr.toNat - 0x8000]?).getD 0 := by
  have hfrom : 0x8000 ≤ addr.toNat := Nat.not_lt.1 haddr
  rw [peek, ofCartridge, Array.getD_eq_getD_getElem?, referenceCell_of_window haddr,
    Array.getElem?_append_right (by rwa [Array.size_replicate]), Array.size_replicate]

/-- A new board with an accepted cartridge without bank switching shows what the array shows. -/
theorem Folds.start {image : Array UInt8} (hc : Cartridge.ofImage image = .ok c)
    (hmapper : c.header.mapper = .nrom) :
    Folds c (Board.ofSpace (some c) (.mapped (referenceBus c))) (FoldedArray.ofCartridge c) := by
  have hcomplete := complete_of_ofImage hc
  have hboard := ReferenceBoard.start hc
  refine ⟨⟨[], hboard⟩, FoldedArray.size_ofCartridge hcomplete, ?_⟩
  intro addr
  by_cases haddr : addr < 0x8000
  · rw [hboard.peek_of_cell haddr, FoldedArray.peek_ofCartridge_of_cell c haddr]
    rfl
  · have hshown := hboard.peek_of_window (UInt16.not_lt.1 haddr)
    rw [← getElem?_programImage hcomplete hmapper (selectedBy []) haddr] at hshown
    rw [FoldedArray.peek_ofCartridge_of_window c haddr, hshown, Option.getD_some]

end Start

/-! ## Main statement -/

/-- Calls to a processor see nothing of a bus but its answers. From buses that answer alike and stay
so, any calls come out alike. In particular, on the standard wiring of a cartridge without bank
switching nothing is a fault, and any calls end with the answers, the processor and the memory that
they end with on the plain array. -/
theorem session_parametric :
    (∀ (β : Type v) (γ : Type w) [Bus β] [Bus γ] (R : β → γ → Prop), Bus.Simulation R →
      ∀ (bus : β) (other : γ), R bus other →
        ∀ (calls : List CpuCall) (c : Cpu), c.ComesOutAlike R calls bus other) ∧
    ∀ (image : Array UInt8) (cartridge : Cartridge), Cartridge.ofImage image = .ok cartridge →
      cartridge.header.mapper = .nrom → ∀ (calls : List CpuCall) (c : Cpu),
        let board := Board.ofSpace (some cartridge) (.mapped (referenceBus cartridge))
        let ended := (Cpu.session calls c).attempt #[] board
        let plain := (Cpu.session calls c).run (FoldedArray.ofCartridge cartridge)
        ended.result = .ok plain.1 ∧ ∀ addr, Bus.peek ended.board addr = plain.2.peek addr := by
  refine ⟨?_, ?_⟩
  · intro β γ _ _ R sim bus other h calls c
    exact Cpu.comesOutAlike_of_simulation sim h calls c
  · intro image cartridge hcartridge hmapper calls c board ended plain
    have hfolds := Folds.start hcartridge hmapper
    have halike := Cpu.comesOutAlike_of_simulation (FoldedArray.simulation hmapper) hfolds calls c
    -- The wiring meets no fault, so the attempt is the run.
    have hended : ended = _ := (ReferenceBoard.start hcartridge).attempt_eq (Cpu.session calls c) #[]
    rw [hended]
    refine ⟨?_, ?_⟩
    · exact congrArg _ (Prod.ext halike.answers_eq halike.cpu_eq)
    · exact halike.related.peek_eq

/-- Flat memory cannot be told from a board with it. A single bank of `NOP` instructions is seen
twice, so on the wiring of its cartridge and on the array a reset leads to `EAEA`. -/
theorem session_parametric_nops :
    let memory := FlatMemory.zero.write 0x0000 0xEA
    Cpu.ComesOutAlike (fun (m : FlatMemory) (b : Board) => ∃ slot events, b = ⟨slot, .flat m, events⟩)
        [.step, .irq, .step, .nmi, .clock, .reset] .powerOn memory (.ofSpace none (.flat memory)) ∧
      ∃ cartridge, Cartridge.ofImage (headerBytes .nrom 1 0 ++ Array.replicate 0x4000 0xEA) =
          .ok cartridge ∧ cartridge.header.mapper = .nrom ∧
        let board := Board.ofSpace (some cartridge) (.mapped (referenceBus cartridge))
        let ended := (Cpu.session [.reset] .powerOn).attempt #[] board
        let plain := (Cpu.session [.reset] .powerOn).run (FoldedArray.ofCartridge cartridge)
        ended.result = .ok plain.1 ∧ plain.1.2.regs.pc = 0xEAEA := by
  intro memory
  have hbody : (Array.replicate 0x4000 0xEA : Array UInt8).size =
      (1 : UInt8).toNat * prgBankSize + (0 : UInt8).toNat * chrBankSize := by
    simp [prgBankSize]
  obtain ⟨chr, himage⟩ := ofImage_of_body .nrom 1 0 (by decide) hbody
  obtain ⟨hsimulation, hfolded⟩ := session_parametric
  refine ⟨hsimulation FlatMemory Board _ Board.simulation_flat _ _ ⟨none, #[], rfl⟩ _ _, _, himage,
    rfl, ?_⟩
  generalize hc : Cartridge.mk .. = cartridge at himage
  have hmapper : cartridge.header.mapper = .nrom := by rw [← hc]
  obtain ⟨hresult, -⟩ := hfolded _ cartridge himage hmapper [.reset] .powerOn
  refine ⟨hresult, ?_⟩
  have hpc : ∀ a : FoldedArray, ((Cpu.session [.reset] .powerOn).run a).1.2.regs.pc =
      word (a.peek 0xFFFC) (a.peek 0xFFFD) := fun _ => rfl
  have hone : cartridge.prgBanks = 1 := by
    rw [← hc]
    rfl
  have hprogram : cartridge.prg = Array.replicate 0x4000 0xEA := by
    simp [← hc, prgBankSize]
  have hbyte : ∀ addr : UInt16, 0x8000 ≤ addr →
      (FoldedArray.ofCartridge cartridge).peek addr = 0xEA := by
    intro addr haddr
    have hlast := addr.toNat_lt
    have hfrom : 0x8000 ≤ addr.toNat := UInt16.le_iff_toNat_le.1 haddr
    have hwithin : addr.toNat - 0x8000 < 0x4000 + 0x4000 := by omega
    rw [FoldedArray.peek_ofCartridge_of_window _ (UInt16.not_lt.2 haddr), programImage,
      if_pos hone, hprogram, Array.replicate_append_replicate, Array.getElem?_replicate,
      if_pos hwithin, Option.getD_some]
  rw [hpc, hbyte 0xFFFC (by decide), hbyte 0xFFFD (by decide)]
  rfl

end Wiring

end NesMachine
