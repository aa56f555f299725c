import NesMachine.Proofs.Wiring.Slot

/-!
# The processor's bus as a memory

After any calls to a processor's bus of an accepted cartridge, each address below `8000` shows the
byte written last to its cell, each address from `8000` on shows a program byte of the cartridge,
nothing is a fault, and reads change nothing (`Wiring.referenceBus_memory`). The invariant behind it
is `Wiring.ReferenceBoard`: the bus recalls its history, and the cartridge in the slot is the
accepted one with its register set by the last write to the program window.
-/

set_option autoImplicit false

namespace NesMachine.Wiring

open Cartridge

/-! ## Histories of the processor's bus -/

/-- The cell that an address below `8000` belongs to. -/
def referenceCell (addr : UInt16) : Nat :=
  if addr < 0x2000 then addr.toNat % 0x800
  else if addr < 0x4000 then 0x2000 + addr.toNat % 8
  else addr.toNat

/-- The byte that some calls wrote last to the cell of an address. -/
def storedAt (addr : UInt16) (past : List BusCall) : UInt8 :=
  lastWritten (BusCall.written? fun a => referenceCell a = referenceCell addr) past

/-- Two addresses below `8000` share a cell of the bus if they have the same cell number. -/
theorem cell?_referenceBus_eq_iff (c : Cartridge) {addr : UInt16} (haddr : addr < 0x8000)
    (other : UInt16) :
    (referenceBus c).cell? other = (referenceBus c).cell? addr ↔
      referenceCell other = referenceCell addr := by
  rw [cell?_referenceBus, cell?_referenceBus]
  simp only [referenceCell, UInt16.lt_iff_toNat_lt] at haddr ⊢
  grind

/-- An address below `8000` has a cell on the bus. -/
theorem exists_cell_referenceBus (c : Cartridge) {addr : UInt16} (haddr : addr < 0x8000) :
    ∃ cell, (referenceBus c).cell? addr = some cell := by
  rw [cell?_referenceBus]
  split_ifs
  all_goals exact ⟨_, rfl⟩

/-! ## The board with a processor's bus -/

/-- What a board with the processor's bus of a cartridge has become after some calls: the bus
recalls them, and the cartridge is in use. -/
def ReferenceBoard (c : Cartridge) (past : List BusCall) (board : Board) : Prop :=
  ∃ bus slotted events, board = ⟨some slotted, .mapped bus, events⟩ ∧
    (referenceBus c).Recalls past bus ∧ c.InUse (selectedBy past) slotted

namespace ReferenceBoard

variable {c : Cartridge} {past : List BusCall} {board : Board}

theorem start {image : Array UInt8} (hc : Cartridge.ofImage image = .ok c) :
    ReferenceBoard c [] (Board.ofSpace (some c) (.mapped (referenceBus c))) :=
  ⟨referenceBus c, c, #[], rfl, .start (cleared_referenceBus c),
    .start (complete_of_ofImage hc) (bankSelect_of_ofImage hc)⟩

/-- One more call. -/
theorem afterCall (h : ReferenceBoard c past board) (call : BusCall) :
    ReferenceBoard c (past ++ [call]) (Bus.afterCall board call) := by
  obtain ⟨bus, slotted, events, rfl, hbus, hslotted⟩ := h
  obtain ⟨later, hlater⟩ := Board.afterCall_mapped (some slotted) bus events call
  rw [slotAfter_referenceBus hbus] at hlater
  exact ⟨_, _, later, hlater, hbus.concat (latchless_referenceBus c) call,
    hslotted.afterReference call⟩

theorem afterCalls {image : Array UInt8} (hc : Cartridge.ofImage image = .ok c)
    (past : List BusCall) :
    ReferenceBoard c past
      (Bus.afterCalls (Board.ofSpace (some c) (.mapped (referenceBus c))) past) := by
  induction past using List.reverseRecOn with
  | nil => exact start hc
  | append_singleton past call ih =>
    rw [Bus.afterCalls_concat]
    exact ih.afterCall call

/-- Nothing is a fault. -/
theorem fault?_eq_none (h : ReferenceBoard c past board) (addr : UInt16) :
    board.fault? addr = none := by
  obtain ⟨bus, slotted, events, rfl, hbus, hslotted⟩ := h
  show bus.fault? (some slotted) addr = none
  rw [hbus.fault?_eq]
  exact fault?_referenceBus hslotted.complete addr

theorem read_eq (h : ReferenceBoard c past board) (addr : UInt16) :
    Bus.read board addr = (Bus.peek board addr, board) := by
  obtain ⟨bus, slotted, events, rfl, hbus, hslotted⟩ := h
  show Board.read _ addr = _
  rw [Board.read, hbus.afterRead_eq (latchless_referenceBus c)]
  rfl

/-- An address below `8000` shows what was stored last in its cell. -/
theorem peek_of_cell (h : ReferenceBoard c past board) {addr : UInt16} (haddr : addr < 0x8000) :
    Bus.peek board addr = storedAt addr past := by
  obtain ⟨bus, slotted, events, rfl, hbus, hslotted⟩ := h
  obtain ⟨cell, hcell⟩ := exists_cell_referenceBus c haddr
  show bus.peek (some slotted) addr = _
  rw [hbus.peek_eq hcell, storedAt, ← hcell]
  simp only [cell?_referenceBus_eq_iff c haddr]

/-- An address from `8000` on shows the program byte that the last write to the window selects. -/
theorem peek_of_window (h : ReferenceBoard c past board) {addr : UInt16}
    (haddr : 0x8000 ≤ addr) :
    c.prg[c.programPlace (selectedBy past) addr]? = some (Bus.peek board addr) := by
  obtain ⟨bus, slotted, events, rfl, hbus, hslotted⟩ := h
  have hwindow : ¬ addr < 0x8000 := UInt16.not_lt.2 haddr
  have hcell : (referenceBus c).cell? addr = none := by
    rw [cell?_referenceBus]
    grind
  rw [hslotted.getElem?_programPlace hwindow]
  show _ = some (bus.peek (some slotted) addr)
  rw [hbus.peek_of_no_cell (latchless_referenceBus c) hcell, peek_referenceBus c hwindow]
  rfl

end ReferenceBoard

/-! ## The bus as a memory -/

/-- After any calls to the processor's bus of an accepted cartridge, every address is answered, a
read returns what a peek shows and changes nothing, an address below `8000` shows the byte written
last to its cell, and an address from `8000` on shows the program byte that the byte written last to
the window selects. -/
theorem referenceBus_memory {image : Array UInt8} {c : Cartridge}
    (hc : Cartridge.ofImage image = .ok c) (past : List BusCall) (addr : UInt16) :
    let board := Bus.afterCalls (Board.ofSpace (some c) (.mapped (referenceBus c))) past
    board.fault? addr = none ∧
      Bus.read board addr = (Bus.peek board addr, board) ∧
      (addr < 0x8000 → Bus.peek board addr = storedAt addr past) ∧
      (0x8000 ≤ addr →
        c.prg[c.programPlace (selectedBy past) addr]? = some (Bus.peek board addr)) := by
  have hboard := ReferenceBoard.afterCalls hc past
  exact ⟨hboard.fault?_eq_none addr, hboard.read_eq addr, hboard.peek_of_cell,
    hboard.peek_of_window⟩

/-- On a board with two banks, a write to a copy of a cell is seen in the cell, and a write to the
window selects the other bank. -/
theorem referenceBus_memory_two_banks :
    ∃ c, Cartridge.ofImage (headerBytes .uxrom 2 0 ++
        (Array.replicate 0x4000 1 ++ Array.replicate 0x4000 2)) = .ok c ∧
      let board := Bus.afterCalls (Board.ofSpace (some c) (.mapped (referenceBus c)))
        [.write 0x0812 7, .write 0xFFFF 3]
      Bus.peek board 0x0012 = 7 ∧ Bus.peek board 0x8000 = 2 := by
  have hbody : (Array.replicate 0x4000 1 ++ Array.replicate 0x4000 2 : Array UInt8).size =
      (2 : UInt8).toNat * prgBankSize + (0 : UInt8).toNat * chrBankSize := by
    simp [prgBankSize]
  obtain ⟨chr, himage⟩ := ofImage_of_body .uxrom 2 0 (by decide) hbody
  generalize hc : Cartridge.mk .. = c at himage
  have hplace : c.programPlace 3 0x8000 = 0x4000 := by
    simp [← hc, programPlace, prgBanks]
  have hbyte : c.prg[0x4000]? = some 2 := by
    simp [← hc, prgBankSize]
  obtain ⟨-, -, hlow, -⟩ := referenceBus_memory himage [.write 0x0812 7, .write 0xFFFF 3] 0x0012
  obtain ⟨-, -, -, hhigh⟩ := referenceBus_memory himage [.write 0x0812 7, .write 0xFFFF 3] 0x8000
  have hselected : selectedBy [.write 0x0812 7, .write 0xFFFF 3] = 3 := by decide
  have hshown := hhigh (by decide)
  rw [hselected, hplace, hbyte] at hshown
  exact ⟨c, himage, (hlow (by decide)).trans (by decide), (Option.some.inj hshown).symm⟩

end NesMachine.Wiring
