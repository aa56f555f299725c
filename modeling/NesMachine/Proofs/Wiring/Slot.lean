import NesMachine.Proofs.Cartridge.Banks
import NesMachine.Proofs.Wiring.Layout

/-!
# The cartridge in the slot

What a call to a standard bus does to the cartridge in the slot depends on the call alone
(`Wiring.slotAfter_referenceBus`, `Wiring.slotAfter_pictureBus`). The register follows the calls to
the processor's side (`Cartridge.InUse.afterReference`), and writable pattern memory follows the
calls to the picture unit's side (`Cartridge.PatternRecalls.afterPicture`); neither disturbs the
other.
-/

set_option autoImplicit false

namespace NesMachine

/-- The byte that some calls to the processor's side wrote last to the program window. -/
def selectedBy (past : List BusCall) : UInt8 :=
  lastWritten (BusCall.written? fun a => 0x8000 ≤ a) past

namespace Cartridge

/-- The cartridge after a call to a bus of the processor. -/
def afterReference (c : Cartridge) : BusCall → Cartridge
  | .write addr value => if addr < 0x8000 then c else c.writePrg value
  | _ => c

/-- The cartridge after a call to a bus of the picture unit. -/
def afterPicture (c : Cartridge) : BusCall → Cartridge
  | .write addr value => if addr < 0x2000 then c.writeChr addr value else c
  | _ => c

variable {c slotted : Cartridge} {past : List BusCall} {written : UInt8}

/-! ## The register -/

/-- A call on the processor's side sets the register if it writes to the window. -/
theorem InUse.afterReference (h : c.InUse (selectedBy past) slotted) (call : BusCall) :
    c.InUse (selectedBy (past ++ [call])) (slotted.afterReference call) := by
  rw [selectedBy, lastWritten_concat, ← selectedBy]
  cases call with
  | read addr => exact h
  | peek addr => exact h
  | write addr value =>
    rw [Cartridge.afterReference, BusCall.written?]
    by_cases haddr : addr < 0x8000
    · rw [if_pos haddr, if_neg (by simpa using haddr)]
      exact h
    · rw [if_neg haddr, if_pos (by simpa using haddr)]
      exact h.writePrg value

theorem InUse.afterPicture (h : c.InUse written slotted) (call : BusCall) :
    c.InUse written (slotted.afterPicture call) := by
  cases call with
  | read addr => exact h
  | peek addr => exact h
  | write addr value =>
    rw [Cartridge.afterPicture]
    split
    · exact h.writeChr addr value
    · exact h

/-! ## Pattern memory -/

/-- Pattern ROM is that of the cartridge, and writable pattern memory shows at each address the byte
that some calls to the picture unit's side wrote there last. -/
structure PatternRecalls (c : Cartridge) (past : List BusCall) (slotted : Cartridge) : Prop where
  rom_eq : c.header.chrIsRam = false → slotted.chr = c.chr
  ram_eq : c.header.chrIsRam = true → ∀ {addr : UInt16}, addr < 0x2000 →
    slotted.peekChr addr = lastWritten (BusCall.written? fun a => a = addr) past

theorem peekChr_of_ofImage {image : Array UInt8} (hc : ofImage image = .ok c)
    (hram : c.header.chrIsRam = true) (addr : UInt16) : c.peekChr addr = 0 := by
  obtain ⟨-, -, hchr, -⟩ := ofImage_eq_ok_iff.1 hc
  rw [patternSection, if_pos hram] at hchr
  rw [peekChr, ← Except.ok.inj hchr, Array.getD_eq_getD_getElem?, Array.getElem?_replicate]
  split <;> rfl

theorem peekChr_writePrg (hram : c.header.chrIsRam = true) {addr : UInt16} (haddr : addr < 0x2000)
    (value : UInt8) : (c.writePrg value).peekChr addr = c.peekChr addr := by
  have hram' : (c.writePrg value).header.chrIsRam = true := hram
  rw [peekChr, peekChr, chrOffset_of_chrIsRam hram' haddr, chrOffset_of_chrIsRam hram haddr,
    chr_writePrg]

/-- A write to writable pattern memory is seen at its own address and nowhere else. -/
theorem peekChr_writeChr (h : c.Complete) (hram : c.header.chrIsRam = true) {addr seen : UInt16}
    (haddr : addr < 0x2000) (hseen : seen < 0x2000) (value : UInt8) :
    (c.writeChr addr value).peekChr seen = if addr = seen then value else c.peekChr seen := by
  have hram' : (c.writeChr addr value).header.chrIsRam = true := by
    rw [header_writeChr, hram]
  have hlt := h.chrOffset_lt seen
  rw [chrOffset_of_chrIsRam hram hseen] at hlt
  rw [peekChr, peekChr, chrOffset_of_chrIsRam hram' hseen, chrOffset_of_chrIsRam hram hseen,
    writeChr, if_pos hram, chrOffset_of_chrIsRam hram haddr, Array.getD_eq_getD_getElem?,
    Array.getD_eq_getD_getElem?, Array.getElem?_setIfInBounds]
  by_cases hsame : addr = seen
  · simp [hsame, hlt]
  · have hplaces : addr.toNat ≠ seen.toNat := fun e => hsame (UInt16.toNat_inj.1 e)
    simp [hsame, hplaces]

namespace PatternRecalls

theorem start {image : Array UInt8} (hc : ofImage image = .ok c) : c.PatternRecalls [] c :=
  ⟨fun _ => rfl, fun hram _ _ => peekChr_of_ofImage hc hram _⟩

/-- A call on the processor's side leaves pattern memory. -/
theorem afterReference (h : c.PatternRecalls past slotted) (huse : c.InUse written slotted)
    (call : BusCall) : c.PatternRecalls past (slotted.afterReference call) := by
  cases call with
  | read addr => exact h
  | peek addr => exact h
  | write addr value =>
    rw [Cartridge.afterReference]
    split
    · exact h
    · refine ⟨h.rom_eq, fun hram {seen} hseen => ?_⟩
      rw [peekChr_writePrg (huse.header_eq ▸ hram) hseen]
      exact h.ram_eq hram hseen

/-- A call on the picture unit's side extends the history. -/
theorem afterPicture (h : c.PatternRecalls past slotted) (huse : c.InUse written slotted)
    (call : BusCall) : c.PatternRecalls (past ++ [call]) (slotted.afterPicture call) := by
  cases call with
  | read addr =>
    refine ⟨h.rom_eq, fun hram {seen} hseen => ?_⟩
    rw [lastWritten_concat]
    exact h.ram_eq hram hseen
  | peek addr =>
    refine ⟨h.rom_eq, fun hram {seen} hseen => ?_⟩
    rw [lastWritten_concat]
    exact h.ram_eq hram hseen
  | write addr value =>
    rw [Cartridge.afterPicture]
    by_cases haddr : addr < 0x2000
    · -- Pattern ROM drops the write, and writable memory takes it at its own address.
      rw [if_pos haddr]
      refine ⟨fun hrom => ?_, fun hram {seen} hseen => ?_⟩
      · rw [writeChr, huse.header_eq, hrom, if_neg Bool.false_ne_true, h.rom_eq hrom]
      · rw [lastWritten_concat, BusCall.written?,
          peekChr_writeChr huse.complete (huse.header_eq ▸ hram) haddr hseen, h.ram_eq hram hseen]
        by_cases hsame : addr = seen
        · simp [hsame]
        · simp [hsame]
    · rw [if_neg haddr]
      refine ⟨h.rom_eq, fun hram {seen} hseen => ?_⟩
      have hother : addr ≠ seen := fun e => haddr (e ▸ hseen)
      rw [lastWritten_concat, BusCall.written?, if_neg (by simpa using hother)]
      exact h.ram_eq hram hseen

end PatternRecalls

end Cartridge

/-! ## The two kinds of bus -/

namespace Wiring

variable {c slotted : Cartridge} {past : List BusCall} {bus : MemoryBus}

/-- A call to a processor's bus does to the slot what it does to the cartridge. -/
theorem slotAfter_referenceBus (hbus : (referenceBus c).Recalls past bus) (call : BusCall) :
    bus.slotAfter (some slotted) call = some (slotted.afterReference call) := by
  cases call with
  | read addr => rfl
  | peek addr => rfl
  | write addr value =>
    rw [MemoryBus.slotAfter, hbus.writeSlot_eq, writeSlot_referenceBus, Cartridge.afterReference]
    split <;> rfl

/-- A call to a picture unit's bus does to the slot what it does to the cartridge. -/
theorem slotAfter_pictureBus (hbus : (pictureBus c).Recalls past bus) (call : BusCall) :
    bus.slotAfter (some slotted) call = some (slotted.afterPicture call) := by
  cases call with
  | read addr => rfl
  | peek addr => rfl
  | write addr value =>
    rw [MemoryBus.slotAfter, hbus.writeSlot_eq, writeSlot_pictureBus, Cartridge.afterPicture]
    split <;> rfl

end Wiring

end NesMachine
