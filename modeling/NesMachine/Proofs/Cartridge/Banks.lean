import NesMachine.Proofs.Cartridge.Accepted

/-!
# Selected banks

The register of a board holds the value written last, reduced modulo the banks to choose from
(`Cartridge.registerFor`), and reading reduces it once more. The program byte of an address is then
the one at `Cartridge.programPlace` for the value written last
(`Cartridge.Complete.prgOffset_of_register`), and the pattern byte is the one at
`Cartridge.patternPlace` (`Cartridge.chrOffset_of_register`); writable pattern memory is not banked
(`Cartridge.chrOffset_of_chrIsRam`).

`Cartridge.InUse` is the invariant of a cartridge in a slot that every write to a window keeps
(`Cartridge.InUse.writePrg`, `Cartridge.InUse.writeChr`).
-/

set_option autoImplicit false

namespace NesMachine.Cartridge

variable {c : Cartridge} {written : UInt8} {addr : UInt16}

/-! ## The register -/

/-- What the register holds when a value was written last to the program window. -/
def registerFor (c : Cartridge) (written : UInt8) : Nat :=
  match c.header.mapper with
  | .nrom => 0
  | .uxrom => written.toNat % c.prgBanks
  | .cnrom => written.toNat % max c.header.chrBanks.toNat 1

theorem toNat_ofNat_mod (value : UInt8) (banks : Nat) :
    (UInt8.ofNat (value.toNat % banks)).toNat = value.toNat % banks :=
  UInt8.toNat_ofNat_of_lt' (Nat.lt_of_le_of_lt (Nat.mod_le ..) value.toNat_lt_size)

/-- The register of a board without one stays zero, and every other register holds the bank for the
value written. -/
theorem toNat_bankSelect_writePrg {before : UInt8}
    (hbefore : c.bankSelect.toNat = c.registerFor before) (written : UInt8) :
    (c.writePrg written).bankSelect.toNat = c.registerFor written := by
  rw [registerFor] at hbefore
  rw [writePrg, bankSelected, registerFor]
  cases hmapper : c.header.mapper with
  | nrom =>
    rw [hmapper] at hbefore
    exact hbefore
  | uxrom => exact toNat_ofNat_mod ..
  | cnrom => exact toNat_ofNat_mod ..

/-- A fresh register holds what a write of zero would select. -/
theorem toNat_bankSelect_of_fresh (hfresh : c.bankSelect = 0) :
    c.bankSelect.toNat = c.registerFor 0 := by
  rw [hfresh]
  rw [registerFor]
  cases c.header.mapper with
  | nrom => rfl
  | uxrom | cnrom => exact (Nat.zero_mod _).symm

/-! ## The program window -/

/-- Where the program byte for an address from `8000` on is stored when a value was written last to
the program window. -/
def programPlace (c : Cartridge) (written : UInt8) (addr : UInt16) : Nat :=
  match c.header.mapper with
  | .nrom | .cnrom => addr.toNat % (if c.prgBanks = 1 then 0x4000 else 0x8000)
  | .uxrom =>
      if addr < 0xC000 then written.toNat % c.prgBanks * 0x4000 + (addr.toNat - 0x8000)
      else (c.prgBanks - 1) * 0x4000 + (addr.toNat - 0xC000)

/-- The place of the program byte follows from the value written last. -/
theorem Complete.prgOffset_of_register (h : c.Complete)
    (hregister : c.bankSelect.toNat = c.registerFor written) (haddr : ¬ addr < 0x8000) :
    c.prgOffset addr = c.programPlace written addr := by
  have hpos := h.prgBanks_pos
  have hlow : 0x8000 ≤ addr.toNat := Nat.not_lt.1 haddr
  have hhigh := addr.toNat_lt
  rw [registerFor] at hregister
  rw [prgOffset, programPlace]
  cases hmapper : c.header.mapper with
  | nrom | cnrom =>
    -- The window holds two banks, so with one bank its halves agree and with more the size decides.
    by_cases hone : c.prgBanks = 1
    · simp [hone, prgBankSize]
    · have hmany : 1 < c.prgBanks := by omega
      simp [hone, hmany, prgBankSize]
  | uxrom =>
    rw [hmapper] at hregister
    dsimp only at hregister ⊢
    -- The number was reduced when it was written, so reducing it again changes nothing.
    rw [hregister, Nat.mod_mod, prgBankSize]
    split
    · rename_i hswitched
      have hbelow : addr.toNat < 0xC000 := UInt16.lt_iff_toNat_lt.1 hswitched
      omega
    · rename_i hfixed
      have hfrom : 0xC000 ≤ addr.toNat := Nat.not_lt.1 hfixed
      omega

/-! ## The pattern window -/

/-- Where the byte of pattern ROM for an address below `2000` is stored when a value was written
last to the program window. -/
def patternPlace (c : Cartridge) (written : UInt8) (addr : UInt16) : Nat :=
  match c.header.mapper with
  | .nrom | .uxrom => addr.toNat
  | .cnrom => written.toNat % c.header.chrBanks.toNat * 0x2000 + addr.toNat

theorem chrOffset_of_chrIsRam (hram : c.header.chrIsRam = true) (haddr : addr < 0x2000) :
    c.chrOffset addr = addr.toNat := by
  have hbelow : addr.toNat < 0x2000 := UInt16.lt_iff_toNat_lt.1 haddr
  rw [chrOffset]
  rw [chrChoices_of_chrIsRam hram, Nat.mod_one, chrBankSize, Nat.mod_eq_of_lt hbelow]
  cases c.header.mapper with
  | nrom | uxrom => rfl
  | cnrom => exact Nat.zero_add _

/-- The place of a byte of pattern ROM follows from the value written last. -/
theorem chrOffset_of_register (hrom : c.header.chrIsRam = false)
    (hregister : c.bankSelect.toNat = c.registerFor written) (haddr : addr < 0x2000) :
    c.chrOffset addr = c.patternPlace written addr := by
  have hbelow : addr.toNat < 0x2000 := UInt16.lt_iff_toNat_lt.1 haddr
  have hchoices := chrChoices_of_not_chrIsRam hrom
  rw [registerFor] at hregister
  rw [chrOffset, patternPlace]
  rw [chrBankSize, Nat.mod_eq_of_lt hbelow]
  cases hmapper : c.header.mapper with
  | nrom | uxrom => rfl
  | cnrom =>
    rw [hmapper] at hregister
    dsimp only at hregister ⊢
    rw [← chrChoices, hchoices] at hregister
    rw [hregister, hchoices, Nat.mod_mod]

/-! ## A cartridge in use -/

/-- What a cartridge has become after writes to its windows, where `written` was written last to the
program window, or zero if nothing was. -/
structure InUse (c : Cartridge) (written : UInt8) (slotted : Cartridge) : Prop where
  header_eq : slotted.header = c.header
  prg_eq : slotted.prg = c.prg
  complete : slotted.Complete
  register_eq : slotted.bankSelect.toNat = c.registerFor written

namespace InUse

variable {slotted : Cartridge}

theorem start (h : c.Complete) (hfresh : c.bankSelect = 0) : c.InUse 0 c :=
  ⟨rfl, rfl, h, toNat_bankSelect_of_fresh hfresh⟩

/-- The register holds what its own header makes of the value written last. -/
theorem register_self (h : c.InUse written slotted) :
    slotted.bankSelect.toNat = slotted.registerFor written := by
  rw [h.register_eq, registerFor, registerFor, prgBanks, prgBanks, h.header_eq]

theorem writePrg (h : c.InUse written slotted) (value : UInt8) :
    c.InUse value (slotted.writePrg value) := by
  refine ⟨h.header_eq, h.prg_eq, h.complete.writePrg value, ?_⟩
  rw [toNat_bankSelect_writePrg h.register_self, registerFor, registerFor, prgBanks, prgBanks,
    h.header_eq]

theorem writeChr (h : c.InUse written slotted) (addr : UInt16) (value : UInt8) :
    c.InUse written (slotted.writeChr addr value) := by
  refine ⟨?_, ?_, h.complete.writeChr addr value, ?_⟩
  · rw [header_writeChr, h.header_eq]
  · rw [prg_writeChr, h.prg_eq]
  · rw [bankSelect_writeChr, h.register_eq]

/-- The program window shows the byte at the place for the value written last. -/
theorem getElem?_programPlace (h : c.InUse written slotted) (haddr : ¬ addr < 0x8000) :
    c.prg[c.programPlace written addr]? = some (slotted.peekPrg addr) := by
  have hplace : slotted.prgOffset addr = c.programPlace written addr := by
    rw [h.complete.prgOffset_of_register h.register_self haddr, programPlace, programPlace,
      prgBanks, prgBanks, h.header_eq]
  have hlt := h.complete.prgOffset_lt addr
  rw [peekPrg, ← hplace, ← h.prg_eq, Array.getD_eq_getD_getElem?,
    Array.getElem?_eq_getElem hlt, Option.getD_some]

/-- The pattern window shows the byte of pattern ROM at the place for the value written last. -/
theorem getElem?_patternPlace (h : c.InUse written slotted) (hrom : c.header.chrIsRam = false)
    (haddr : addr < 0x2000) :
    slotted.chr[c.patternPlace written addr]? = some (slotted.peekChr addr) := by
  have hplace : slotted.chrOffset addr = c.patternPlace written addr := by
    rw [chrOffset_of_register (h.header_eq ▸ hrom) h.register_self haddr, patternPlace,
      patternPlace, h.header_eq]
  have hlt := h.complete.chrOffset_lt addr
  rw [peekChr, ← hplace, Array.getD_eq_getD_getElem?, Array.getElem?_eq_getElem hlt,
    Option.getD_some]

end InUse

end NesMachine.Cartridge
