import NesMachine.Cartridge.Image
import NesMachine.Cartridge.Window

/-!
# Accepted cartridges

A cartridge that is read from an image has the bytes that its header announces, and its register
selects bank zero (`Cartridge.complete_of_ofImage`, `Cartridge.bankSelect_of_ofImage`). Writes to
the windows keep a cartridge complete (`Cartridge.Complete.writePrg`,
`Cartridge.Complete.writeChr`), and a complete cartridge answers every address of both windows from
stored bytes (`Cartridge.Complete.prgOffset_lt`, `Cartridge.Complete.chrOffset_lt`).
-/

set_option autoImplicit false

namespace NesMachine

theorem bind_eq_ok_iff {ε α γ : Type} {x : Except ε α} {f : α → Except ε γ} {result : γ} :
    x >>= f = .ok result ↔ ∃ a, x = .ok a ∧ f a = .ok result := by
  cases x with
  | error e => simp [bind, Except.bind]
  | ok a => simp [bind, Except.bind]

/-- An accepted header announces a program bank. -/
theorem Header.prgBanks_ne_zero_of_ofImage {image : Array UInt8} {h : Header}
    (hok : Header.ofImage image = .ok h) : h.prgBanks ≠ 0 := by
  rw [Header.ofImage] at hok
  dsimp only at hok
  -- only the last of the checks returns a header, and the third has excluded zero
  split at hok
  · cases hok
  · split at hok
    · cases hok
    · split at hok
      · cases hok
      · rename_i hbanks
        split at hok
        · cases hok
        · split at hok
          · cases hok
          · cases hok
            exact hbanks

namespace Cartridge

/-! ## Reading an image -/

/-- A section is accepted when the image has all of it. -/
theorem imageSection_eq_ok_iff {image bytes : Array UInt8} {start size : Nat}
    {short : Nat → Nat → ImageError} :
    imageSection image start size short = .ok bytes ↔
      start + size ≤ image.size ∧ image.extract start (start + size) = bytes := by
  rw [imageSection]
  split
  · rename_i hsize
    simp [hsize]
  · rename_i hsize
    simp [hsize]

theorem size_of_imageSection {image bytes : Array UInt8} {start size : Nat}
    {short : Nat → Nat → ImageError} (h : imageSection image start size short = .ok bytes) :
    bytes.size = size := by
  obtain ⟨hsize, rfl⟩ := imageSection_eq_ok_iff.1 h
  rw [Array.size_extract]
  omega

/-- The bytes of the pattern memory, or the error for the number of bytes that are there. -/
def patternSection (image : Array UInt8) (header : Header) : Except ImageError (Array UInt8) :=
  if header.chrIsRam then .ok (Array.replicate chrBankSize 0)
  else imageSection image header.chrStart header.chrSize .truncatedChr

/-- A cartridge is read from an image by its header and its two sections. -/
theorem ofImage_eq (image : Array UInt8) :
    ofImage image = (do
      let header ← Header.ofImage image
      let prg ← imageSection image header.prgStart header.prgSize .truncatedPrg
      let chr ← patternSection image header
      return { header, prg, chr, bankSelect := 0 }) := by
  unfold ofImage patternSection
  congr 1
  funext header
  congr 1
  funext prg
  cases header.chrIsRam <;> rfl

/-- What an accepted cartridge was read from. -/
theorem ofImage_eq_ok_iff {image : Array UInt8} {c : Cartridge} :
    ofImage image = .ok c ↔ Header.ofImage image = .ok c.header ∧
      imageSection image c.header.prgStart c.header.prgSize .truncatedPrg = .ok c.prg ∧
      patternSection image c.header = .ok c.chr ∧ c.bankSelect = 0 := by
  rw [ofImage_eq]
  constructor
  · intro h
    obtain ⟨header, hheader, h⟩ := bind_eq_ok_iff.1 h
    obtain ⟨prg, hprg, h⟩ := bind_eq_ok_iff.1 h
    obtain ⟨chr, hchr, h⟩ := bind_eq_ok_iff.1 h
    obtain rfl := Except.ok.inj h
    exact ⟨hheader, hprg, hchr, rfl⟩
  · obtain ⟨header, prg, chr, bankSelect⟩ := c
    rintro ⟨hheader, hprg, hchr, rfl⟩
    exact bind_eq_ok_iff.2 ⟨header, hheader, bind_eq_ok_iff.2 ⟨prg, hprg,
      bind_eq_ok_iff.2 ⟨chr, hchr, rfl⟩⟩⟩

theorem bankSelect_of_ofImage {image : Array UInt8} {c : Cartridge} (h : ofImage image = .ok c) :
    c.bankSelect = 0 :=
  (ofImage_eq_ok_iff.1 h).2.2.2

/-! ## Complete cartridges -/

/-- A cartridge with all the bytes that its header announces, among them a program bank. -/
structure Complete (c : Cartridge) : Prop where
  prgBanks_pos : 0 < c.prgBanks
  prg_size : c.prg.size = c.prgBanks * prgBankSize
  chr_size : c.chr.size = c.chrChoices * chrBankSize

/-- Writable pattern memory has one bank. -/
theorem chrChoices_of_chrIsRam {c : Cartridge} (hram : c.header.chrIsRam = true) :
    c.chrChoices = 1 := by
  have hbanks : c.header.chrBanks = 0 := by simpa [Header.chrIsRam] using hram
  rw [chrChoices, hbanks]
  rfl

/-- Pattern ROM has the banks that the header announces. -/
theorem chrChoices_of_not_chrIsRam {c : Cartridge} (hrom : c.header.chrIsRam = false) :
    c.chrChoices = c.header.chrBanks.toNat := by
  have hbanks : c.header.chrBanks ≠ 0 := by simpa [Header.chrIsRam] using hrom
  have hpos : c.header.chrBanks.toNat ≠ 0 := fun hzero => hbanks (UInt8.toNat_inj.1 hzero)
  exact Nat.max_eq_left (Nat.pos_of_ne_zero hpos)

/-- A cartridge from an image is complete. -/
theorem complete_of_ofImage {image : Array UInt8} {c : Cartridge} (h : ofImage image = .ok c) :
    c.Complete := by
  obtain ⟨hheader, hprg, hchr, -⟩ := ofImage_eq_ok_iff.1 h
  refine ⟨?_, size_of_imageSection hprg, ?_⟩
  · rw [prgBanks, Nat.pos_iff_ne_zero]
    exact fun hzero => Header.prgBanks_ne_zero_of_ofImage hheader (UInt8.toNat_inj.1 hzero)
  · rw [patternSection] at hchr
    split at hchr
    · rename_i hram
      rw [← Except.ok.inj hchr, Array.size_replicate, chrChoices_of_chrIsRam hram, Nat.one_mul]
    · rename_i hrom
      rw [size_of_imageSection hchr, chrChoices_of_not_chrIsRam (Bool.not_eq_true _ ▸ hrom)]
      rfl

/-! ## Putting an image together -/

/-- The header of an image for a board and its banks. -/
def headerBytes (mapper : Mapper) (prgBanks chrBanks : UInt8) : Array UInt8 :=
  #[0x4E, 0x45, 0x53, 0x1A, prgBanks, chrBanks, mapper.id * 16, 0, 0, 0, 0, 0, 0, 0, 0, 0]

theorem getD_headerBytes_append (mapper : Mapper) (prgBanks chrBanks : UInt8) (body : Array UInt8)
    {i : Nat} (hi : i < headerLength) :
    (headerBytes mapper prgBanks chrBanks ++ body).getD i 0 =
      (headerBytes mapper prgBanks chrBanks).getD i 0 := by
  rw [Array.getD_eq_getD_getElem?, Array.getD_eq_getD_getElem?, Array.getElem?_append_left hi]

/-- The header is accepted with any body. -/
theorem ofImage_headerBytes_append (mapper : Mapper) {prgBanks : UInt8} (hprg : prgBanks ≠ 0)
    (chrBanks : UInt8) (body : Array UInt8) :
    Header.ofImage (headerBytes mapper prgBanks chrBanks ++ body) =
      .ok ⟨prgBanks, chrBanks, .horizontal, false, false, mapper⟩ := by
  have hmagic : (headerBytes mapper prgBanks chrBanks ++ body).extract 0 4 = imageMagic := by
    simp [headerBytes, imageMagic, Array.extract_append]
  have hsize : ¬ (headerBytes mapper prgBanks chrBanks ++ body).size < headerLength := by
    simp [headerBytes, headerLength]
  have hbyte := fun i => getD_headerBytes_append mapper prgBanks chrBanks body (i := i)
  have hprgBanks := hbyte 4 (by decide)
  have hchrBanks := hbyte 5 (by decide)
  have hflags := hbyte 6 (by decide)
  have hnumber := hbyte 7 (by decide)
  have htvSystem := hbyte 10 (by decide)
  rw [Header.ofImage]
  rw [if_neg hsize, if_neg (not_not_intro hmagic)]
  simp only [hprgBanks, hchrBanks, hflags, hnumber, htvSystem]
  cases mapper <;> simp +decide [headerBytes, hprg, Mapper.id, Mapper.ofId?]

/-- An image of a header and as many bytes as it announces is accepted. Its program memory is the
first part of the body. -/
theorem ofImage_of_body (mapper : Mapper) (prgBanks chrBanks : UInt8) (hprg : prgBanks ≠ 0)
    {body : Array UInt8}
    (hbody : body.size = prgBanks.toNat * prgBankSize + chrBanks.toNat * chrBankSize) :
    ∃ chr, ofImage (headerBytes mapper prgBanks chrBanks ++ body) =
      .ok ⟨⟨prgBanks, chrBanks, .horizontal, false, false, mapper⟩,
        body.extract 0 (prgBanks.toNat * prgBankSize), chr, 0⟩ := by
  have hheader := ofImage_headerBytes_append mapper hprg chrBanks body
  -- What the header announces is all that the sections depend on.
  generalize hannounced : (⟨prgBanks, chrBanks, .horizontal, false, false, mapper⟩ : Header) =
    header at hheader ⊢
  have hprgStart : header.prgStart = headerLength := by rw [← hannounced]; rfl
  have hprgSize : header.prgSize = prgBanks.toNat * prgBankSize := by rw [← hannounced]; rfl
  have hchrSize : header.chrSize = chrBanks.toNat * chrBankSize := by rw [← hannounced]; rfl
  have hsize : (headerBytes mapper prgBanks chrBanks ++ body).size = headerLength + body.size :=
    Array.size_append
  have hprgSection : imageSection (headerBytes mapper prgBanks chrBanks ++ body) header.prgStart
      header.prgSize .truncatedPrg = .ok (body.extract 0 (prgBanks.toNat * prgBankSize)) := by
    refine imageSection_eq_ok_iff.2 ⟨by omega, ?_⟩
    have hheaderSize : (headerBytes mapper prgBanks chrBanks).size = headerLength := rfl
    rw [hprgStart, hprgSize, Array.extract_append, hheaderSize, Nat.sub_self,
      Nat.add_sub_cancel_left, Array.extract_empty_of_size_le_start (Nat.le_of_eq hheaderSize),
      Array.empty_append]
  obtain ⟨chr, hchr⟩ : ∃ chr, patternSection (headerBytes mapper prgBanks chrBanks ++ body)
      header = .ok chr := by
    -- Writable pattern memory takes no bytes of the image; pattern ROM ends where the body ends.
    rw [patternSection]
    split
    · exact ⟨_, rfl⟩
    · exact ⟨_, imageSection_eq_ok_iff.2 ⟨by rw [Header.chrStart]; omega, rfl⟩⟩
  exact ⟨chr, ofImage_eq_ok_iff.2 ⟨hheader, hprgSection, hchr, rfl⟩⟩

/-- An image with one bank of `NOP` instructions is accepted, and its program memory holds nothing
else. -/
theorem exists_ofImage_of_nops_only :
    ∃ c, ofImage (headerBytes .nrom 1 0 ++ Array.replicate 0x4000 0xEA) = .ok c ∧
      ∀ {place : Nat} {byte : UInt8}, c.prg[place]? = some byte → byte = 0xEA := by
  have hbody : (Array.replicate 0x4000 0xEA : Array UInt8).size =
      (1 : UInt8).toNat * prgBankSize + (0 : UInt8).toNat * chrBankSize := by
    simp [prgBankSize]
  obtain ⟨chr, himage⟩ := ofImage_of_body .nrom 1 0 (by decide) hbody
  refine ⟨_, himage, ?_⟩
  intro place byte hbyte
  obtain ⟨hplace, rfl⟩ := Array.getElem?_eq_some_iff.1 hbyte
  rw [Array.getElem_extract, Array.getElem_replicate]

theorem exists_ofImage_of_nops :
    ∃ c, ofImage (headerBytes .nrom 1 0 ++ Array.replicate 0x4000 0xEA) = .ok c := by
  obtain ⟨c, himage, -⟩ := exists_ofImage_of_nops_only
  exact ⟨c, himage⟩

section Windows

variable {c : Cartridge}

@[simp] theorem chr_writePrg (value : UInt8) : (c.writePrg value).chr = c.chr := rfl

@[simp] theorem header_writeChr (addr : UInt16) (value : UInt8) :
    (c.writeChr addr value).header = c.header := by
  rw [writeChr]
  split <;> rfl

@[simp] theorem prg_writeChr (addr : UInt16) (value : UInt8) :
    (c.writeChr addr value).prg = c.prg := by
  rw [writeChr]
  split <;> rfl

@[simp] theorem bankSelect_writeChr (addr : UInt16) (value : UInt8) :
    (c.writeChr addr value).bankSelect = c.bankSelect := by
  rw [writeChr]
  split <;> rfl

@[simp] theorem size_chr_writeChr (addr : UInt16) (value : UInt8) :
    (c.writeChr addr value).chr.size = c.chr.size := by
  rw [writeChr]
  split
  · exact Array.size_setIfInBounds ..
  · rfl

theorem Complete.writePrg (h : c.Complete) (value : UInt8) : (c.writePrg value).Complete :=
  ⟨h.prgBanks_pos, h.prg_size, h.chr_size⟩

theorem Complete.writeChr (h : c.Complete) (addr : UInt16) (value : UInt8) :
    (c.writeChr addr value).Complete := by
  refine ⟨?_, ?_, ?_⟩
  · rw [prgBanks, header_writeChr]
    exact h.prgBanks_pos
  · rw [prgBanks, header_writeChr, prg_writeChr]
    exact h.prg_size
  · rw [chrChoices, header_writeChr, size_chr_writeChr]
    exact h.chr_size

/-- A byte of a bank is among the bytes of all banks. -/
theorem bank_offset_lt {bank banks size within : Nat} (hbank : bank < banks)
    (hwithin : within < size) : bank * size + within < banks * size :=
  calc bank * size + within < bank * size + size := Nat.add_lt_add_left hwithin _
    _ = (bank + 1) * size := (Nat.succ_mul bank size).symm
    _ ≤ banks * size := Nat.mul_le_mul_right size hbank

/-- Every address of the program window has a stored byte. -/
theorem Complete.prgOffset_lt (h : c.Complete) (addr : UInt16) :
    c.prgOffset addr < c.prg.size := by
  have hpos := h.prgBanks_pos
  have hwithin : addr.toNat % prgBankSize < prgBankSize := Nat.mod_lt _ (by decide)
  rw [h.prg_size, prgOffset]
  cases c.header.mapper with
  | uxrom =>
    refine bank_offset_lt ?_ hwithin
    split
    · exact Nat.mod_lt _ hpos
    · omega
  | nrom | cnrom =>
    dsimp only
    split
    · rename_i hmany
      exact Nat.lt_of_lt_of_le (Nat.mod_lt _ (by decide)) (Nat.mul_le_mul_right prgBankSize hmany)
    · exact Nat.lt_of_lt_of_le hwithin (Nat.le_mul_of_pos_left prgBankSize hpos)

/-- Every address of the pattern window has a stored byte. -/
theorem Complete.chrOffset_lt (h : c.Complete) (addr : UInt16) :
    c.chrOffset addr < c.chr.size := by
  have hpos : 0 < c.chrChoices := Nat.le_max_right ..
  have hwithin : addr.toNat % chrBankSize < chrBankSize := Nat.mod_lt _ (by decide)
  rw [h.chr_size, chrOffset]
  cases c.header.mapper with
  | cnrom => exact bank_offset_lt (Nat.mod_lt _ hpos) hwithin
  | nrom | uxrom => exact Nat.lt_of_lt_of_le hwithin (Nat.le_mul_of_pos_left chrBankSize hpos)

end Windows

end Cartridge

end NesMachine
