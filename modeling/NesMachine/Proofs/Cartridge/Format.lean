import NesMachine.Proofs.Cartridge.Accepted

/-!
# The format of cartridge images

The format is described on the bytes of an image, apart from the functions that read it. `Accepted`
says which images have the format, `Describes` which cartridge such an image stands for, `faults`
what can be wrong with an image in the order in which it is reported, and `AgreeWhereRead` when two
images have the same bytes and bits wherever the format looks. `ImageParts.image` puts an image
together from its parts. Main statement: `ImageFormat.ofImage_reads_exactly`.
-/

set_option autoImplicit false

namespace NesMachine

namespace ImageFormat

/-! ## What an image announces -/

section Announcement

variable (image : Array UInt8)

/-- A byte of an image. -/
def byte (i : Nat) : UInt8 :=
  image.getD i 0

/-- The number of the television system. -/
def television : UInt8 :=
  byte image 10 &&& 0x03

/-- The number of the board, low half in byte 6 and high half in byte 7. -/
def board : UInt8 :=
  (byte image 6 >>> 4) ||| (byte image 7 &&& 0xF0)

/-- Where the trainer ends, if there is one, and else the header. -/
def bodyStart : Nat :=
  if byte image 6 &&& 0x04 ≠ 0 then 16 + 512 else 16

/-- The bytes of the PRG banks. -/
def prgLength : Nat :=
  (byte image 4).toNat * 0x4000

/-- The bytes of the CHR banks. -/
def chrLength : Nat :=
  (byte image 5).toNat * 0x2000

/-- Where the PRG banks end. -/
def prgEnd : Nat :=
  bodyStart image + prgLength image

/-- Where the CHR banks end. -/
def chrEnd : Nat :=
  prgEnd image + chrLength image

/-- An image has the format. -/
structure Accepted : Prop where
  header : 16 ≤ image.size
  magic : image.extract 0 4 = #[0x4E, 0x45, 0x53, 0x1A]
  banks : 1 ≤ byte image 4
  television : television image = 0
  board : board image = 0 ∨ board image = 2 ∨ board image = 3
  body : chrEnd image ≤ image.size

/-- The header of a cartridge is the one of an image. -/
structure Announces (h : Header) : Prop where
  prgBanks : h.prgBanks = byte image 4
  chrBanks : h.chrBanks = byte image 5
  mirroring : h.mirroring = if byte image 6 &&& 0x01 = 0 then .horizontal else .vertical
  extendedRam : h.extendedRam = (byte image 6 &&& 0x02 != 0)
  trainer : h.trainer = (byte image 6 &&& 0x04 != 0)
  mapper : h.mapper.id = board image

/-- A cartridge is the one that an image stands for. -/
structure Describes (c : Cartridge) : Prop where
  header : Announces image c.header
  prg : c.prg = image.extract (bodyStart image) (prgEnd image)
  chr : c.chr = if byte image 5 = 0 then Array.replicate 0x2000 0
    else image.extract (prgEnd image) (chrEnd image)
  bankSelect : c.bankSelect = 0

/-- What can be wrong with the header, each with its error, first things first. -/
def headerFaults : List (Bool × ImageError) :=
  [(image.size < 16, .truncatedHeader),
    (image.extract 0 4 ≠ #[0x4E, 0x45, 0x53, 0x1A], .badMagic),
    (byte image 4 = 0, .noPrgBanks),
    (television image ≠ 0, .unsupportedTvSystem (television image)),
    (board image ∉ [0, 2, 3], .unsupportedMapper (board image))]

/-- What can be wrong with the sections, each with its error, first things first. -/
def sectionFaults : List (Bool × ImageError) :=
  [(image.size < prgEnd image,
      .truncatedPrg (prgLength image) (image.size - bodyStart image)),
    (image.size < chrEnd image,
      .truncatedChr (chrLength image) (image.size - prgEnd image))]

/-- The error of the first fault that applies. -/
def firstFault? (faults : List (Bool × ImageError)) : Option ImageError :=
  (faults.find? Prod.fst).map Prod.snd

/-- What can be wrong with an image, each with its error, first things first. -/
def faults : List (Bool × ImageError) :=
  headerFaults image ++ sectionFaults image

/-- The bits of a byte that mean something in an image whose body starts at `start`. -/
def readBits (start i : Nat) : UInt8 :=
  if i < 6 then 0xFF
  else if i = 6 then 0xF7
  else if i = 7 then 0xF0
  else if i = 10 then 0x03
  else if i < start then 0x00
  else 0xFF

/-- Another image has the same bits wherever the format looks, and no fewer bytes than it needs. -/
structure AgreeWhereRead (other : Array UInt8) : Prop where
  size : chrEnd image ≤ other.size
  bits : ∀ i < chrEnd image, byte other i &&& readBits (bodyStart image) i =
    byte image i &&& readBits (bodyStart image) i

end Announcement

/-! ## Reading -/

section Reading

variable {image : Array UInt8}

theorem firstFault?_cons (bad : Bool) (error : ImageError) (rest : List (Bool × ImageError)) :
    firstFault? ((bad, error) :: rest) = if bad then some error else firstFault? rest := by
  cases bad <;> rfl

/-- The first fault of two lists is the one of the first list, if that has one. -/
theorem firstFault?_append (first second : List (Bool × ImageError)) :
    firstFault? (first ++ second) = (firstFault? first).or (firstFault? second) := by
  rw [firstFault?, List.find?_append, Option.map_or]
  rfl

/-- The halves of the board number do not overlap. -/
theorem div_add_eq_or (a b : UInt8) :
    (a / 16 + (b &&& 0xF0) : UInt8) = ((a >>> 4) ||| (b &&& 0xF0) : UInt8) := by
  have hall : ∀ i : Fin 256,
      (UInt8.ofFin i &&& 0xF0).toNat = 2 ^ 4 * ((UInt8.ofFin i).toNat / 16) := by
    decide +kernel
  have hhigh : (b &&& 0xF0).toNat = 2 ^ 4 * (b.toNat / 16) := hall b.toFin
  have hlow : a.toNat / 16 < 2 ^ 4 := by
    have ha := a.toNat_lt
    omega
  have hdiv : (a / 16 : UInt8).toNat = a.toNat / 16 := rfl
  have hshift : (a >>> 4).toNat = a.toNat / 16 := by
    rw [UInt8.toNat_shiftRight, Nat.shiftRight_eq_div_pow]
    rfl
  apply UInt8.toNat_inj.1
  rw [UInt8.toNat_add, UInt8.toNat_or, hhigh, hdiv, hshift, Nat.add_comm, Nat.or_comm,
    ← Nat.two_pow_add_eq_or_of_lt hlow]
  apply Nat.mod_eq_of_lt
  have hb := b.toNat_lt
  omega

theorem ofId?_eq_none_iff {number : UInt8} :
    Mapper.ofId? number = none ↔ number ∉ ([0, 2, 3] : List UInt8) := by
  rw [Mapper.ofId?, List.find?_eq_none]
  simp [Mapper.id, eq_comm (a := number)]

/-- The header is read in the words of the format. -/
theorem header_ofImage_eq (image : Array UInt8) :
    Header.ofImage image =
      if image.size < 16 then .error .truncatedHeader
      else if image.extract 0 4 ≠ #[0x4E, 0x45, 0x53, 0x1A] then .error .badMagic
      else if byte image 4 = 0 then .error .noPrgBanks
      else if television image ≠ 0 then .error (.unsupportedTvSystem (television image))
      else match Mapper.ofId? (board image) with
        | none => .error (.unsupportedMapper (board image))
        | some mapper => .ok {
            prgBanks := byte image 4
            chrBanks := byte image 5
            mirroring := if byte image 6 &&& 0x01 = 0 then .horizontal else .vertical
            extendedRam := byte image 6 &&& 0x02 != 0
            trainer := byte image 6 &&& 0x04 != 0
            mapper } := by
  rw [Header.ofImage]
  simp only [div_add_eq_or]
  rfl

/-- Reading a header ends with the first of its faults, and without one with the header. -/
theorem header_outcome (image : Array UInt8) :
    match firstFault? (headerFaults image) with
    | some error => Header.ofImage image = .error error
    | none => ∃ h, Header.ofImage image = .ok h ∧ Announces image h := by
  rw [header_ofImage_eq, headerFaults]
  simp only [firstFault?_cons, decide_eq_true_eq]
  -- The checks and the faults come in the same order, so they are gone through side by side.
  by_cases hsize : image.size < 16
  · rw [if_pos hsize, if_pos hsize]
  rw [if_neg hsize, if_neg hsize]
  by_cases hmagic : image.extract 0 4 ≠ #[0x4E, 0x45, 0x53, 0x1A]
  · rw [if_pos hmagic, if_pos hmagic]
  rw [if_neg hmagic, if_neg hmagic]
  by_cases hbanks : byte image 4 = 0
  · rw [if_pos hbanks, if_pos hbanks]
  rw [if_neg hbanks, if_neg hbanks]
  by_cases htelevision : television image ≠ 0
  · rw [if_pos htelevision, if_pos htelevision]
  rw [if_neg htelevision, if_neg htelevision]
  cases hmapper : Mapper.ofId? (board image) with
  | none => rw [if_pos (ofId?_eq_none_iff.1 hmapper)]
  | some mapper =>
    have hknown : ¬ board image ∉ ([0, 2, 3] : List UInt8) := by
      rw [← ofId?_eq_none_iff, hmapper]
      exact Option.some_ne_none mapper
    rw [if_neg hknown]
    exact ⟨_, rfl, ⟨rfl, rfl, rfl, rfl, rfl, Mapper.ofId?_eq_some_iff.1 hmapper⟩⟩

namespace Announces

variable {h : Header} (ha : Announces image h)

include ha

theorem prgStart_eq : h.prgStart = bodyStart image := by
  rw [Header.prgStart, ha.trainer, bodyStart]
  simp only [bne_iff_ne]
  rfl

theorem prgSize_eq : h.prgSize = prgLength image := by
  rw [Header.prgSize, ha.prgBanks]
  rfl

theorem chrStart_eq : h.chrStart = prgEnd image := by
  rw [Header.chrStart, ha.prgStart_eq, ha.prgSize_eq]
  rfl

theorem chrSize_eq : h.chrSize = chrLength image := by
  rw [Header.chrSize, ha.chrBanks]
  rfl

/-- An image announces one header. -/
theorem eq {other : Header} (ho : Announces image other) : h = other := by
  have hmapper : h.mapper = other.mapper := by
    have hknown := Mapper.ofId?_eq_some_iff.2 ha.mapper
    rw [Mapper.ofId?_eq_some_iff.2 ho.mapper] at hknown
    exact (Option.some.inj hknown).symm
  obtain ⟨prgBanks, chrBanks, mirroring, extendedRam, trainer, mapper⟩ := h
  obtain ⟨prgBanks', chrBanks', mirroring', extendedRam', trainer', mapper'⟩ := other
  rw [Header.mk.injEq]
  exact ⟨ha.prgBanks.trans ho.prgBanks.symm, ha.chrBanks.trans ho.chrBanks.symm,
    ha.mirroring.trans ho.mirroring.symm, ha.extendedRam.trans ho.extendedRam.symm,
    ha.trainer.trans ho.trainer.symm, hmapper⟩

end Announces

/-- An image describes one cartridge. -/
theorem Describes.eq {c other : Cartridge} (hc : Describes image c)
    (ho : Describes image other) : c = other := by
  obtain ⟨header, prg, chr, bankSelect⟩ := c
  obtain ⟨header', prg', chr', bankSelect'⟩ := other
  rw [Cartridge.mk.injEq]
  exact ⟨hc.header.eq ho.header, hc.prg.trans ho.prg.symm, hc.chr.trans ho.chr.symm,
    hc.bankSelect.trans ho.bankSelect.symm⟩

/-- The PRG banks are a section of the image, or the image ends before they do. -/
theorem Announces.prgSection_eq {h : Header} (ha : Announces image h) :
    Cartridge.imageSection image h.prgStart h.prgSize .truncatedPrg =
      if image.size < prgEnd image then
        .error (.truncatedPrg (prgLength image) (image.size - bodyStart image))
      else .ok (image.extract (bodyStart image) (prgEnd image)) := by
  rw [Cartridge.imageSection, ha.prgStart_eq, ha.prgSize_eq, ← prgEnd]
  by_cases hsize : image.size < prgEnd image
  · rw [if_pos hsize, if_neg (Nat.not_le.2 hsize)]
  · rw [if_neg hsize, if_pos (Nat.not_lt.1 hsize)]

/-- The CHR banks are a section of the image behind the PRG banks. Without CHR banks the pattern
memory is zero, and the section has no bytes that could be missing. -/
theorem Announces.patternSection_eq {h : Header} (ha : Announces image h)
    (hprg : prgEnd image ≤ image.size) :
    Cartridge.patternSection image h =
      if image.size < chrEnd image then
        .error (.truncatedChr (chrLength image) (image.size - prgEnd image))
      else .ok (if byte image 5 = 0 then Array.replicate 0x2000 0
        else image.extract (prgEnd image) (chrEnd image)) := by
  rw [Cartridge.patternSection, Cartridge.imageSection, ha.chrStart_eq, ha.chrSize_eq, ← chrEnd,
    Header.chrIsRam, ha.chrBanks]
  by_cases hram : byte image 5 = 0
  · have hend : chrEnd image = prgEnd image := by
      rw [chrEnd, chrLength, hram]
      rfl
    rw [hend, if_neg (Nat.not_lt.2 hprg), if_pos hram, hram]
    rfl
  · rw [if_neg (by simpa using hram), if_neg hram]
    by_cases hsize : image.size < chrEnd image
    · rw [if_pos hsize, if_neg (Nat.not_le.2 hsize)]
    · rw [if_neg hsize, if_pos (Nat.not_lt.1 hsize)]

/-- Once the header is read, the sections follow. -/
theorem ofImage_of_header {h : Header} (hok : Header.ofImage image = .ok h) :
    Cartridge.ofImage image = (do
      let prg ← Cartridge.imageSection image h.prgStart h.prgSize .truncatedPrg
      let chr ← Cartridge.patternSection image h
      return { header := h, prg, chr, bankSelect := 0 }) := by
  rw [Cartridge.ofImage_eq, hok]
  rfl

/-- Reading an image ends with the first of its faults, and without one with its cartridge. -/
theorem outcome (image : Array UInt8) :
    match firstFault? (faults image) with
    | some error => Cartridge.ofImage image = .error error
    | none => ∃ c, Cartridge.ofImage image = .ok c ∧ Describes image c := by
  have hheader := header_outcome image
  rw [faults, firstFault?_append]
  cases hfirst : firstFault? (headerFaults image) with
  | some error =>
    rw [hfirst] at hheader
    rw [Option.some_or, Cartridge.ofImage_eq, hheader]
    rfl
  | none =>
    rw [hfirst] at hheader
    obtain ⟨h, hok, ha⟩ := hheader
    rw [Option.none_or, sectionFaults, firstFault?_cons, firstFault?_cons, ofImage_of_header hok,
      ha.prgSection_eq]
    simp only [decide_eq_true_eq]
    by_cases hprg : image.size < prgEnd image
    · rw [if_pos hprg, if_pos hprg]
      rfl
    rw [if_neg hprg, if_neg hprg, ha.patternSection_eq (Nat.not_lt.1 hprg)]
    by_cases hchr : image.size < chrEnd image
    · rw [if_pos hchr, if_pos hchr]
      rfl
    rw [if_neg hchr, if_neg hchr]
    exact ⟨_, rfl, ⟨ha, rfl, rfl, rfl⟩⟩

/-- Nothing is wrong with an image exactly if it has the format. -/
theorem firstFault?_eq_none_iff : firstFault? (faults image) = none ↔ Accepted image := by
  have hpos : byte image 4 ≠ 0 ↔ 1 ≤ byte image 4 := by
    rw [UInt8.le_iff_toNat_le, ne_eq, ← UInt8.toNat_inj]
    exact Nat.one_le_iff_ne_zero.symm
  have hend : prgEnd image ≤ chrEnd image := Nat.le_add_right ..
  rw [firstFault?, Option.map_eq_none_iff, List.find?_eq_none]
  simp only [faults, headerFaults, sectionFaults, List.mem_append, List.mem_cons, List.not_mem_nil,
    or_false, or_imp, forall_and, forall_eq, decide_eq_true_eq, Decidable.not_not, Nat.not_lt]
  constructor
  · rintro ⟨⟨hsize, hmagic, hbanks, htelevision, hboard⟩, -, hbody⟩
    exact ⟨hsize, hmagic, hpos.1 hbanks, htelevision, hboard, hbody⟩
  · intro h
    exact ⟨⟨h.header, h.magic, hpos.2 h.banks, h.television, h.board⟩,
      Nat.le_trans hend h.body, h.body⟩

/-- An image is refused with the first of its faults. -/
theorem ofImage_eq_error_iff {error : ImageError} :
    Cartridge.ofImage image = .error error ↔ firstFault? (faults image) = some error := by
  have hend := outcome image
  cases hfirst : firstFault? (faults image) with
  | some first =>
    rw [hfirst] at hend
    rw [hend, Except.error.injEq, Option.some.injEq]
  | none =>
    rw [hfirst] at hend
    obtain ⟨c, hok, -⟩ := hend
    rw [hok]
    simp

/-- The cartridge of an image is the one that it describes, if it has the format. -/
theorem ofImage_eq_ok_iff {c : Cartridge} :
    Cartridge.ofImage image = .ok c ↔ Accepted image ∧ Describes image c := by
  have hend := outcome image
  rw [← firstFault?_eq_none_iff]
  cases hfirst : firstFault? (faults image) with
  | some first =>
    rw [hfirst] at hend
    rw [hend]
    simp
  | none =>
    rw [hfirst] at hend
    obtain ⟨described, hok, hdescribed⟩ := hend
    rw [hok, Except.ok.injEq]
    constructor
    · rintro rfl
      exact ⟨rfl, hdescribed⟩
    · rintro ⟨-, hc⟩
      exact hdescribed.eq hc

end Reading

/-! ## What is not read -/

section Independence

variable {image other : Array UInt8}

/-- Parts of two images are the same if their bytes are. -/
theorem extract_eq_extract {start stop : Nat} (hstop : stop ≤ image.size)
    (hother : stop ≤ other.size)
    (h : ∀ i, start ≤ i → i < stop → byte other i = byte image i) :
    other.extract start stop = image.extract start stop := by
  apply Array.ext
  · simp only [Array.size_extract]
    omega
  · intro i hi hi'
    rw [Array.size_extract] at hi
    have hbyte := h (start + i) (Nat.le_add_right ..) (by omega)
    rw [Array.getElem_extract, Array.getElem_extract]
    simpa [byte, Array.getD, show start + i < image.size by omega,
      show start + i < other.size by omega] using hbyte

theorem and_eq_and_of_mask {a b mask smaller : UInt8} (h : a &&& mask = b &&& mask)
    (hsmaller : mask &&& smaller = smaller) : a &&& smaller = b &&& smaller := by
  rw [← hsmaller, ← UInt8.and_assoc, ← UInt8.and_assoc, h]

theorem header_le_bodyStart (image : Array UInt8) : 16 ≤ bodyStart image := by
  rw [bodyStart]
  split <;> omega

namespace AgreeWhereRead

variable (h : AgreeWhereRead image other)

include h

theorem byte_eq {i : Nat} (hi : i < chrEnd image) (hread : i < 6 ∨ bodyStart image ≤ i) :
    byte other i = byte image i := by
  have hbits := h.bits i hi
  have hall : readBits (bodyStart image) i = 0xFF := by
    have hstart := header_le_bodyStart image
    rw [readBits]
    grind
  have hones : (0xFF : UInt8) = -1 := rfl
  rwa [hall, hones, UInt8.and_neg_one, UInt8.and_neg_one] at hbits

/-- The bits that are read of a byte of the header are the same. -/
theorem header_bits {i : Nat} (hi : i < 16) :
    byte other i &&& readBits (bodyStart image) i =
      byte image i &&& readBits (bodyStart image) i := by
  have hstart := header_le_bodyStart image
  refine h.bits i ?_
  rw [chrEnd, prgEnd]
  omega

theorem flag_eq (flag : UInt8) (hflag : 0xF7 &&& flag = flag) :
    byte other 6 &&& flag = byte image 6 &&& flag :=
  and_eq_and_of_mask (h.header_bits (by decide)) hflag

theorem television_eq : television other = television image := by
  have hread : readBits (bodyStart image) 10 = 0x03 := rfl
  have hbits := h.header_bits (i := 10) (by decide)
  rwa [hread] at hbits

theorem board_eq : board other = board image := by
  have hall : ∀ i : Fin 256, (UInt8.ofFin i &&& 0xF0) >>> 4 = UInt8.ofFin i >>> 4 := by
    decide +kernel
  have hhigh : ∀ b : UInt8, (b &&& 0xF0) >>> 4 = b >>> 4 := fun b => hall b.toFin
  have hseven : readBits (bodyStart image) 7 = 0xF0 := rfl
  have hbits := h.header_bits (i := 7) (by decide)
  rw [hseven] at hbits
  rw [board, board, ← hhigh, h.flag_eq 0xF0 (by decide), hhigh, hbits]

theorem bodyStart_eq : bodyStart other = bodyStart image := by
  rw [bodyStart, bodyStart, h.flag_eq 0x04 (by decide)]

theorem count_eq {i : Nat} (hi : i < 6) : byte other i = byte image i := by
  have hstart := header_le_bodyStart image
  refine h.byte_eq ?_ (.inl hi)
  rw [chrEnd, prgEnd]
  omega

theorem prgEnd_eq : prgEnd other = prgEnd image := by
  rw [prgEnd, prgEnd, h.bodyStart_eq, prgLength, prgLength, h.count_eq (by decide)]

theorem chrEnd_eq : chrEnd other = chrEnd image := by
  rw [chrEnd, chrEnd, h.prgEnd_eq, chrLength, chrLength, h.count_eq (by decide)]

/-- Another image that agrees with one of the format has the format. -/
theorem accepted (ha : Accepted image) : Accepted other := by
  have hbody : 16 ≤ chrEnd image := by
    have hstart := header_le_bodyStart image
    rw [chrEnd, prgEnd]
    omega
  have hsize := h.size
  refine ⟨Nat.le_trans hbody hsize, ?_, ?_, ?_, ?_, ?_⟩
  · rw [← ha.magic]
    have himage := ha.header
    exact extract_eq_extract (by omega) (by omega) fun i _ hi => h.count_eq (by omega)
  · rw [h.count_eq (by decide)]
    exact ha.banks
  · rw [h.television_eq]
    exact ha.television
  · rw [h.board_eq]
    exact ha.board
  · rw [h.chrEnd_eq]
    exact hsize

/-- Another image that agrees with one of the format describes the same cartridge. -/
theorem describes (ha : Accepted image) {c : Cartridge} (hc : Describes image c) :
    Describes other c := by
  have hsize := h.size
  have hbody := ha.body
  have hprg : prgEnd image ≤ chrEnd image := Nat.le_add_right ..
  have hstart : bodyStart image ≤ prgEnd image := Nat.le_add_right ..
  have hcounts := fun i (hi : i < 6) => h.count_eq hi
  refine ⟨⟨?_, ?_, ?_, ?_, ?_, ?_⟩, ?_, ?_, hc.bankSelect⟩
  · rw [hcounts 4 (by decide)]
    exact hc.header.prgBanks
  · rw [hcounts 5 (by decide)]
    exact hc.header.chrBanks
  · rw [h.flag_eq 0x01 (by decide)]
    exact hc.header.mirroring
  · rw [h.flag_eq 0x02 (by decide)]
    exact hc.header.extendedRam
  · rw [h.flag_eq 0x04 (by decide)]
    exact hc.header.trainer
  · rw [h.board_eq]
    exact hc.header.mapper
  · rw [hc.prg, h.bodyStart_eq, h.prgEnd_eq]
    exact (extract_eq_extract (by omega) (by omega) fun i hfirst hlast =>
      h.byte_eq (by omega) (.inr hfirst)).symm
  · rw [hc.chr, hcounts 5 (by decide), h.prgEnd_eq, h.chrEnd_eq,
      extract_eq_extract hbody hsize fun i hfirst hlast => h.byte_eq hlast (.inr (by omega))]

end AgreeWhereRead

end Independence

/-! ## Putting an image together -/

/-- The parts of an image, with the sizes that its header announces. The format does not read some
bits and bytes of the header; `spare` is what stands there. -/
structure ImageParts where
  header : Header
  spare : Nat → UInt8
  trainer : Array UInt8
  prg : Array UInt8
  chr : Array UInt8
  trailing : Array UInt8
  prgBanks_ne_zero : header.prgBanks ≠ 0
  size_trainer : trainer.size = if header.trainer then 512 else 0
  size_prg : prg.size = header.prgBanks.toNat * 0x4000
  size_chr : chr.size = header.chrBanks.toNat * 0x2000

/-- The flags, and the low half of the board's number above them. -/
def flagBits (mapper : Mapper) (mirroring : Mirroring) (extendedRam trainer : Bool) : UInt8 :=
  (mapper.id <<< 4) ||| (if mirroring = .vertical then 0x01 else 0x00) |||
    (if extendedRam then 0x02 else 0x00) ||| (if trainer then 0x04 else 0x00)

/-- The byte of the header with the flags and the low half of the board's number. -/
def flagByte (h : Header) (spare : UInt8) : UInt8 :=
  flagBits h.mapper h.mirroring h.extendedRam h.trainer ||| (spare &&& 0x08)

/-- The byte of the header with the high half of the board's number. -/
def boardByte (h : Header) (spare : UInt8) : UInt8 :=
  (h.mapper.id &&& 0xF0) ||| (spare &&& 0x0F)

/-- Spare bits are not seen under a mask without them. -/
theorem or_spare_and {bits mask : UInt8} (h : bits &&& mask = 0) (used spare : UInt8) :
    (used ||| (spare &&& bits)) &&& mask = used &&& mask := by
  have hspare : (spare &&& bits) &&& mask = 0 := by
    rw [UInt8.and_assoc, h, UInt8.and_zero]
  have hzero := congrArg UInt8.toNat hspare
  rw [UInt8.toNat_and, UInt8.toNat_zero] at hzero
  apply UInt8.toNat_inj.1
  rw [UInt8.toNat_and, UInt8.toNat_or, Nat.and_or_distrib_right, hzero, Nat.or_zero,
    UInt8.toNat_and]

/-- The flags can be told apart. -/
theorem flags_flagBits (mapper : Mapper) (mirroring : Mirroring) (extendedRam trainer : Bool) :
    let bits := flagBits mapper mirroring extendedRam trainer
    (if bits &&& 0x01 = 0 then Mirroring.horizontal else .vertical) = mirroring ∧
      (bits &&& 0x02 != 0) = extendedRam ∧ (bits &&& 0x04 != 0) = trainer ∧
      (bits >>> 4) ||| (mapper.id &&& 0xF0) = mapper.id := by
  cases mapper <;> cases mirroring <;> cases extendedRam <;> cases trainer <;> decide

/-- The flags are read back from their byte, whatever stands in the spare bit. -/
theorem flags_flagByte (h : Header) (spare : UInt8) :
    (if flagByte h spare &&& 0x01 = 0 then Mirroring.horizontal else .vertical) = h.mirroring ∧
      (flagByte h spare &&& 0x02 != 0) = h.extendedRam ∧
      (flagByte h spare &&& 0x04 != 0) = h.trainer := by
  obtain ⟨hmirroring, hram, htrainer, -⟩ :=
    flags_flagBits h.mapper h.mirroring h.extendedRam h.trainer
  rw [flagByte, or_spare_and (by decide), or_spare_and (by decide), or_spare_and (by decide)]
  exact ⟨hmirroring, hram, htrainer⟩

/-- The number of the board is read back from its two bytes, whatever stands in the spare bits. -/
theorem board_flagByte (h : Header) (spare other : UInt8) :
    (flagByte h spare >>> 4) ||| (boardByte h other &&& 0xF0) = h.mapper.id := by
  obtain ⟨-, -, -, hboard⟩ := flags_flagBits h.mapper h.mirroring h.extendedRam h.trainer
  have hspare : (spare &&& 0x08) >>> 4 = 0 := by
    rw [UInt8.shiftRight_and]
    exact UInt8.and_zero
  rw [flagByte, boardByte, or_spare_and (by decide), UInt8.and_assoc, UInt8.and_self,
    UInt8.shiftRight_or, hspare, UInt8.or_zero]
  exact hboard

namespace ImageParts

variable (p : ImageParts)

/-- The sixteen bytes of the header. -/
def headerBytes : Array UInt8 :=
  #[0x4E, 0x45, 0x53, 0x1A, p.header.prgBanks, p.header.chrBanks, flagByte p.header (p.spare 6),
    boardByte p.header (p.spare 7), p.spare 8, p.spare 9, p.spare 10 &&& 0xFC, p.spare 11,
    p.spare 12, p.spare 13, p.spare 14, p.spare 15]

/-- The image with these parts. -/
def image : Array UInt8 :=
  p.headerBytes ++ p.trainer ++ p.prg ++ p.chr ++ p.trailing

/-- The cartridge of these parts. -/
def cartridge : Cartridge where
  header := p.header
  prg := p.prg
  chr := if p.header.chrBanks = 0 then Array.replicate 0x2000 0 else p.chr
  bankSelect := 0

theorem byte_image {i : Nat} (hi : i < 16) : byte p.image i = p.headerBytes.getD i 0 := by
  have hsize : p.headerBytes.size = 16 := rfl
  rw [byte, image, Array.getD_eq_getD_getElem?, Array.getD_eq_getD_getElem?,
    Array.append_assoc, Array.append_assoc, Array.append_assoc,
    Array.getElem?_append_left (by omega)]

theorem prgLength_image : prgLength p.image = p.prg.size := by
  rw [prgLength, p.byte_image (by decide), p.size_prg]
  rfl

theorem chrLength_image : chrLength p.image = p.chr.size := by
  rw [chrLength, p.byte_image (by decide), p.size_chr]
  rfl

theorem bodyStart_image : bodyStart p.image = (p.headerBytes ++ p.trainer).size := by
  have hsize : p.headerBytes.size = 16 := rfl
  have htrainer := (flags_flagByte p.header (p.spare 6)).2.2
  have hbyte : byte p.image 6 = flagByte p.header (p.spare 6) := p.byte_image (by decide)
  rw [Array.size_append, hsize, p.size_trainer, ← htrainer, bodyStart, hbyte]
  simp only [bne_iff_ne]
  split <;> rfl

theorem prgEnd_image : prgEnd p.image = (p.headerBytes ++ p.trainer ++ p.prg).size := by
  rw [prgEnd, p.bodyStart_image, p.prgLength_image]
  exact Array.size_append.symm

theorem chrEnd_image : chrEnd p.image = (p.headerBytes ++ p.trainer ++ p.prg ++ p.chr).size := by
  rw [chrEnd, p.prgEnd_image, p.chrLength_image]
  exact Array.size_append.symm

end ImageParts

theorem extract_middle (before part behind : Array UInt8) :
    (before ++ part ++ behind).extract before.size (before ++ part).size = part := by
  rw [Array.append_assoc, Array.size_append, Array.extract_append_right,
    Array.extract_append_left, Array.extract_size]

namespace ImageParts

variable (p : ImageParts)

/-- The image has the format. -/
theorem accepted : Accepted p.image := by
  have hsize : p.headerBytes.size = 16 := rfl
  have hbody : chrEnd p.image ≤ p.image.size := by
    have hend : p.image.size = (p.headerBytes ++ p.trainer ++ p.prg ++ p.chr).size + _ :=
      Array.size_append
    rw [p.chrEnd_image, hend]
    exact Nat.le_add_right ..
  have hheader : 16 ≤ chrEnd p.image := by
    rw [p.chrEnd_image]
    simp only [Array.size_append]
    omega
  have hprg : byte p.image 4 = p.header.prgBanks := p.byte_image (by decide)
  have hflags : byte p.image 6 = flagByte p.header (p.spare 6) := p.byte_image (by decide)
  have hhigh : byte p.image 7 = boardByte p.header (p.spare 7) := p.byte_image (by decide)
  have hsystem : byte p.image 10 = p.spare 10 &&& 0xFC := p.byte_image (by decide)
  refine ⟨Nat.le_trans hheader hbody, ?_, ?_, ?_, ?_, hbody⟩
  · rw [image, Array.append_assoc, Array.append_assoc, Array.append_assoc, Array.extract_append,
      hsize]
    simp [headerBytes]
  · rw [hprg, UInt8.le_iff_toNat_le]
    exact Nat.one_le_iff_ne_zero.2 fun hzero => p.prgBanks_ne_zero (UInt8.toNat_inj.1 hzero)
  · rw [television, hsystem, UInt8.and_assoc]
    exact UInt8.and_zero
  · rw [board, hflags, hhigh, board_flagByte]
    cases p.header.mapper <;> decide

/-- The image describes the cartridge. -/
theorem describes : Describes p.image p.cartridge := by
  have hflags : byte p.image 6 = flagByte p.header (p.spare 6) := p.byte_image (by decide)
  have hhigh : byte p.image 7 = boardByte p.header (p.spare 7) := p.byte_image (by decide)
  have hchr : byte p.image 5 = p.header.chrBanks := p.byte_image (by decide)
  have hprg : byte p.image 4 = p.header.prgBanks := p.byte_image (by decide)
  have hsplit : p.image = p.headerBytes ++ p.trainer ++ p.prg ++ (p.chr ++ p.trailing) :=
    Array.append_assoc
  obtain ⟨hmirroring, hram, htrainer⟩ := flags_flagByte p.header (p.spare 6)
  refine ⟨⟨hprg.symm, hchr.symm, ?_, ?_, ?_, ?_⟩, ?_, ?_, rfl⟩
  · rw [hflags, hmirroring]
    rfl
  · rw [hflags, hram]
    rfl
  · rw [hflags, htrainer]
    rfl
  · rw [board, hflags, hhigh, board_flagByte]
    rfl
  · rw [p.bodyStart_image, p.prgEnd_image, hsplit, extract_middle]
    rfl
  · rw [hchr, p.prgEnd_image, p.chrEnd_image, image, extract_middle]
    rfl

end ImageParts

/-! ## Main statement -/

/-- An image is read exactly by the format. -/
structure ReadsExactly (image : Array UInt8) : Prop where
  accepted_iff : (∃ c, Cartridge.ofImage image = .ok c) ↔ Accepted image
  describes : ∀ c, Cartridge.ofImage image = .ok c → Describes image c
  /-- The first fault is the one that is reported. -/
  refused_iff : ∀ error,
    Cartridge.ofImage image = .error error ↔ firstFault? (faults image) = some error
  /-- What the format does not look at makes no difference. -/
  unread : ∀ c other, Cartridge.ofImage image = .ok c → AgreeWhereRead image other →
    Cartridge.ofImage other = .ok c

/-- Every image is read exactly by the format, and an image that is put together from parts is read
back as these parts. -/
theorem ofImage_reads_exactly :
    (∀ image, ReadsExactly image) ∧
      ∀ p : ImageParts, Cartridge.ofImage p.image = .ok p.cartridge := by
  constructor
  · intro image
    refine ⟨?_, ?_, fun error => ofImage_eq_error_iff, ?_⟩
    · rw [← firstFault?_eq_none_iff]
      have hend := outcome image
      cases hfirst : firstFault? (faults image) with
      | some error =>
        rw [hfirst] at hend
        simp [hend]
      | none =>
        rw [hfirst] at hend
        obtain ⟨c, hok, -⟩ := hend
        simp [hok]
    · intro c hc
      exact (ofImage_eq_ok_iff.1 hc).2
    · intro c other hc hagree
      obtain ⟨haccepted, hdescribes⟩ := ofImage_eq_ok_iff.1 hc
      exact ofImage_eq_ok_iff.2 ⟨hagree.accepted haccepted, hagree.describes haccepted hdescribes⟩
  · intro p
    exact ofImage_eq_ok_iff.2 ⟨p.accepted, p.describes⟩

/-- One bank of each kind behind a trainer: the spare bits may be set, and bytes behind the last
bank make no difference. -/
theorem ofImage_reads_exactly_with_trainer :
    let p : ImageParts := {
      header := ⟨1, 1, .vertical, true, true, .cnrom⟩
      spare := fun _ => 0xFF
      trainer := Array.replicate 512 0xAA
      prg := Array.replicate 0x4000 0xEA
      chr := Array.replicate 0x2000 0x55
      trailing := #[]
      prgBanks_ne_zero := by decide
      size_trainer := Array.size_replicate
      size_prg := Array.size_replicate
      size_chr := Array.size_replicate }
    Cartridge.ofImage p.image = .ok p.cartridge ∧ AgreeWhereRead p.image (p.image ++ #[0x77]) ∧
      Cartridge.ofImage (p.image ++ #[0x77]) = .ok p.cartridge := by
  intro p
  have hok := ofImage_reads_exactly.2 p
  have hagree : AgreeWhereRead p.image (p.image ++ #[0x77]) := by
    have hbody := p.accepted.body
    refine ⟨?_, fun i hi => ?_⟩
    · rw [Array.size_append]
      exact Nat.le_add_right_of_le hbody
    · have hbyte : byte (p.image ++ #[0x77]) i = byte p.image i := by
        rw [byte, byte, Array.getD_eq_getD_getElem?, Array.getD_eq_getD_getElem?,
          Array.getElem?_append_left (Nat.lt_of_lt_of_le hi hbody)]
      rw [hbyte]
  exact ⟨hok, hagree, (ofImage_reads_exactly.1 p.image).unread _ _ hok hagree⟩

end ImageFormat

end NesMachine
