import NesMachine.Cartridge.Basic
import NesMachine.Report

/-!
# Cartridge images

An image is a header of 16 bytes, an optional trainer of 512 bytes, the PRG banks and the CHR banks;
anything after them is ignored. Byte 4 of the header counts the PRG banks and byte 5 the CHR banks;
bytes 6 and 7 hold flags and the number of the board; the low bits of byte 10 name the television
system, of which only number 0 is supported. The first thing that is wrong with an image is reported.
-/

set_option autoImplicit false

namespace NesMachine

/-- Why an image is refused. -/
inductive ImageError where
  | badMagic
  | noPrgBanks
  | unsupportedMapper (number : UInt8)
  | unsupportedTvSystem (number : UInt8)
  | truncatedHeader
  | truncatedPrg (expected found : Nat)
  | truncatedChr (expected found : Nat)
  /-- The file with the image could not be read. -/
  | unreadable
  deriving DecidableEq

namespace ImageError

/-- What is told about sections that are too short. -/
private def shortSection (name : String) (expected found : Nat) : String :=
  name ++ " truncated: expected " ++ expected.repr ++ " bytes, found " ++ found.repr

/-- The message for a user. -/
def message : ImageError → String
  | .badMagic => "missing iNES magic \"NES\\x1A\""
  | .noPrgBanks => "header declares zero PRG-ROM banks"
  | .unsupportedMapper number => "unsupported mapper " ++ number.toNat.repr
  | .unsupportedTvSystem number =>
      "unsupported TV system " ++ number.toNat.repr ++ " (only NTSC is supported)"
  | .truncatedHeader => "image shorter than the 16 byte iNES header"
  | .truncatedPrg expected found => shortSection "PRG-ROM" expected found
  | .truncatedChr expected found => shortSection "CHR-ROM" expected found
  | .unreadable => "failed to read cartridge image"

/-- What is told about an image that is no cartridge. -/
def report (e : ImageError) : Report :=
  ⟨"failed to parse cartridge", some e.message⟩

end ImageError

/-- The bytes of a header. -/
def headerLength : Nat := 16

/-- The bytes of a trainer. -/
def trainerLength : Nat := 512

/-- The first bytes of every image: `NES` and the end-of-file control character. -/
def imageMagic : Array UInt8 := #[0x4E, 0x45, 0x53, 0x1A]

namespace Header

/-- Read the header of an image. -/
def ofImage (image : Array UInt8) : Except ImageError Header :=
  let byte := fun i => image.getD i 0
  let flags := byte 6
  let tvSystem := byte 10 &&& 0x03
  let number := flags / 16 + (byte 7 &&& 0xF0)
  if image.size < headerLength then .error .truncatedHeader
  else if image.extract 0 4 ≠ imageMagic then .error .badMagic
  else if byte 4 = 0 then .error .noPrgBanks
  else if tvSystem ≠ 0 then .error (.unsupportedTvSystem tvSystem)
  else
    match Mapper.ofId? number with
    | none => .error (.unsupportedMapper number)
    | some mapper => .ok {
        prgBanks := byte 4
        chrBanks := byte 5
        mirroring := if flags &&& 0x01 = 0 then .horizontal else .vertical
        extendedRam := flags &&& 0x02 != 0
        trainer := flags &&& 0x04 != 0
        mapper }

/-- Where the PRG banks start in an image. -/
def prgStart (h : Header) : Nat :=
  if h.trainer then headerLength + trainerLength else headerLength

/-- The bytes of all PRG banks. -/
def prgSize (h : Header) : Nat :=
  h.prgBanks.toNat * prgBankSize

/-- Where the CHR banks start in an image. -/
def chrStart (h : Header) : Nat :=
  h.prgStart + h.prgSize

/-- The bytes of all CHR banks. -/
def chrSize (h : Header) : Nat :=
  h.chrBanks.toNat * chrBankSize

end Header

namespace Cartridge

/-- The bytes of a section of an image, or the error for the number of bytes that are there. -/
def imageSection (image : Array UInt8) (start size : Nat)
    (short : Nat → Nat → ImageError) : Except ImageError (Array UInt8) :=
  if start + size ≤ image.size then .ok (image.extract start (start + size))
  else .error (short size (image.size - start))

/-- Read a cartridge from its image. -/
def ofImage (image : Array UInt8) : Except ImageError Cartridge := do
  let header ← Header.ofImage image
  let prg ← imageSection image header.prgStart header.prgSize .truncatedPrg
  let chr ←
    if header.chrIsRam then pure (Array.replicate chrBankSize 0)
    else imageSection image header.chrStart header.chrSize .truncatedChr
  return { header, prg, chr, bankSelect := 0 }

/-- Read a cartridge from a file with its image, where `readFile` returns nothing for a file that
cannot be read. -/
def load {m : Type → Type} [Monad m] (readFile : m (Option (Array UInt8))) :
    m (Except ImageError Cartridge) := do
  match ← readFile with
  | none => return .error .unreadable
  | some image => return ofImage image

end Cartridge

end NesMachine
