import NesMachine.Proofs.Guarded.Processor
import NesMachine.Trace.Run

/-!
# Guarded reading

What a trace run reads besides the bus: the image of the cartridge, the instruction that is about to
be executed, and the lines of the reference log. The bytes of a header are there once the image is
known to be as long as one (`Header.guardedOfImage_eq`), decoding is total on a bus that answers
every peek (`guardedDecodeAt_eq`), and the count of a line's entries fits a byte if the line has at
most 255 recognised columns (`TraceLine.guardedRead_eq`).
-/

set_option autoImplicit false

namespace NesMachine

open Guarded

/-! ## Images -/

/-- Read the header of an image. -/
def Header.guardedOfImage (image : Array UInt8) : Guarded (Except ImageError Header) :=
  if image.size < headerLength then return .error .truncatedHeader
  else do
    let magic ← slice image 0 4
    let prgBanks ← element image 4
    let chrBanks ← element image 5
    let flags ← element image 6
    let upper ← element image 7
    let system ← element image 10
    let tvSystem := system &&& 0x03
    let number := flags / 16 + (upper &&& 0xF0)
    if magic ≠ imageMagic then return .error .badMagic
    else if prgBanks = 0 then return .error .noPrgBanks
    else if tvSystem ≠ 0 then return .error (.unsupportedTvSystem tvSystem)
    else
      match Mapper.ofId? number with
      | none => return .error (.unsupportedMapper number)
      | some mapper => return .ok {
          prgBanks
          chrBanks
          mirroring := if flags &&& 0x01 = 0 then .horizontal else .vertical
          extendedRam := flags &&& 0x02 != 0
          trainer := flags &&& 0x04 != 0
          mapper }

/-- A header is read without a hazard. -/
theorem Header.guardedOfImage_eq (image : Array UInt8) :
    Header.guardedOfImage image = .ok (Header.ofImage image) := by
  rw [guardedOfImage, ofImage]
  split
  · rfl
  · rename_i hsize
    rw [headerLength] at hsize
    rw [slice_eq_ok (by omega) (by omega), element_eq_getD (i := 4) (by omega) 0,
      element_eq_getD (i := 5) (by omega) 0, element_eq_getD (i := 6) (by omega) 0,
      element_eq_getD (i := 7) (by omega) 0, element_eq_getD (i := 10) (by omega) 0]
    simp only [ok_bind]
    split
    · rfl
    · split
      · rfl
      · split
        · rfl
        · cases Mapper.ofId? (image.getD 6 0 / 16 + (image.getD 7 0 &&& 0xF0)) with
          | none => rfl
          | some mapper => rfl

namespace Cartridge

/-- A section of an image. Its end is a machine word, which has at least 32 bits. -/
def guardedSection (image : Array UInt8) (start size : Nat) (short : Nat → Nat → ImageError) :
    Guarded (Except ImageError (Array UInt8)) := do
  let _stop ← sum UInt32.size start size
  return imageSection image start size short

/-- The bytes of the pattern memory. -/
def guardedPattern (image : Array UInt8) (header : Header) :
    Guarded (Except ImageError (Array UInt8)) :=
  if header.chrIsRam then return .ok (Array.replicate chrBankSize 0)
  else guardedSection image header.chrStart header.chrSize .truncatedChr

/-- Read a cartridge from its image. -/
def guardedOfImage (image : Array UInt8) : Guarded (Except ImageError Cartridge) := do
  match ← Header.guardedOfImage image with
  | .error error => return .error error
  | .ok header =>
      match ← guardedSection image header.prgStart header.prgSize .truncatedPrg with
      | .error error => return .error error
      | .ok prg =>
          match ← guardedPattern image header with
          | .error error => return .error error
          | .ok chr => return .ok { header, prg, chr, bankSelect := 0 }

/-- The sections that a header announces end far below the top of a machine word. -/
theorem announced_lt (h : Header) :
    h.prgStart + h.prgSize < UInt32.size ∧ h.chrStart + h.chrSize < UInt32.size := by
  have hprg := h.prgBanks.toNat_lt
  have hchr := h.chrBanks.toNat_lt
  have hstart : h.prgStart ≤ headerLength + trainerLength := by
    rw [Header.prgStart]
    split
    · exact Nat.le_refl _
    · exact Nat.le_add_right ..
  rw [headerLength, trainerLength] at hstart
  rw [Header.chrStart, Header.prgSize, Header.chrSize, prgBankSize, chrBankSize, UInt32.size]
  omega

theorem guardedSection_eq (image : Array UInt8) {start size : Nat}
    (short : Nat → Nat → ImageError) (h : start + size < UInt32.size) :
    guardedSection image start size short = .ok (imageSection image start size short) := by
  rw [guardedSection, sum_eq_ok h]
  rfl

theorem guardedPattern_eq (image : Array UInt8) (header : Header) :
    guardedPattern image header = .ok (patternSection image header) := by
  rw [guardedPattern, patternSection]
  split
  · rfl
  · exact guardedSection_eq image _ (announced_lt header).2

/-- A cartridge is read without a hazard. -/
theorem guardedOfImage_eq (image : Array UInt8) :
    guardedOfImage image = .ok (ofImage image) := by
  rw [guardedOfImage, Header.guardedOfImage_eq, ok_bind, ofImage_eq]
  cases Header.ofImage image with
  | error error => rfl
  | ok header =>
    dsimp only
    rw [guardedSection_eq image _ (announced_lt header).1, ok_bind, guardedPattern_eq]
    show _ = Except.ok (imageSection image header.prgStart header.prgSize .truncatedPrg >>= _)
    cases imageSection image header.prgStart header.prgSize .truncatedPrg with
    | error error => rfl
    | ok prg =>
      show _ = Except.ok (patternSection image header >>= _)
      cases patternSection image header with
      | error error => rfl
      | ok chr => rfl

end Cartridge

/-! ## Instructions -/

/-- The operand bytes behind an address as a word. -/
def guardedOperand (peek : UInt16 → Guarded UInt8) (addr : UInt16) : Nat → Guarded UInt16
  | 0 => return 0
  | 1 => do return word (← peek (addr + 1)) 0
  | _ => do return word (← peek (addr + 1)) (← peek (addr + 2))

/-- Decode the instruction at an address. -/
def guardedDecodeAt (peek : UInt16 → Guarded UInt8) (addr : UInt16) : Guarded Decoded := do
  let opcode ← peek addr
  let instruction ← Cpu.guardedLookup opcode
  let operand ← guardedOperand peek addr instruction.mode.operandLength
  return ⟨addr, opcode, operand⟩

/-- An instruction is decoded without a hazard where every peek is answered. -/
theorem guardedDecodeAt_eq {peek : UInt16 → Guarded UInt8} {memory : UInt16 → UInt8}
    (h : ∀ addr, peek addr = .ok (memory addr)) (addr : UInt16) :
    guardedDecodeAt peek addr = .ok (decodeAt memory addr) := by
  have hoperand : ∀ length, guardedOperand peek addr length = .ok (match length with
      | 0 => 0
      | 1 => word (memory (addr + 1)) 0
      | _ => word (memory (addr + 1)) (memory (addr + 2))) := by
    intro length
    match length with
    | 0 => rfl
    | 1 =>
      show (peek (addr + 1) >>= _) = _
      rw [h (addr + 1)]
      rfl
    | _ + 2 =>
      show (peek (addr + 1) >>= fun _ => peek (addr + 2) >>= _) = _
      rw [h (addr + 1), h (addr + 2)]
      rfl
  rw [guardedDecodeAt, decodeAt, h addr, ok_bind, Cpu.guardedLookup_eq, ok_bind, hoperand]
  rfl

/-! ## Lines of a reference log -/

namespace TraceLine

/-- The value of a recognised column with its key: a word whose text before the first colon is a
key. -/
def column? (token : List Char) : Option (TraceKey × List Char) :=
  match token.span (· ≠ ':') with
  | (_, []) => none
  | (key, _ :: value) => (TraceKey.ofChars? key).map (·, value)

/-- The number of recognised columns of a line. -/
def columns (line : String) : Nat :=
  (Text.words line.toList).countP fun token => (column? token).isSome

/-- Read the entries in some words into a line, and count them in a byte. -/
def guardedReadEntries (t : TraceLine) (count : Nat) :
    List (List Char) → Guarded (Option (TraceLine × Nat))
  | [] => return some (t, count)
  | token :: rest =>
      match column? token with
      | none => guardedReadEntries t count rest
      | some (entry, value) =>
          match t.setEntry? value entry with
          | none => return none
          | some t => do
              let count ← sum UInt8.size count 1
              guardedReadEntries t count rest

/-- The columns of a line that are found by their place. -/
def placed? (text : List Char) : Option TraceLine := do
  let pc ← readHexWord? (← Text.column 0 4 text)
  let bytes ← (Text.words (← Text.column 6 14 text)).mapM readHexByte?
  let assembly := Text.trim ((Text.column 15 48 text).getD [])
  return { blank with pc, bytes, assembly := String.ofList assembly }

/-- Read a line. -/
def guardedRead (line : String) : Guarded (Option TraceLine) :=
  match placed? line.toList with
  | none => return none
  | some start => do
      match ← start.guardedReadEntries 0 (Text.words line.toList) with
      | none => return none
      | some (t, count) => return if count = 6 then some t else none

/-- A word is passed over, or it is a recognised column and puts its value into its place. -/
theorem readEntries?_cons (t : TraceLine) (count : UInt8) (token : List Char)
    (rest : List (List Char)) :
    t.readEntries? count (token :: rest) =
      match column? token with
      | none => t.readEntries? count rest
      | some (entry, value) =>
          match t.setEntry? value entry with
          | none => none
          | some t => t.readEntries? (count + 1) rest := by
  rw [readEntries?, column?]
  rcases token.span (· ≠ ':') with ⟨key, rest' | ⟨colon, value⟩⟩
  · rfl
  · dsimp only
    cases TraceKey.ofChars? key with
    | none => rfl
    | some entry => rfl

/-- The count fits a byte while there are not too many recognised columns. -/
theorem guardedReadEntries_eq {t : TraceLine} {count : Nat} {words : List (List Char)}
    (h : count + words.countP (fun token => (column? token).isSome) < UInt8.size) :
    t.guardedReadEntries count words =
      .ok ((t.readEntries? (UInt8.ofNat count) words).map (Prod.map id UInt8.toNat)) := by
  induction words generalizing t count with
  | nil =>
    have hcount : (UInt8.ofNat count).toNat = count :=
      UInt8.toNat_ofNat_of_lt' (Nat.lt_of_le_of_lt (Nat.le_add_right ..) h)
    rw [guardedReadEntries, readEntries?, Option.map_some, Prod.map_apply, id, hcount]
    rfl
  | cons token rest ih =>
    rw [guardedReadEntries, readEntries?_cons]
    rw [List.countP_cons] at h
    cases hcolumn : column? token with
    | none =>
      rw [hcolumn] at h
      exact ih h
    | some column =>
      obtain ⟨entry, value⟩ := column
      rw [hcolumn, Option.isSome_some, if_pos rfl] at h
      dsimp only
      cases t.setEntry? value entry with
      | none => rfl
      | some later =>
        dsimp only
        rw [sum_eq_ok (by omega), ok_bind, ih (by omega), UInt8.ofNat_add]
        rfl

/-- One recognised column more than a byte counts is a hazard. -/
example : blank.guardedReadEntries 255 ["A:0".toList] = .error .overflow := by
  decide +kernel

/-- Reading a line is reading its places and then its entries. -/
theorem read?_eq (line : String) :
    read? line = (do
      let start ← placed? line.toList
      let (t, count) ← start.readEntries? 0 (Text.words line.toList)
      if count = 6 then some t else none) := by
  simp only [read?, ofChars?, placed?, Option.bind_eq_bind, Option.bind_assoc, Option.pure_def,
    Option.bind_some]

/-- A line is read without a hazard if it has at most 255 recognised columns. -/
theorem guardedRead_eq {line : String} (h : columns line ≤ 255) :
    guardedRead line = .ok (read? line) := by
  rw [guardedRead, read?_eq]
  cases placed? line.toList with
  | none => rfl
  | some start =>
    have hfits : 0 + columns line < UInt8.size := by
      rw [UInt8.size]
      omega
    dsimp only
    rw [guardedReadEntries_eq hfits, ok_bind, Option.bind_eq_bind, Option.bind_some]
    change _ = Except.ok (start.readEntries? (UInt8.ofNat 0) (Text.words line.toList) >>= _)
    cases start.readEntries? (UInt8.ofNat 0) (Text.words line.toList) with
    | none => rfl
    | some found =>
      have hsix : found.2.toNat = (6 : UInt8).toNat ↔ found.2 = 6 := UInt8.toNat_inj
      exact congrArg Except.ok (if_congr hsix rfl rfl)

end TraceLine

end NesMachine
