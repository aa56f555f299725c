/-!
# Bytes and words

The processor computes on bytes (`UInt8`) and addresses 64 KiB with words (`UInt16`), least
significant byte first. This module joins and splits words, names pages (256 addresses that share a
high byte) and reads a byte as a signed number. Splitting and joining are inverse to each other
(`lowByte_word`, `highByte_word`, `word_lowByte_highByte`).
-/

set_option autoImplicit false

namespace NesMachine

/-- The word with the given low and high bytes. -/
def word (low high : UInt8) : UInt16 :=
  low.toUInt16 + 256 * high.toUInt16

/-- The less significant byte of a word. -/
def lowByte (w : UInt16) : UInt8 :=
  w.toUInt8

/-- The more significant byte of a word, which is the number of its page. -/
def highByte (w : UInt16) : UInt8 :=
  (w / 256).toUInt8

/-- Whether two addresses lie on one page. -/
def samePage (a b : UInt16) : Bool :=
  highByte a == highByte b

/-- Bit 7: set exactly for the bytes that are negative in two's complement. -/
def signBit (v : UInt8) : Bool :=
  decide (0x80 ≤ v)

/-- The word that has the same value as the byte when both are read in two's complement. -/
def signExtend (v : UInt8) : UInt16 :=
  word v (if signBit v then 0xFF else 0x00)

theorem toNat_word (low high : UInt8) : (word low high).toNat = low.toNat + 256 * high.toNat := by
  have hl := low.toNat_lt
  have hh := high.toNat_lt
  simp only [word, UInt16.toNat_add, UInt16.toNat_mul, UInt8.toNat_toUInt16]
  have h256 : (256 : UInt16).toNat = 256 := rfl
  rw [h256]
  omega

@[simp] theorem lowByte_word (low high : UInt8) : lowByte (word low high) = low := by
  apply UInt8.toNat_inj.1
  have hl := low.toNat_lt
  rw [lowByte, UInt16.toNat_toUInt8, toNat_word]
  omega

@[simp] theorem highByte_word (low high : UInt8) : highByte (word low high) = high := by
  apply UInt8.toNat_inj.1
  have hl := low.toNat_lt
  have hh := high.toNat_lt
  have h256 : (256 : UInt16).toNat = 256 := rfl
  rw [highByte, UInt16.toNat_toUInt8, UInt16.toNat_div, toNat_word, h256]
  omega

@[simp] theorem word_lowByte_highByte (w : UInt16) : word (lowByte w) (highByte w) = w := by
  apply UInt16.toNat_inj.1
  have hw := w.toNat_lt
  have h256 : (256 : UInt16).toNat = 256 := rfl
  rw [toNat_word, lowByte, highByte, UInt16.toNat_toUInt8, UInt16.toNat_toUInt8, UInt16.toNat_div,
    h256]
  omega

end NesMachine
