import Mathlib.Data.Nat.Digits.Lemmas
import NesMachine.Word

/-!
# Numbers of several bytes

Some bytes with the low byte first are a number (`littleEndian`), and in two's complement they are a
signed one (`twosComplement`). Both are computed byte by byte from the low end (`littleEndian_cons`,
`twosComplement_cons`), and so is whether a signed number fits in as many bytes
(`fitsSigned_cons_iff`). The complement of all bytes reverses the order of the numbers
(`littleEndian_complement`, `twosComplement_complement`).
-/

set_option autoImplicit false

namespace NesMachine

/-- The number that some bytes are, low byte first. -/
def littleEndian (bytes : List UInt8) : Nat :=
  Nat.ofDigits 256 (bytes.map UInt8.toNat)

/-- The signed number that some bytes are in two's complement, low byte first. -/
def twosComplement (bytes : List UInt8) : Int :=
  (littleEndian bytes : Int).bmod (256 ^ bytes.length)

/-- A signed number fits in some bytes. -/
def FitsSigned (length : Nat) (value : Int) : Prop :=
  -(256 ^ length / 2) ≤ value ∧ value < 256 ^ length / 2

/-! ## Unsigned numbers -/

theorem littleEndian_cons (byte : UInt8) (bytes : List UInt8) :
    littleEndian (byte :: bytes) = byte.toNat + 256 * littleEndian bytes := by
  simp [littleEndian, Nat.ofDigits_cons]

theorem littleEndian_lt (bytes : List UInt8) : littleEndian bytes < 256 ^ bytes.length := by
  have hdigits : ∀ digit ∈ bytes.map UInt8.toNat, digit < 256 := by
    intro digit hdigit
    obtain ⟨byte, -, rfl⟩ := List.mem_map.1 hdigit
    exact byte.toNat_lt
  have hlt := Nat.ofDigits_lt_base_pow_length (by decide) hdigits
  rwa [List.length_map] at hlt

theorem toNat_complement (byte : UInt8) : (~~~byte).toNat = 255 - byte.toNat := by
  have all : ∀ i : Fin 256, (~~~(UInt8.ofFin i)).toNat = 255 - (UInt8.ofFin i).toNat := by
    decide +kernel
  exact all byte.toFin

/-- The complement of all bytes is the distance to the largest number. -/
theorem littleEndian_complement (bytes : List UInt8) :
    littleEndian (bytes.map (~~~·)) + littleEndian bytes + 1 = 256 ^ bytes.length := by
  induction bytes with
  | nil => rfl
  | cons byte bytes ih =>
    have hbyte := byte.toNat_lt
    rw [List.map_cons, littleEndian_cons, littleEndian_cons, toNat_complement, List.length_cons,
      Nat.pow_succ]
    omega

/-! ## Signed numbers -/

theorem signBit_eq_true_iff (byte : UInt8) : signBit byte = true ↔ 128 ≤ byte.toNat := by
  rw [signBit, decide_eq_true_eq, UInt8.le_iff_toNat_le]
  rfl

theorem signBit_eq_false_iff (byte : UInt8) : signBit byte = false ↔ byte.toNat < 128 := by
  rw [← Bool.not_eq_true, signBit_eq_true_iff, Nat.not_le]

/-- Half of a power of the base, for one byte more. -/
theorem half_pow_succ (length : Nat) : (256 : Int) ^ (length + 1) / 2 = 128 * 256 ^ length := by
  rw [Int.pow_succ]
  omega

theorem twosComplement_singleton (byte : UInt8) :
    twosComplement [byte] = if signBit byte then (byte.toNat : Int) - 256 else byte.toNat := by
  have all : ∀ i : Fin 256, twosComplement [UInt8.ofFin i] =
      if signBit (UInt8.ofFin i) then ((UInt8.ofFin i).toNat : Int) - 256
      else (UInt8.ofFin i).toNat := by
    decide +kernel
  exact all byte.toFin

theorem bmod_two_mul {value half : Nat} (h : value < 2 * half) :
    (value : Int).bmod (2 * half) = if value < half then (value : Int) else value - 2 * half := by
  rw [Int.bmod_def]
  have hmod : (value : Int) % ((2 * half : Nat) : Int) = value := by
    apply Int.emod_eq_of_lt <;> omega
  rw [hmod]
  split <;> split <;> omega

/-- A signed number of more than one byte is its low byte and a signed number of the others. -/
theorem twosComplement_cons (byte : UInt8) {bytes : List UInt8} (h : bytes ≠ []) :
    twosComplement (byte :: bytes) = byte.toNat + 256 * twosComplement bytes := by
  have hbyte := byte.toNat_lt
  have hlt := littleEndian_lt bytes
  obtain ⟨length, hlength⟩ := Nat.exists_eq_succ_of_ne_zero (List.length_pos_iff.2 h).ne'
  have hmodulus : 256 ^ bytes.length = 2 * (128 * 256 ^ length) := by
    rw [hlength, Nat.pow_succ]
    omega
  have hlarger : 256 ^ (bytes.length + 1) = 2 * (256 * (128 * 256 ^ length)) := by
    rw [Nat.pow_succ, hmodulus]
    omega
  rw [hmodulus] at hlt
  rw [twosComplement, twosComplement, littleEndian_cons, List.length_cons, hmodulus, hlarger,
    bmod_two_mul hlt, bmod_two_mul (by omega)]
  -- The low byte does not carry the number past half of the range.
  generalize 128 * 256 ^ length = half at *
  split <;> split <;> omega

/-- The complement of all bytes reverses the order of the signed numbers. -/
theorem twosComplement_complement {bytes : List UInt8} (h : bytes ≠ []) :
    twosComplement (bytes.map (~~~·)) = -1 - twosComplement bytes := by
  induction bytes with
  | nil => exact absurd rfl h
  | cons byte bytes ih =>
    have hbyte := byte.toNat_lt
    have hcomplement := toNat_complement byte
    rw [List.map_cons]
    -- The sign is in the last byte, so the induction ends at one byte.
    rcases eq_or_ne bytes [] with rfl | hrest
    · rw [List.map_nil, twosComplement_singleton, twosComplement_singleton]
      simp only [signBit_eq_true_iff, hcomplement]
      split <;> split <;> omega
    · have hmapped : bytes.map (~~~·) ≠ [] := fun hnil => hrest (List.map_eq_nil_iff.1 hnil)
      rw [twosComplement_cons _ hmapped, twosComplement_cons _ hrest, ih hrest, hcomplement]
      omega

theorem fitsSigned_one_iff (value : Int) : FitsSigned 1 value ↔ -128 ≤ value ∧ value < 128 :=
  Iff.rfl

/-- Whether a number fits in more than one byte is a matter of the bytes behind the low one. -/
theorem fitsSigned_add_iff {length : Nat} (h : 0 < length) {low : Nat} (hlow : low < 256)
    (value : Int) :
    FitsSigned (length + 1) (low + 256 * value) ↔ FitsSigned length value := by
  obtain ⟨shorter, rfl⟩ := Nat.exists_eq_succ_of_ne_zero h.ne'
  rw [FitsSigned, FitsSigned, half_pow_succ, half_pow_succ, Int.pow_succ]
  generalize (256 : Int) ^ shorter = unit
  omega

/-- Whether a number is negative is a matter of the bytes behind the low one. -/
theorem add_neg_iff {low : Nat} (hlow : low < 256) (value : Int) :
    low + 256 * value < 0 ↔ value < 0 := by
  omega

end NesMachine
