import Mathlib.Algebra.Group.Nat.Defs
import NesMachine.Text.Address
import NesMachine.Text.Hex

/-!
# Numerals are read back

Reading the digits of a number gives the number, if it is not larger than the reader allows: for the
hexadecimal digits of a fixed width (`readNumeral_fixed`) and for decimal digits
(`readNumeral_toDigits`). An address with the mark `$` is read back (`readAddress_marked`).
-/

set_option autoImplicit false

namespace NesMachine.Text

/-! ## Digits -/

theorem digitValue?_hexDigit {d : Nat} (hd : d < 16) : digitValue? 16 (Hex.digit d) = some d := by
  have all : ∀ i : Fin 16, digitValue? 16 (Hex.digit i) = some i.val := by decide
  exact all ⟨d, hd⟩

theorem digitValue?_digitChar {d : Nat} (hd : d < 10) :
    digitValue? 10 (Nat.digitChar d) = some d := by
  have all : ∀ i : Fin 10, digitValue? 10 (Nat.digitChar i) = some i.val := by decide
  exact all ⟨d, hd⟩

/-! ## Sequences of digits -/

section Digits

variable {base largest : Nat}

/-- Digits are read from left to right. -/
theorem readDigits_append (n : Nat) (text rest : List Char) :
    readDigits base largest n (text ++ rest) =
      (readDigits base largest n text).bind fun m => readDigits base largest m rest := by
  induction text generalizing n with
  | nil => rfl
  | cons c text ih =>
    rw [List.cons_append, readDigits, readDigits]
    cases digitValue? base c with
    | none => rfl
    | some d =>
      by_cases hd : n * base + d ≤ largest
      · simp only [if_pos hd]
        exact ih _
      · simp only [if_neg hd]
        rfl

theorem readDigits_concat {n m d : Nat} {text : List Char} {c : Char}
    (htext : readDigits base largest n text = .ok m) (hc : digitValue? base c = some d)
    (hle : m * base + d ≤ largest) :
    readDigits base largest n (text ++ [c]) = .ok (m * base + d) := by
  rw [readDigits_append, htext]
  simp only [Except.bind, readDigits, hc, if_pos hle]

/-- What is read as digits is read as a numeral, for it has no sign. -/
theorem readNumeral_of_readDigits {n : Nat} {text : List Char}
    (h : readDigits base largest 0 text = .ok n) (hne : text ≠ []) :
    readNumeral base largest text = .ok n := by
  cases text with
  | nil => exact absurd rfl hne
  | cons c rest =>
    have hc : c ≠ '+' := by
      rintro rfl
      cases h
    rw [readNumeral]
    · exact h
    · simp
    · intro hplus
      exact hc (List.cons.inj hplus).1
    · intro _ hplus
      exact hc (List.cons.inj hplus).1

end Digits

/-- The digits of a fixed width are read back. -/
theorem readDigits_fixed {largest : Nat} (width n : Nat) (hle : n % 16 ^ width ≤ largest) :
    readDigits 16 largest 0 (Hex.fixed width n) = .ok (n % 16 ^ width) := by
  induction width generalizing n with
  | zero => rw [Nat.pow_zero, Nat.mod_one]; rfl
  | succ width ih =>
    have hvalue : n % 16 ^ (width + 1) = n / 16 % 16 ^ width * 16 + n % 16 := by
      rw [Nat.pow_succ, Nat.mul_comm (16 ^ width), Nat.mod_mul]
      omega
    rw [hvalue] at hle ⊢
    have hdigit : n % 16 < 16 := Nat.mod_lt _ (by decide)
    exact readDigits_concat (ih (n / 16) (by omega)) (digitValue?_hexDigit hdigit) hle

theorem readNumeral_fixed {largest : Nat} (width n : Nat) (hlt : n < 16 ^ (width + 1))
    (hle : n ≤ largest) : readNumeral 16 largest (Hex.fixed (width + 1) n) = .ok n := by
  have hvalue : n % 16 ^ (width + 1) = n := Nat.mod_eq_of_lt hlt
  have hdigits := readDigits_fixed (width + 1) n (hvalue.symm ▸ hle)
  rw [hvalue] at hdigits
  apply readNumeral_of_readDigits hdigits
  simp [Hex.fixed]

/-- The decimal digits of a number are read back. -/
theorem readDigits_toDigits {largest : Nat} (n : Nat) (hle : n ≤ largest) :
    readDigits 10 largest 0 (Nat.toDigits 10 n) = .ok n := by
  induction n using Nat.strongRecOn with
  | ind n ih =>
    -- The last digit is split off, and the others are the digits of a smaller number.
    rw [Nat.toDigits_eq_if (by decide)]
    split
    next hsmall =>
      have hnone : readDigits 10 largest 0 [] = .ok 0 := rfl
      have hone := readDigits_concat hnone (digitValue?_digitChar hsmall) (by omega)
      rw [List.nil_append] at hone
      rw [hone, Nat.zero_mul, Nat.zero_add]
    next hlarge =>
      have hvalue : n / 10 * 10 + n % 10 = n := by omega
      have hdigit : n % 10 < 10 := Nat.mod_lt _ (by decide)
      have hmore := readDigits_concat (ih (n / 10) (by omega) (by omega))
        (digitValue?_digitChar hdigit) (by omega)
      rw [hmore, hvalue]

theorem readNumeral_toDigits {largest : Nat} (n : Nat) (hle : n ≤ largest) :
    readNumeral 10 largest (Nat.toDigits 10 n) = .ok n := by
  apply readNumeral_of_readDigits (readDigits_toDigits n hle)
  exact List.length_pos_iff.1 Nat.length_toDigits_pos

/-! ## Bytes and words -/

theorem readNumeral_byte (v : UInt8) : readNumeral 16 0xFF (Hex.byte v) = .ok v.toNat :=
  readNumeral_fixed 1 v.toNat v.toNat_lt (Nat.le_of_lt_succ v.toNat_lt)

theorem readNumeral_ofWord (w : UInt16) : readNumeral 16 0xFFFF (Hex.ofWord w) = .ok w.toNat :=
  readNumeral_fixed 3 w.toNat w.toNat_lt (Nat.le_of_lt_succ w.toNat_lt)

theorem readAddress_marked (w : UInt16) :
    readAddress (String.ofList ('$' :: Hex.ofWord w)) = .ok w := by
  have hmark : dropMark ('$' :: Hex.ofWord w) = Hex.ofWord w := rfl
  rw [readAddress, String.toList_ofList, hmark, readNumeral_ofWord]
  simp

end NesMachine.Text
