import Mathlib.Data.Nat.Digits.Defs
import NesMachine.Proofs.Text.Numeral

/-!
# The written forms of addresses

A numeral is a plus sign or none and at least one digit, in either case of letters (`NumeralForm`).
Reading succeeds on these texts alone, and only if the number is not too large
(`readNumeral_eq_ok_iff`). An address is a mark for hexadecimal or none and a hexadecimal numeral
(`AddressForm`). Main statement: `address_forms`. The address that is read from a text is the number
that the text is a form of, a byte is an address that does not exceed `FF`, and every spelling of a
word is read back, whatever its mark, its case and its leading zeros.
-/

set_option autoImplicit false

namespace NesMachine.Text

/-! ## Digits -/

/-- The digits in the order of their values, in lower case. -/
def lowerDigits : List Char :=
  ['0', '1', '2', '3', '4', '5', '6', '7', '8', '9', 'a', 'b', 'c', 'd', 'e', 'f']

/-- The digits in the order of their values, in upper case. -/
def upperDigits : List Char :=
  ['0', '1', '2', '3', '4', '5', '6', '7', '8', '9', 'A', 'B', 'C', 'D', 'E', 'F']

/-- A character is the digit with a value. -/
def IsDigit (base : Nat) (c : Char) (d : Nat) : Prop :=
  d < base ∧ (lowerDigits[d]? = some c ∨ upperDigits[d]? = some c)

instance (base : Nat) (c : Char) (d : Nat) : Decidable (IsDigit base c d) :=
  inferInstanceAs (Decidable (_ ∧ _))

/-- The characters of a run of code points are the digits of a run of values. -/
theorem isDigit_of_run (first count : Nat) {base : Nat} {low c : Char}
    (table : ∀ i : Fin count, lowerDigits[i.val + first]? = some (Char.ofNat (low.toNat + i)) ∨
      upperDigits[i.val + first]? = some (Char.ofNat (low.toNat + i)))
    (hlow : low.toNat ≤ c.toNat) (hhigh : c.toNat < low.toNat + count)
    (hbase : c.toNat - low.toNat + first < base) :
    IsDigit base c (c.toNat - low.toNat + first) := by
  have hc : Char.ofNat (low.toNat + (c.toNat - low.toNat)) = c := by
    rw [Nat.add_sub_cancel' hlow, Char.ofNat_toNat]
  have hentry := table ⟨c.toNat - low.toNat, by omega⟩
  dsimp only at hentry
  rw [hc] at hentry
  exact ⟨hbase, hentry⟩

/-- The digits of both cases have their values. -/
theorem digitValue?_of_isDigit {base : Nat} {c : Char} {d : Nat} (h : IsDigit base c d) :
    digitValue? base c = some d := by
  have all : ∀ i : Fin 16, digitValue? 16 lowerDigits[i.val] = some i.val ∧
      digitValue? 16 upperDigits[i.val] = some i.val := by
    decide
  obtain ⟨hbase, hc⟩ := h
  have hsixteen : digitValue? 16 c = some d := by
    rcases hc with hlower | hupper
    · obtain ⟨hlt, rfl⟩ := List.getElem?_eq_some_iff.1 hlower
      exact (all ⟨d, hlt⟩).1
    · obtain ⟨hlt, rfl⟩ := List.getElem?_eq_some_iff.1 hupper
      exact (all ⟨d, hlt⟩).2
  -- The base only bounds the values.
  obtain ⟨hvalue, -⟩ := Option.filter_eq_some_iff.1 hsixteen
  exact Option.filter_eq_some_iff.2 ⟨hvalue, decide_eq_true hbase⟩

/-- A character that has a value is the digit with that value. -/
theorem isDigit_of_digitValue? {base : Nat} {c : Char} {d : Nat} (h : digitValue? base c = some d) :
    IsDigit base c d := by
  obtain ⟨hvalue, hbase⟩ := Option.filter_eq_some_iff.1 h
  have hbase := of_decide_eq_true hbase
  split at hvalue
  next hrange =>
    obtain rfl := Option.some.inj hvalue
    exact isDigit_of_run 0 10 (by decide) hrange.1
      (Nat.lt_succ_of_le hrange.2) hbase
  next =>
    split at hvalue
    next hrange =>
      obtain rfl := Option.some.inj hvalue
      exact isDigit_of_run 10 6 (by decide) hrange.1
        (Nat.lt_succ_of_le hrange.2) hbase
    next =>
      obtain ⟨hrange, hvalue⟩ := Option.ite_none_right_eq_some.1 hvalue
      obtain rfl := Option.some.inj hvalue
      exact isDigit_of_run 10 6 (by decide) hrange.1
        (Nat.lt_succ_of_le hrange.2) hbase

/-! ## Numerals -/

/-- Some digits denote a number, the most significant one first. -/
def Denotes (base : Nat) (digits : List Char) (n : Nat) : Prop :=
  ∃ values, List.Forall₂ (IsDigit base) digits values ∧ Nat.ofDigits base values.reverse = n

/-- The signs that a numeral may have in front. -/
def signs : List (List Char) :=
  [[], ['+']]

/-- A text is a numeral of a number: a sign and at least one digit. -/
def NumeralForm (base : Nat) (text : List Char) (n : Nat) : Prop :=
  ∃ sign ∈ signs, ∃ digits, text = sign ++ digits ∧ digits ≠ [] ∧ Denotes base digits n

section Numerals

variable {base largest : Nat}

/-- The value of more digits, by Horner's rule. -/
theorem ofDigits_reverse_append (values more : List Nat) :
    Nat.ofDigits base (values ++ more).reverse =
      more.foldl (fun n d => n * base + d) (Nat.ofDigits base values.reverse) := by
  induction more generalizing values with
  | nil => rw [List.append_nil, List.foldl_nil]
  | cons d more ih =>
    rw [List.append_cons, ih, List.foldl_cons]
    congr 1
    rw [List.reverse_append, List.reverse_singleton, List.singleton_append, Nat.ofDigits_cons,
      Nat.mul_comm, Nat.add_comm]

/-- Further digits do not lower a value, unless the base is zero. -/
theorem le_foldl_digits (hbase : 0 < base) (values : List Nat) (n : Nat) :
    n ≤ values.foldl (fun n d => n * base + d) n := by
  induction values generalizing n with
  | nil => exact Nat.le_refl n
  | cons d values ih =>
    calc n ≤ n * base := Nat.le_mul_of_pos_right n hbase
      _ ≤ n * base + d := Nat.le_add_right _ d
      _ ≤ _ := ih _

/-- Digits that follow a number are read exactly if all are digits and the result is not too
large. -/
theorem readDigits_eq_ok_iff {n m : Nat} {text : List Char} :
    readDigits base largest n text = .ok m ↔
      ∃ values, List.Forall₂ (IsDigit base) text values ∧
        values.foldl (fun n d => n * base + d) n = m ∧ (text = [] ∨ m ≤ largest) := by
  induction text generalizing n with
  | nil =>
    constructor
    · intro h
      exact ⟨[], .nil, Except.ok.inj h, .inl rfl⟩
    · rintro ⟨values, hvalues, hm, -⟩
      cases hvalues
      exact congrArg Except.ok hm
  | cons c rest ih =>
    rw [readDigits]
    cases hc : digitValue? base c with
    | none =>
      -- The first character is no digit, so the text is none of the texts of digits.
      constructor
      · intro h
        cases h
      · rintro ⟨values, hvalues, -⟩
        cases hvalues with
        | cons hdigit _ => rw [digitValue?_of_isDigit hdigit] at hc; cases hc
    | some d =>
      have hdigit := isDigit_of_digitValue? hc
      have hbase : 0 < base := Nat.zero_lt_of_lt hdigit.1
      constructor
      · intro h
        dsimp only at h
        split at h
        next hle =>
          obtain ⟨values, hvalues, hm, hbound⟩ := ih.1 h
          refine ⟨d :: values, .cons hdigit hvalues, hm, .inr ?_⟩
          rcases hbound with rfl | hbound
          · cases hvalues
            exact hm ▸ hle
          · exact hbound
        next => cases h
      · rintro ⟨values, hvalues, hm, hbound⟩
        cases hvalues with
        | @cons _ e _ values hfirst hvalues =>
          obtain rfl : d = e := Option.some.inj (hc.symm.trans (digitValue?_of_isDigit hfirst))
          have hbound : m ≤ largest := hbound.resolve_left (List.cons_ne_nil c rest)
          have hle : n * base + d ≤ largest :=
            Nat.le_trans (le_foldl_digits hbase values _) (hm ▸ hbound)
          dsimp only
          rw [if_pos hle]
          exact ih.2 ⟨values, hvalues, hm, .inr hbound⟩

/-- At least one digit is read exactly if all denote a number that is not too large. -/
theorem readDigits_zero_eq_ok_iff {m : Nat} {text : List Char} (hne : text ≠ []) :
    readDigits base largest 0 text = .ok m ↔ Denotes base text m ∧ m ≤ largest := by
  have hvalue : ∀ values : List Nat,
      Nat.ofDigits base values.reverse = values.foldl (fun n d => n * base + d) 0 :=
    ofDigits_reverse_append []
  rw [readDigits_eq_ok_iff]
  constructor
  · rintro ⟨values, hvalues, hm, hbound⟩
    exact ⟨⟨values, hvalues, (hvalue values).trans hm⟩, hbound.resolve_left hne⟩
  · rintro ⟨⟨values, hvalues, hm⟩, hbound⟩
    exact ⟨values, hvalues, (hvalue values).symm.trans hm, .inr hbound⟩

theorem readNumeral_plus {text : List Char} (hne : text ≠ []) :
    readNumeral base largest ('+' :: text) = readDigits base largest 0 text := by
  cases text with
  | nil => exact absurd rfl hne
  | cons c rest => rfl

theorem readNumeral_unsigned {c : Char} (hc : c ≠ '+') (rest : List Char) :
    readNumeral base largest (c :: rest) = readDigits base largest 0 (c :: rest) := by
  rw [readNumeral]
  · simp
  · intro hplus
    exact hc (List.cons.inj hplus).1
  · intro _ hplus
    exact hc (List.cons.inj hplus).1

/-- The numerals of numbers that are not too large are read, and nothing else is. -/
theorem readNumeral_eq_ok_iff {text : List Char} {m : Nat} :
    readNumeral base largest text = .ok m ↔ NumeralForm base text m ∧ m ≤ largest := by
  constructor
  · intro h
    cases text with
    | nil => cases h
    | cons c rest =>
      by_cases hc : c = '+'
      · subst hc
        cases rest with
        | nil => cases h
        | cons next rest =>
          have hne := List.cons_ne_nil next rest
          rw [readNumeral_plus hne, readDigits_zero_eq_ok_iff hne] at h
          exact ⟨⟨['+'], by simp [signs], next :: rest, rfl, hne, h.1⟩, h.2⟩
      · have hne := List.cons_ne_nil c rest
        rw [readNumeral_unsigned hc, readDigits_zero_eq_ok_iff hne] at h
        exact ⟨⟨[], by simp [signs], c :: rest, rfl, hne, h.1⟩, h.2⟩
  · rintro ⟨⟨sign, hsign, digits, rfl, hne, hdigits⟩, hle⟩
    have hread := (readDigits_zero_eq_ok_iff hne).2 ⟨hdigits, hle⟩
    simp only [signs, List.mem_cons, List.not_mem_nil, or_false] at hsign
    rcases hsign with rfl | rfl
    · exact readNumeral_of_readDigits hread hne
    · exact (readNumeral_plus hne).trans hread

/-- A text is a numeral of one number only. -/
theorem NumeralForm.unique {text : List Char} {m n : Nat} (hm : NumeralForm base text m)
    (hn : NumeralForm base text n) : m = n := by
  have hreadm := readNumeral_eq_ok_iff.2 ⟨hm, Nat.le_max_left m n⟩
  have hreadn := readNumeral_eq_ok_iff.2 ⟨hn, Nat.le_max_right m n⟩
  exact Except.ok.inj (hreadm.symm.trans hreadn)

end Numerals

/-! ## Addresses -/

/-- The marks for hexadecimal that an address may have in front. -/
def marks : List (List Char) :=
  [[], ['0', 'x'], ['0', 'X'], ['$']]

/-- A text is an address of a number: a mark and a hexadecimal numeral. -/
def AddressForm (text : List Char) (n : Nat) : Prop :=
  ∃ mark ∈ marks, ∃ numeral, text = mark ++ numeral ∧ NumeralForm 16 numeral n

/-- What is dropped is a mark. -/
theorem exists_mark (text : List Char) : ∃ mark ∈ marks, text = mark ++ dropMark text := by
  unfold dropMark
  split
  · exact ⟨['0', 'x'], by decide, rfl⟩
  · exact ⟨['0', 'X'], by decide, rfl⟩
  · exact ⟨['$'], by decide, rfl⟩
  · exact ⟨[], by decide, rfl⟩

/-- A numeral has no mark in front: `x` and `$` are no digits. -/
theorem dropMark_of_numeralForm {text : List Char} {n : Nat} (h : NumeralForm 16 text n) :
    dropMark text = text := by
  have hread : readNumeral 16 n text = .ok n := readNumeral_eq_ok_iff.2 ⟨h, Nat.le_refl n⟩
  unfold dropMark
  split
  · cases hread
  · cases hread
  · cases hread
  · rfl

theorem dropMark_append {mark numeral : List Char} {n : Nat} (hmark : mark ∈ marks)
    (h : NumeralForm 16 numeral n) : dropMark (mark ++ numeral) = numeral := by
  simp only [marks, List.mem_cons, List.not_mem_nil, or_false] at hmark
  rcases hmark with rfl | rfl | rfl | rfl
  · exact dropMark_of_numeralForm h
  · rfl
  · rfl
  · rfl

/-- A text is an address if the rest behind its mark is a numeral. -/
theorem addressForm_iff {text : List Char} {n : Nat} :
    AddressForm text n ↔ NumeralForm 16 (dropMark text) n := by
  constructor
  · rintro ⟨mark, hmark, numeral, rfl, h⟩
    rw [dropMark_append hmark h]
    exact h
  · intro h
    obtain ⟨mark, hmark, htext⟩ := exists_mark text
    exact ⟨mark, hmark, dropMark text, htext, h⟩

theorem AddressForm.unique {text : List Char} {m n : Nat} (hm : AddressForm text m)
    (hn : AddressForm text n) : m = n :=
  (addressForm_iff.1 hm).unique (addressForm_iff.1 hn)

/-- The addresses of words are read, and nothing else is. -/
theorem readAddress_eq_ok_iff {text : String} {v : UInt16} :
    readAddress text = .ok v ↔ AddressForm text.toList v.toNat := by
  have hread : readNumeral 16 0xFFFF (dropMark text.toList) = .ok v.toNat ↔
      AddressForm text.toList v.toNat := by
    rw [readNumeral_eq_ok_iff, ← addressForm_iff]
    exact and_iff_left (Nat.le_of_lt_succ v.toNat_lt)
  rw [← hread, readAddress]
  cases hnumeral : readNumeral 16 0xFFFF (dropMark text.toList) with
  | error cause => simp
  | ok n =>
    have hlt : n < UInt16.size := Nat.lt_succ_of_le (readNumeral_eq_ok_iff.1 hnumeral).2
    have hvalue : (UInt16.ofNat n).toNat = n := UInt16.toNat_ofNat_of_lt' hlt
    simp only [Except.ok.injEq, ← UInt16.toNat_inj, hvalue]

/-- A byte is an address that fits in a byte. -/
theorem readByte_eq_ok_iff {text : String} {b : UInt8} :
    readByte text = .ok b ↔ readAddress text = .ok b.toUInt16 := by
  have hfits : b.toUInt16 ≤ 0xFF := by
    have hb := b.toNat_lt
    rw [UInt16.le_iff_toNat_le, UInt8.toNat_toUInt16]
    exact Nat.le_of_lt_succ hb
  rw [readByte]
  cases readAddress text with
  | error error => simp
  | ok addr =>
    dsimp only
    split
    next hle =>
      -- A word that fits in a byte is that byte.
      have hback : addr.toUInt8.toUInt16 = addr := by
        have hlt : addr.toNat ≤ 0xFF := UInt16.le_iff_toNat_le.1 hle
        apply UInt16.toNat_inj.1
        rw [UInt8.toNat_toUInt16, UInt16.toNat_toUInt8]
        omega
      constructor
      · intro h
        obtain rfl := Except.ok.inj h
        rw [hback]
      · intro h
        obtain rfl := Except.ok.inj h
        rw [UInt8.toUInt8_toUInt16]
    next hlarge =>
      constructor
      · intro h
        cases h
      · intro h
        exact absurd (Except.ok.inj h ▸ hfits) hlarge

/-- A text is no byte exactly if it is an address of no number below 256. -/
theorem readByte_eq_error_iff {text : String} :
    (∃ error, readByte text = .error error) ↔ ∀ n < 256, ¬ AddressForm text.toList n := by
  constructor
  · rintro ⟨error, herror⟩ n hn hform
    have hvalue : (UInt8.ofNat n).toUInt16.toNat = n := by
      rw [UInt8.toNat_toUInt16, UInt8.toNat_ofNat_of_lt' hn]
    have hread := readByte_eq_ok_iff.2 (readAddress_eq_ok_iff.2 (hvalue.symm ▸ hform))
    rw [herror] at hread
    cases hread
  · intro h
    cases hread : readByte text with
    | error error => exact ⟨error, rfl⟩
    | ok b =>
      have hform := readAddress_eq_ok_iff.1 (readByte_eq_ok_iff.1 hread)
      rw [UInt8.toNat_toUInt16] at hform
      exact absurd hform (h b.toNat b.toNat_lt)

/-! ## Spellings -/

/-- Some digits spell a number: its digits from the most significant one on, each in either case of
letters, behind any number of zeros. -/
def Spells (digits : List Char) (n : Nat) : Prop :=
  digits ≠ [] ∧ ∃ zeros,
    List.Forall₂ (IsDigit 16) digits (List.replicate zeros 0 ++ (Nat.digits 16 n).reverse)

/-- A spelling behind a mark is an address. -/
theorem AddressForm.of_spells {mark digits : List Char} {n : Nat} (hmark : mark ∈ marks)
    (h : Spells digits n) : AddressForm (mark ++ digits) n := by
  obtain ⟨hne, zeros, hdigits⟩ := h
  have hvalue : Nat.ofDigits 16 (List.replicate zeros 0 ++ (Nat.digits 16 n).reverse).reverse = n := by
    rw [List.reverse_append, List.reverse_reverse, List.reverse_replicate,
      Nat.ofDigits_append_replicate_zero, Nat.ofDigits_digits]
  exact ⟨mark, hmark, digits, rfl, [], by decide, digits, rfl, hne, _, hdigits, hvalue⟩

/-- The address that is read from a text is the number that the text is a form of, a byte is an
address that does not exceed `FF`, and every spelling of a word is read back. -/
theorem address_forms (text : String) :
    (∀ v : UInt16, readAddress text = .ok v ↔ AddressForm text.toList v.toNat) ∧
      (∀ m n, AddressForm text.toList m → AddressForm text.toList n → m = n) ∧
      (∀ b : UInt8, readByte text = .ok b ↔ readAddress text = .ok b.toUInt16) ∧
      ((∃ error, readByte text = .error error) ↔ ∀ n < 256, ¬ AddressForm text.toList n) ∧
      ∀ mark ∈ marks, ∀ (v : UInt16) (digits : List Char), Spells digits v.toNat →
        text.toList = mark ++ digits → readAddress text = .ok v := by
  refine ⟨fun v => readAddress_eq_ok_iff, fun m n hm hn => hm.unique hn,
    fun b => readByte_eq_ok_iff, readByte_eq_error_iff, fun mark hmark v digits hdigits htext => ?_⟩
  rw [readAddress_eq_ok_iff, htext]
  exact .of_spells hmark hdigits

/-- A byte is read back from digits of both cases behind zeros and a mark. -/
theorem address_forms_mixed_case :
    ['0', 'X'] ∈ marks ∧ Spells ['0', '0', 'f', 'E'] 0xFE ∧
      readAddress "0X00fE" = .ok 0xFE ∧ readByte "0X00fE" = .ok 0xFE := by
  have hmark : ['0', 'X'] ∈ marks := by decide
  have hspells : Spells ['0', '0', 'f', 'E'] (0xFE : UInt16).toNat :=
    ⟨by decide, 2, by decide⟩
  obtain ⟨-, -, hbyte, -, hback⟩ := address_forms "0X00fE"
  have hread := hback _ hmark 0xFE _ hspells (by decide)
  exact ⟨hmark, hspells, hread, (hbyte 0xFE).2 hread⟩

end NesMachine.Text
