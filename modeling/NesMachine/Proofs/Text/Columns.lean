import NesMachine.Text.Blank
import NesMachine.Text.ByteColumn
import NesMachine.Text.Hex

/-!
# Columns of ASCII text

In ASCII text a byte is a character, so a column is found by counting characters
(`Text.column_of_ascii`). A printed digit is visible: ASCII, not white space and no colon
(`Text.visible_hexDigit`, `Text.visible_toDigits`).
-/

set_option autoImplicit false

namespace NesMachine.Text

/-! ## Kinds of characters -/

/-- A character of ASCII. -/
def IsAscii (c : Char) : Prop :=
  c.toNat < 128

instance (c : Char) : Decidable (IsAscii c) :=
  inferInstanceAs (Decidable (c.toNat < 128))

/-- A printed character of ASCII that is no colon. -/
def Visible (c : Char) : Prop :=
  0x21 ≤ c.toNat ∧ c.toNat ≤ 0x7E ∧ c.toNat ≠ 0x3A

instance (c : Char) : Decidable (Visible c) :=
  inferInstanceAs (Decidable (0x21 ≤ c.toNat ∧ c.toNat ≤ 0x7E ∧ c.toNat ≠ 0x3A))

namespace Visible

variable {c : Char}

theorem ascii (h : Visible c) : IsAscii c :=
  Nat.lt_of_le_of_lt h.2.1 (by decide)

theorem not_blank (h : Visible c) : isBlank c = false := by
  obtain ⟨hlow, hhigh, -⟩ := h
  simp only [isBlank, blankRanges, List.any_cons, List.any_nil, Bool.or_false,
    Bool.or_eq_false_iff, Bool.and_eq_false_imp, decide_eq_true_eq, decide_eq_false_iff_not,
    Nat.not_le]
  omega

theorem ne_colon (h : Visible c) : c ≠ ':' := by
  rintro rfl
  exact h.2.2 rfl

end Visible

theorem visible_of_all {text : List Char} (h : text.all (fun c => decide (Visible c)) = true) :
    ∀ c ∈ text, Visible c :=
  fun c hc => of_decide_eq_true (List.all_eq_true.1 h c hc)

theorem visible_hexDigit {d : Nat} (hd : d < 16) : Visible (Hex.digit d) := by
  have all : ∀ i : Fin 16, Visible (Hex.digit i) := by decide
  exact all ⟨d, hd⟩

theorem visible_fixed (width n : Nat) : ∀ c ∈ Hex.fixed width n, Visible c := by
  induction width generalizing n with
  | zero => exact fun c hc => absurd hc List.not_mem_nil
  | succ width ih =>
    intro c hc
    rcases List.mem_append.1 hc with hmore | hlast
    · exact ih (n / 16) c hmore
    · rw [List.mem_singleton.1 hlast]
      exact visible_hexDigit (Nat.mod_lt n (by decide))

theorem visible_toDigits (n : Nat) : ∀ c ∈ Nat.toDigits 10 n, Visible c := by
  intro c hc
  have hdigit := Nat.isDigit_of_mem_toDigits (by decide) (by decide) hc
  obtain ⟨hlow, hhigh⟩ : '0'.val ≤ c.val ∧ c.val ≤ '9'.val := by simpa [Char.isDigit] using hdigit
  have hfirst : 0x30 ≤ c.toNat := hlow
  have hlast : c.toNat ≤ 0x39 := hhigh
  exact ⟨by omega, by omega, by omega⟩

/-! ## Columns -/

theorem utf8Size_of_ascii {c : Char} (h : IsAscii c) : c.utf8Size = 1 := by
  have hval : c.val ≤ UInt32.ofNatLT 0x7F (by decide) := Nat.le_of_lt_succ h
  rw [Char.utf8Size]
  exact if_pos hval

/-- In ASCII, bytes are dropped by dropping characters. -/
theorem dropBytes_of_ascii {n : Nat} {text : List Char} (h : ∀ c ∈ text, IsAscii c)
    (hn : n ≤ text.length) : dropBytes n text = some (text.drop n) := by
  induction text generalizing n with
  | nil =>
    obtain rfl := Nat.le_zero.1 hn
    rfl
  | cons c text ih =>
    cases n with
    | zero => rfl
    | succ n =>
      have hc := utf8Size_of_ascii (h c List.mem_cons_self)
      rw [dropBytes, hc, if_pos (Nat.le_add_left 1 n), Nat.add_sub_cancel, List.drop_succ_cons]
      exact ih (fun d hd => h d (List.mem_cons_of_mem c hd)) (Nat.le_of_succ_le_succ hn)

/-- In ASCII, bytes are taken by taking characters. -/
theorem takeBytes_of_ascii {n : Nat} {text : List Char} (h : ∀ c ∈ text, IsAscii c)
    (hn : n ≤ text.length) : takeBytes n text = some (text.take n) := by
  induction text generalizing n with
  | nil =>
    obtain rfl := Nat.le_zero.1 hn
    rfl
  | cons c text ih =>
    cases n with
    | zero => rfl
    | succ n =>
      have hc := utf8Size_of_ascii (h c List.mem_cons_self)
      rw [takeBytes, hc, if_pos (Nat.le_add_left 1 n), Nat.add_sub_cancel, List.take_succ_cons,
        ih (fun d hd => h d (List.mem_cons_of_mem c hd)) (Nat.le_of_succ_le_succ hn)]
      rfl

/-- In ASCII, a column is what lies between so many characters before it and any characters behind
it. -/
theorem column_of_ascii {start stop : Nat} {before field after : List Char}
    (h : ∀ c ∈ before ++ field ++ after, IsAscii c) (hbefore : before.length = start)
    (hfield : start + field.length = stop) :
    column start stop (before ++ field ++ after) = some field := by
  have hdrop : dropBytes start (before ++ field ++ after) = some (field ++ after) := by
    rw [dropBytes_of_ascii h (by simp; omega), List.append_assoc, ← hbefore, List.drop_left]
  have htail : ∀ c ∈ field ++ after, IsAscii c := fun c hc =>
    h c (by rw [List.append_assoc]; exact List.mem_append_right before hc)
  have hwidth : stop - start = field.length := by omega
  rw [column, hdrop, Option.bind_some, hwidth, takeBytes_of_ascii htail (by simp),
    List.take_left]

end NesMachine.Text
