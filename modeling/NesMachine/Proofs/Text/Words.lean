import Mathlib.Data.List.TakeWhile
import NesMachine.Text.Blank

/-!
# Words and trimming

A blank between two texts separates their words (`Text.words_append_blank`), a text without blanks
is one word (`Text.words_of_no_blank`), and blanks at the ends of a text, and they alone, are
trimmed (`Text.trim_append_blanks`, `Text.trim_eq_self_iff`).
-/

set_option autoImplicit false

namespace NesMachine.Text

/-! ## Words -/

/-- The words of two texts with a blank between them. -/
theorem words_append_blank (first second : List Char) {blank : Char} (h : isBlank blank = true) :
    words (first ++ blank :: second) = words first ++ words second := by
  rw [words, List.splitOnP_append_cons first second h, List.filter_append]
  rfl

theorem words_of_no_blank {text : List Char} (h : ∀ c ∈ text, isBlank c = false)
    (hne : text ≠ []) : words text = [text] := by
  rw [words, List.splitOnP_eq_singleton h]
  simp [hne]

theorem words_blanks (count : Nat) : words (List.replicate count ' ') = [] := by
  induction count with
  | zero => rfl
  | succ count ih =>
    rw [List.replicate_succ]
    exact (words_append_blank [] _ rfl).trans ih

theorem words_append_blanks (text : List Char) (count : Nat) :
    words (text ++ List.replicate count ' ') = words text := by
  cases count with
  | zero => rw [List.replicate_zero, List.append_nil]
  | succ count =>
    rw [List.replicate_succ, words_append_blank text _ rfl, words_blanks, List.append_nil]

/-- The words of words that are joined by a blank. -/
theorem words_intercalate {tokens : List (List Char)}
    (h : ∀ token ∈ tokens, token ≠ [] ∧ ∀ c ∈ token, isBlank c = false) :
    words ([' '].intercalate tokens) = tokens := by
  induction tokens with
  | nil => rfl
  | cons token rest ih =>
    obtain ⟨hne, hblank⟩ := h token List.mem_cons_self
    have hrest := ih fun other hother => h other (List.mem_cons_of_mem token hother)
    cases rest with
    | nil =>
      rw [List.intercalate_singleton]
      exact words_of_no_blank hblank hne
    | cons next more =>
      rw [List.intercalate_cons_cons, List.append_assoc, List.singleton_append,
        words_append_blank _ _ rfl, hrest, words_of_no_blank hblank hne]
      rfl

/-- The characters of words that are joined by a blank. -/
theorem mem_intercalate {tokens : List (List Char)} {c : Char}
    (hc : c ∈ [' '].intercalate tokens) : c = ' ' ∨ ∃ token ∈ tokens, c ∈ token := by
  induction tokens with
  | nil => cases hc
  | cons token rest ih =>
    cases rest with
    | nil =>
      rw [List.intercalate_singleton] at hc
      exact .inr ⟨token, List.mem_singleton_self token, hc⟩
    | cons next more =>
      rw [List.intercalate_cons_cons, List.append_assoc] at hc
      rcases List.mem_append.1 hc with htoken | htail
      · exact .inr ⟨token, List.mem_cons_self, htoken⟩
      · rcases List.mem_cons.1 htail with hblank | hrest
        · exact .inl hblank
        · rcases ih hrest with hblank | ⟨other, hother, hmem⟩
          · exact .inl hblank
          · exact .inr ⟨other, List.mem_cons_of_mem token hother, hmem⟩

/-- The characters of a piece of a text are among those of the text. -/
theorem mem_of_mem_splitOnP {text piece : List Char} (h : piece ∈ text.splitOnP isBlank) :
    ∀ c ∈ piece, c ∈ text := by
  induction text generalizing piece with
  | nil =>
    rw [List.splitOnP_nil, List.mem_singleton] at h
    rw [h]
    exact fun c hc => hc
  | cons first text ih =>
    -- A blank starts a new first piece, and another character goes in front of the first piece.
    rw [List.splitOnP_cons_eq_if_modifyHead] at h
    obtain ⟨head, tail, hpieces⟩ := List.exists_cons_of_ne_nil (List.splitOnP_ne_nil isBlank text)
    rw [hpieces] at h ih
    intro c hc
    split at h
    · rcases List.mem_cons.1 h with rfl | hrest
      · cases hc
      · exact List.mem_cons_of_mem first (ih hrest c hc)
    · rcases List.mem_cons.1 h with rfl | hrest
      · rcases List.mem_cons.1 hc with rfl | hhead
        · exact List.mem_cons_self
        · exact List.mem_cons_of_mem first (ih List.mem_cons_self c hhead)
      · exact List.mem_cons_of_mem first (ih (List.mem_cons_of_mem head hrest) c hc)

theorem mem_of_mem_words {text word : List Char} (h : word ∈ words text) :
    ∀ c ∈ word, c ∈ text :=
  mem_of_mem_splitOnP (List.mem_filter.1 h).1

/-! ## Trimming -/

theorem trim_cons_blank {blank : Char} (h : isBlank blank = true) (text : List Char) :
    trim (blank :: text) = trim text := by
  rw [trim, List.dropWhile_cons_of_pos h]
  rfl

/-- Blanks behind a text are trimmed. -/
theorem trim_append_blanks (text : List Char) (count : Nat) :
    trim (text ++ List.replicate count ' ') = trim text := by
  have hblanks : ∀ c ∈ List.replicate count ' ', isBlank c = true := by
    intro c hc
    rw [List.eq_of_mem_replicate hc]
    rfl
  rw [trim, trim, List.dropWhile_append]
  split
  · rename_i hempty
    have hdropped : (List.replicate count ' ').dropWhile isBlank = [] := by
      simpa using hblanks
    rw [hdropped, List.isEmpty_iff.1 hempty]
  · rw [List.reverse_append, List.dropWhile_append_of_pos]
    simpa using hblanks

theorem dropWhile_isBlank_eq_self_iff {text : List Char} :
    text.dropWhile isBlank = text ↔ ∀ c, text.head? = some c → isBlank c = false := by
  rw [List.dropWhile_eq_self_iff]
  cases text with
  | nil => simp
  | cons first rest => simp

/-- A text without blanks at its ends is trimmed already. -/
theorem trim_of_ends {text : List Char} (hfirst : ∀ c, text.head? = some c → isBlank c = false)
    (hlast : ∀ c, text.getLast? = some c → isBlank c = false) : trim text = text := by
  rw [← List.head?_reverse] at hlast
  rw [trim, dropWhile_isBlank_eq_self_iff.2 hfirst, dropWhile_isBlank_eq_self_iff.2 hlast,
    List.reverse_reverse]

/-- A text is trimmed already if and only if it has no blank at its ends. -/
theorem trim_eq_self_iff {text : List Char} :
    trim text = text ↔ (∀ c, text.head? = some c → isBlank c = false) ∧
      ∀ c, text.getLast? = some c → isBlank c = false := by
  constructor
  · intro h
    -- Trimming shortens a text by what it drops in front, so here that is nothing.
    have hlength : text.length ≤ (text.dropWhile isBlank).length := by
      have hback := List.length_dropWhile_le isBlank (text.dropWhile isBlank).reverse
      rw [← List.length_reverse, ← trim, h, List.length_reverse] at hback
      exact hback
    have hfront : text.dropWhile isBlank = text :=
      (List.dropWhile_suffix isBlank).eq_of_length_le hlength
    have hback : text.reverse.dropWhile isBlank = text.reverse := by
      rw [trim, hfront] at h
      exact List.reverse_eq_iff.1 h
    refine ⟨dropWhile_isBlank_eq_self_iff.1 hfront, ?_⟩
    rw [← List.head?_reverse]
    exact dropWhile_isBlank_eq_self_iff.1 hback
  · rintro ⟨hfirst, hlast⟩
    exact trim_of_ends hfirst hlast

end NesMachine.Text
