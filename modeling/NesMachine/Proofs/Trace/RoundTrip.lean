import Mathlib.Data.List.TakeDrop
import Mathlib.Data.List.TakeWhile
import NesMachine.Proofs.Assembly
import NesMachine.Proofs.Text.Numeral
import NesMachine.Proofs.Text.Words
import NesMachine.Trace.Reader

/-!
# Trace lines are read back

A line that is printable is read back from its text with everything on it
(`TraceLine.read?_render`). The text of a line is a part in columns that holds no colon, and six
entries with a blank between them, so its words are those of the columns and the entries
(`TraceLine.words_chars`).
-/

set_option autoImplicit false

namespace NesMachine

open Text

namespace TraceLine

/-- A line whose columns hold what is put into them. -/
structure Printable (t : TraceLine) : Prop where
  bytes_le : t.bytes.length ≤ 3
  ascii : ∀ c ∈ t.assembly.toList, IsAscii c
  no_colon : ':' ∉ t.assembly.toList
  trimmed : trim t.assembly.toList = t.assembly.toList
  length_le : t.assembly.toList.length ≤ 31

/-! ## The parts of a line -/

/-- The column of the bytes. -/
def bytesColumn (t : TraceLine) : List Char :=
  t.bytesChars.rightpad 8 ' '

/-- The column of the assembly. -/
def assemblyColumn (t : TraceLine) : List Char :=
  t.assemblyChars.rightpad 33 ' '

/-- The six entries that are found by their keys. -/
def entries (t : TraceLine) : List (List Char) :=
  ['A' :: ':' :: Hex.byte t.a, 'X' :: ':' :: Hex.byte t.x, 'Y' :: ':' :: Hex.byte t.y,
    'P' :: ':' :: Hex.byte t.p, 'S' :: 'P' :: ':' :: Hex.byte t.sp,
    'C' :: 'Y' :: 'C' :: ':' :: Nat.toDigits 10 t.cycles.toNat]

/-- A line is its columns and its entries. -/
theorem chars_eq (t : TraceLine) :
    t.chars = Hex.ofWord t.pc ++ [' ', ' '] ++ t.bytesColumn ++ [' '] ++ t.assemblyColumn ++
      [' '].intercalate t.entries := by
  simp [chars, bytesColumn, assemblyColumn, entries, List.intercalate_cons_cons,
    List.append_assoc]

variable {t : TraceLine}

/-- The bytes fit in their column. -/
theorem length_bytesColumn (h : t.Printable) : t.bytesColumn.length = 8 := by
  -- Three bytes with two blanks between them fill the column to its last character.
  have hlength : t.bytesChars.length ≤ 8 := by
    have hle := h.bytes_le
    rw [bytesChars]
    match t.bytes, hle with
    | [], _ => decide
    | [a], _ => simp [Hex.byte]
    | [a, b], _ => simp [Hex.byte, List.intercalate_cons_cons]
    | [a, b, c], _ => simp [Hex.byte, List.intercalate_cons_cons]
  rw [bytesColumn, List.length_rightpad, Nat.max_eq_left hlength]

/-- The assembly leaves a blank at the end of its column. -/
theorem assemblyColumn_eq (h : t.Printable) :
    t.assemblyColumn.length = 33 ∧ ∃ count,
      t.assemblyColumn = t.assemblyChars ++ List.replicate count ' ' ++ [' '] := by
  -- The column of the star adds at most one character to the assembly.
  have hlength : t.assemblyChars.length ≤ 32 := by
    have hle := h.length_le
    rw [assemblyChars]
    split
    · rename_i rest htext
      rw [htext] at hle
      exact Nat.le_succ_of_le hle
    · exact Nat.succ_le_succ hle
  refine ⟨?_, 32 - t.assemblyChars.length, ?_⟩
  · rw [assemblyColumn, List.length_rightpad, Nat.max_eq_left (Nat.le_succ_of_le hlength)]
  · rw [assemblyColumn, List.rightpad, List.append_assoc, ← List.replicate_succ',
      ← Nat.sub_add_comm hlength]

/-! ## Characters -/

theorem mem_rightpad {width : Nat} {text : List Char} {c : Char}
    (hc : c ∈ text.rightpad width ' ') : c = ' ' ∨ c ∈ text := by
  rcases List.mem_append.1 hc with htext | hblank
  · exact .inr htext
  · exact .inl (List.eq_of_mem_replicate hblank)

theorem mem_bytesColumn {c : Char} (hc : c ∈ t.bytesColumn) : Visible c ∨ c = ' ' := by
  rcases mem_rightpad hc with hblank | hbytes
  · exact .inr hblank
  · rcases mem_intercalate hbytes with hblank | ⟨token, htoken, hmem⟩
    · exact .inr hblank
    · obtain ⟨v, -, rfl⟩ := List.mem_map.1 htoken
      exact .inl (visible_fixed 2 v.toNat c hmem)

theorem mem_assemblyColumn {c : Char} (hc : c ∈ t.assemblyColumn) :
    c = ' ' ∨ c ∈ t.assembly.toList := by
  rcases mem_rightpad hc with hblank | hassembly
  · exact .inl hblank
  · rw [assemblyChars] at hassembly
    split at hassembly
    · rename_i rest htext
      rw [htext]
      exact .inr hassembly
    · exact List.mem_cons.1 hassembly

/-- What stands before the entries is visible, blank, or from the assembly. -/
theorem mem_columns {c : Char}
    (hc : c ∈ Hex.ofWord t.pc ++ [' ', ' '] ++ t.bytesColumn ++ [' '] ++ t.assemblyColumn) :
    Visible c ∨ c = ' ' ∨ c ∈ t.assembly.toList := by
  rcases List.mem_append.1 hc with hc | hassembly
  · rcases List.mem_append.1 hc with hc | hblank
    · rcases List.mem_append.1 hc with hc | hbytes
      · rcases List.mem_append.1 hc with hpc | hblanks
        · exact .inl (visible_fixed 4 t.pc.toNat c hpc)
        · exact .inr (.inl (by simpa using hblanks))
      · rcases mem_bytesColumn hbytes with hvisible | hblank
        · exact .inl hvisible
        · exact .inr (.inl hblank)
    · exact .inr (.inl (List.mem_singleton.1 hblank))
  · exact .inr (mem_assemblyColumn hassembly)

theorem mem_entries {c : Char} {entry : List Char} (hentry : entry ∈ t.entries) (hc : c ∈ entry) :
    Visible c ∨ c = ':' := by
  have hdigits := visible_fixed
  have hnumber := visible_toDigits t.cycles.toNat
  have hkeys : ∀ c ∈ ['A', 'X', 'Y', 'P', 'S', 'C'], Visible c := visible_of_all (by decide)
  unfold entries Hex.byte at hentry
  grind

/-- What stands on a line is visible, a blank, a colon, or from the assembly. -/
theorem mem_chars {c : Char} (hc : c ∈ t.chars) :
    Visible c ∨ c = ' ' ∨ c = ':' ∨ c ∈ t.assembly.toList := by
  rw [chars_eq] at hc
  rcases List.mem_append.1 hc with hcolumns | hentries
  · rcases mem_columns hcolumns with hvisible | hblank | hassembly
    · exact .inl hvisible
    · exact .inr (.inl hblank)
    · exact .inr (.inr (.inr hassembly))
  · rcases mem_intercalate hentries with hblank | ⟨entry, hentry, hmem⟩
    · exact .inr (.inl hblank)
    · rcases mem_entries hentry hmem with hvisible | hcolon
      · exact .inl hvisible
      · exact .inr (.inr (.inl hcolon))

theorem ascii_chars (h : t.Printable) : ∀ c ∈ t.chars, IsAscii c := by
  intro c hc
  rcases mem_chars hc with hvisible | rfl | rfl | hassembly
  · exact hvisible.ascii
  · decide
  · decide
  · exact h.ascii c hassembly

/-! ## Reading the columns -/

theorem column_pc (h : t.Printable) : column 0 4 t.chars = some (Hex.ofWord t.pc) := by
  have hascii := ascii_chars h
  have hsplit : t.chars = [] ++ Hex.ofWord t.pc ++ ([' ', ' '] ++ t.bytesColumn ++ [' '] ++
      t.assemblyColumn ++ [' '].intercalate t.entries) := by
    rw [chars_eq]
    simp only [List.append_assoc, List.nil_append]
  rw [hsplit] at hascii ⊢
  exact column_of_ascii hascii rfl (by simp [Hex.ofWord])

theorem column_bytes (h : t.Printable) : column 6 14 t.chars = some t.bytesColumn := by
  have hascii := ascii_chars h
  have hsplit : t.chars = (Hex.ofWord t.pc ++ [' ', ' ']) ++ t.bytesColumn ++ ([' '] ++
      t.assemblyColumn ++ [' '].intercalate t.entries) := by
    rw [chars_eq]
    simp only [List.append_assoc]
  rw [hsplit] at hascii ⊢
  exact column_of_ascii hascii (by simp [Hex.ofWord]) (by rw [length_bytesColumn h])

theorem column_assembly (h : t.Printable) : column 15 48 t.chars = some t.assemblyColumn := by
  have hascii := ascii_chars h
  have hsplit : t.chars = (Hex.ofWord t.pc ++ [' ', ' '] ++ t.bytesColumn ++ [' ']) ++
      t.assemblyColumn ++ [' '].intercalate t.entries := chars_eq t
  rw [hsplit] at hascii ⊢
  refine column_of_ascii hascii ?_ (by rw [(assemblyColumn_eq h).1])
  simp [Hex.ofWord, length_bytesColumn h]

/-- The words of the column of the bytes are the bytes. -/
theorem words_bytesColumn (t : TraceLine) : words t.bytesColumn = t.bytes.map Hex.byte := by
  rw [bytesColumn, List.rightpad, words_append_blanks]
  apply words_intercalate
  intro token htoken
  obtain ⟨v, -, rfl⟩ := List.mem_map.1 htoken
  refine ⟨?_, fun c hc => (visible_fixed 2 v.toNat c hc).not_blank⟩
  exact List.length_pos_iff.1 (by simp [Hex.byte])

/-- What is trimmed off the column of the assembly leaves the assembly. -/
theorem trim_assemblyColumn (h : t.Printable) :
    trim t.assemblyColumn = t.assembly.toList := by
  rw [assemblyColumn, List.rightpad, trim_append_blanks, assemblyChars]
  split
  · rename_i rest htext
    rw [← htext, h.trimmed]
  · rw [trim_cons_blank rfl, h.trimmed]

theorem words_entries (t : TraceLine) : words ([' '].intercalate t.entries) = t.entries := by
  apply words_intercalate
  intro entry hentry
  refine ⟨?_, fun c hc => ?_⟩
  · have hcons : ∀ entry ∈ t.entries, entry ≠ [] := by simp [entries]
    exact hcons entry hentry
  · rcases mem_entries hentry hc with hvisible | rfl
    · exact hvisible.not_blank
    · rfl

/-- The words of a line are words without a colon, those of the columns, and its entries. -/
theorem words_chars (h : t.Printable) : ∃ front, (∀ word ∈ front, ':' ∉ word) ∧
    words t.chars = front ++ t.entries := by
  obtain ⟨-, count, hpadded⟩ := assemblyColumn_eq h
  -- The blank that ends the column of the assembly separates its last word from the first entry.
  let columns := Hex.ofWord t.pc ++ [' ', ' '] ++ t.bytesColumn ++ [' '] ++
    (t.assemblyChars ++ List.replicate count ' ')
  have hcolumns : Hex.ofWord t.pc ++ [' ', ' '] ++ t.bytesColumn ++ [' '] ++ t.assemblyColumn =
      columns ++ [' '] := by
    rw [hpadded, ← List.append_assoc]
  have hsplit : t.chars = columns ++ ' ' :: [' '].intercalate t.entries := by
    rw [chars_eq, hcolumns, List.append_assoc, List.singleton_append]
  refine ⟨words columns, fun word hword hcolon => ?_, ?_⟩
  · have hmem : ':' ∈ Hex.ofWord t.pc ++ [' ', ' '] ++ t.bytesColumn ++ [' '] ++
        t.assemblyColumn := by
      rw [hcolumns]
      exact List.mem_append_left _ (mem_of_mem_words hword ':' hcolon)
    rcases mem_columns hmem with hvisible | hblank | hassembly
    · exact hvisible.ne_colon rfl
    · exact absurd hblank (by decide)
    · exact h.no_colon hassembly
  · rw [hsplit, words_append_blank _ _ rfl, words_entries]

/-! ## Reading the entries -/

/-- Words without a colon are passed over. -/
theorem readEntries?_append {front : List (List Char)} (h : ∀ word ∈ front, ':' ∉ word)
    (start : TraceLine) (count : UInt8) (rest : List (List Char)) :
    start.readEntries? count (front ++ rest) = start.readEntries? count rest := by
  induction front with
  | nil => rfl
  | cons word front ih =>
    have hword : word.span (· ≠ ':') = (word, []) := by
      have hall : ∀ c ∈ word, decide (c ≠ ':') = true := by
        intro c hc
        exact decide_eq_true fun hcolon => h word List.mem_cons_self (hcolon ▸ hc)
      rw [List.span_eq_takeWhile_dropWhile, List.takeWhile_eq_self_iff.2 hall,
        List.dropWhile_eq_nil_iff.2 hall]
    rw [List.cons_append, readEntries?, hword]
    exact ih fun other hother => h other (List.mem_cons_of_mem word hother)

theorem readHexByte?_byte (v : UInt8) : readHexByte? (Hex.byte v) = some v := by
  rw [readHexByte?, readNumeral_byte]
  exact congrArg some UInt8.ofNat_toNat

theorem readHexWord?_ofWord (w : UInt16) : readHexWord? (Hex.ofWord w) = some w := by
  rw [readHexWord?, readNumeral_ofWord]
  exact congrArg some UInt16.ofNat_toNat

theorem readCycles?_toDigits (n : UInt64) :
    readCycles? (Nat.toDigits 10 n.toNat) = some n := by
  rw [readCycles?, readNumeral_toDigits _ (Nat.le_of_lt_succ n.toNat_lt)]
  exact congrArg some UInt64.ofNat_toNat

theorem mapM_readHexByte? (bytes : List UInt8) :
    (bytes.map Hex.byte).mapM readHexByte? = some bytes := by
  induction bytes with
  | nil => rfl
  | cons v rest ih =>
    rw [List.map_cons, List.mapM_cons, readHexByte?_byte, ih]
    rfl

/-- The entries of a line are read into any line. -/
theorem readEntries?_entries (t start : TraceLine) :
    start.readEntries? 0 t.entries =
      some ({ t with pc := start.pc, bytes := start.bytes, assembly := start.assembly }, 6) := by
  simp [entries, readEntries?, List.span, List.span.loop, TraceKey.ofChars?, setEntry?,
    readHexByte?_byte, readCycles?_toDigits]

/-- A printable line is read back from its text. -/
theorem read?_render (h : t.Printable) : read? t.render = some t := by
  obtain ⟨front, hfront, hwords⟩ := words_chars h
  rw [read?, render, String.toList_ofList, ofChars?, column_pc h, column_bytes h,
    column_assembly h, hwords]
  simp only [Option.bind_eq_bind, Option.bind_some, Option.getD_some, readHexWord?_ofWord,
    words_bytesColumn, mapM_readHexByte?, trim_assemblyColumn h, readEntries?_append hfront,
    readEntries?_entries, String.ofList_toList]
  rfl

end TraceLine

end NesMachine
