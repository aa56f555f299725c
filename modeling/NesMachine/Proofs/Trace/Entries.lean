import Mathlib.Data.List.Perm.Subperm
import Mathlib.Data.List.TakeDrop
import NesMachine.Proofs.Guarded.Reading

/-!
# The columns of a line that is read

A trace line is read from the words of its text that are a key, a colon and a value
(`TraceLine.column?_eq_some_iff`). Reading counts these words in a byte and asks for six of them, and
a word replaces what an earlier word with the same key has put into its place. In a line that is read
the registers and the cycles therefore have the value of the last word with their key, and are zero
if there is no such word. If the words are no more than a byte counts, then they are six, and all six
keys are there exactly if none is repeated (`TraceLine.columns_of_read`).
-/

set_option autoImplicit false

namespace NesMachine

/-! ## Keys -/

namespace TraceKey

/-- The text of a key. -/
def chars : TraceKey → List Char
  | .a => ['A']
  | .x => ['X']
  | .y => ['Y']
  | .p => ['P']
  | .sp => ['S', 'P']
  | .cycles => ['C', 'Y', 'C']

/-- The number that the value of an entry stands for, if it is one that fits. -/
def value? (key : TraceKey) (text : List Char) : Option Nat :=
  match key with
  | .cycles => (TraceLine.readCycles? text).map UInt64.toNat
  | .a | .x | .y | .p | .sp => (TraceLine.readHexByte? text).map UInt8.toNat

theorem ofChars?_eq_some_iff {text : List Char} {key : TraceKey} :
    ofChars? text = some key ↔ text = key.chars := by
  constructor
  · intro h
    unfold ofChars? at h
    split at h <;> cases h <;> rfl
  · rintro rfl
    cases key <;> rfl

theorem colon_notMem_chars (key : TraceKey) : ':' ∉ key.chars := by
  cases key <;> decide

/-- The six keys. -/
def all : List TraceKey :=
  [.a, .x, .y, .p, .sp, .cycles]

theorem mem_all (key : TraceKey) : key ∈ all := by
  cases key <;> decide

/-- Among six keys all occur exactly if none is repeated. -/
theorem forall_mem_iff_nodup {keys : List TraceKey} (h : keys.length = 6) :
    (∀ key, key ∈ keys) ↔ keys.Nodup := by
  constructor
  · intro hmem
    have hsub : all.Subperm keys := List.subperm_of_subset (by decide) fun key _ => hmem key
    exact (hsub.perm_of_length_le (Nat.le_of_eq h)).nodup (by decide)
  · intro hnodup key
    have hsub : keys.Subperm all := List.subperm_of_subset hnodup fun key _ => key.mem_all
    exact (hsub.perm_of_length_le (Nat.le_of_eq h.symm)).mem_iff.2 key.mem_all

end TraceKey

namespace TraceLine

/-- What a line shows under a key, as a number. -/
def field (t : TraceLine) : TraceKey → Nat
  | .a => t.a.toNat
  | .x => t.x.toNat
  | .y => t.y.toNat
  | .p => t.p.toNat
  | .sp => t.sp.toNat
  | .cycles => t.cycles.toNat

variable {t u : TraceLine} {key : TraceKey} {value : List Char}

/-! ## Recognised words -/

/-- A word is an entry exactly if it is a key, a colon and a value. -/
theorem column?_eq_some_iff {token : List Char} :
    column? token = some (key, value) ↔ token = key.chars ++ ':' :: value := by
  rw [column?, List.span_eq_takeWhile_dropWhile]
  constructor
  · intro h
    -- What follows the part without a colon starts with one.
    have hjoin := List.takeWhile_append_dropWhile (p := (· ≠ ':')) (l := token)
    have hhead := List.head?_dropWhile_not (· ≠ ':') token
    cases hrest : token.dropWhile (· ≠ ':') with
    | nil =>
      rw [hrest] at h
      cases h
    | cons colon rest =>
      rw [hrest] at h hjoin hhead
      obtain ⟨found, hfound, hpair⟩ := Option.map_eq_some_iff.1 h
      cases hpair
      have hcolon : colon = ':' := by simpa using hhead
      rw [← hjoin, hcolon, TraceKey.ofChars?_eq_some_iff.1 hfound]
  · rintro rfl
    have hkey : ∀ c ∈ key.chars, decide (c ≠ ':') = true := by
      intro c hc
      exact decide_eq_true fun hcolon => key.colon_notMem_chars (hcolon ▸ hc)
    rw [List.takeWhile_append_of_pos hkey, List.dropWhile_append_of_pos hkey,
      List.takeWhile_cons_of_neg (by simp), List.dropWhile_cons_of_neg (by simp), List.append_nil]
    dsimp only
    rw [TraceKey.ofChars?_eq_some_iff.2 rfl]
    rfl

/-- The entries among the words of a text, in order. -/
def recognised (text : String) : List (TraceKey × List Char) :=
  (Text.words text.toList).filterMap column?

/-- The entries are the words that consist of a key, a colon and a value. -/
theorem mem_recognised_iff {text : String} :
    (key, value) ∈ recognised text ↔ key.chars ++ ':' :: value ∈ Text.words text.toList := by
  simp only [recognised, List.mem_filterMap, column?_eq_some_iff, exists_eq_right]

/-! ## Reading the entries -/

/-- An entry that fits replaces what the line shows under its key. -/
theorem field_setEntry? (h : t.setEntry? value key = some u) :
    key.value? value = some (u.field key) ∧
      ∀ other, other ≠ key → u.field other = t.field other := by
  cases key with
  | a | x | y | p | sp | cycles =>
    obtain ⟨v, hv, rfl⟩ := Option.map_eq_some_iff.1 h
    refine ⟨?_, fun other hother => ?_⟩
    · rw [TraceKey.value?, hv]
      rfl
    · cases other <;> first | rfl | exact absurd rfl hother

/-- Put the values of some entries into their places, one after the other. -/
def setEntries? (t : TraceLine) (entries : List (TraceKey × List Char)) : Option TraceLine :=
  entries.foldlM (fun t entry => t.setEntry? entry.2 entry.1) t

/-- Reading is passing over the words that are no entries, and putting the others into their
places. -/
theorem readEntries?_eq (t : TraceLine) (count : UInt8) (words : List (List Char)) :
    t.readEntries? count words = (t.setEntries? (words.filterMap column?)).map
      (·, count + UInt8.ofNat (words.filterMap column?).length) := by
  induction words generalizing t count with
  | nil => exact congrArg (fun n => some (t, n)) (UInt8.add_zero count).symm
  | cons token rest ih =>
    rw [readEntries?_cons]
    cases hcolumn : column? token with
    | none =>
      rw [List.filterMap_cons_none hcolumn]
      exact ih t count
    | some entry =>
      rw [List.filterMap_cons_some hcolumn, setEntries?, List.foldlM_cons]
      dsimp only
      cases hset : t.setEntry? entry.2 entry.1 with
      | none => rfl
      | some later =>
        dsimp only
        rw [ih, List.length_cons, UInt8.ofNat_add, UInt8.add_assoc, UInt8.add_comm 1]
        rfl

/-- By induction on the entries from the last one, what a line shows under a key is the value of the
last entry with that key, or is as before if there is none. -/
theorem field_setEntries? {entries : List (TraceKey × List Char)}
    (h : t.setEntries? entries = some u) (key : TraceKey) :
    (∀ value, entries.reverse.lookup key = some value →
      key.value? value = some (u.field key)) ∧
      (entries.reverse.lookup key = none → u.field key = t.field key) := by
  induction entries using List.reverseRecOn generalizing u with
  | nil =>
    cases h
    exact ⟨fun value hvalue => (nomatch hvalue), fun _ => rfl⟩
  | append_singleton entries entry ih =>
    rw [setEntries?, List.foldlM_append] at h
    obtain ⟨before, hbefore, hlast⟩ := Option.bind_eq_some_iff.1 h
    obtain ⟨lastKey, last⟩ := entry
    have hlast : before.setEntry? last lastKey = some u := by simpa using hlast
    obtain ⟨hshown, hothers⟩ := field_setEntry? hlast
    rw [List.reverse_append, List.reverse_singleton, List.singleton_append]
    by_cases hkey : key = lastKey
    · subst hkey
      rw [List.lookup_cons_self]
      exact ⟨fun value hvalue => Option.some.inj hvalue ▸ hshown, fun hnone => nomatch hnone⟩
    · rw [List.lookup_cons, beq_eq_false_iff_ne.2 hkey, hothers key hkey]
      exact ih hbefore

theorem field_placed? {text : List Char} (h : placed? text = some t) (key : TraceKey) :
    t.field key = 0 := by
  obtain ⟨_, -, h⟩ := Option.bind_eq_some_iff.1 h
  obtain ⟨pc, -, h⟩ := Option.bind_eq_some_iff.1 h
  obtain ⟨_, -, h⟩ := Option.bind_eq_some_iff.1 h
  obtain ⟨bytes, -, h⟩ := Option.bind_eq_some_iff.1 h
  cases h
  cases key <;> rfl

/-! ## Lines that are read -/

theorem columns_eq_length (text : String) : columns text = (recognised text).length := by
  rw [columns, recognised, List.length_filterMap_eq_countP]

/-- A key that occurs among some entries has a last entry. -/
theorem exists_last_entry {entries : List (TraceKey × List Char)}
    (h : key ∈ entries.map Prod.fst) :
    ∃ value, entries.reverse.lookup key = some value ∧ (key, value) ∈ entries := by
  obtain ⟨entry, hentry, rfl⟩ := List.mem_map.1 h
  have hsome : (entries.reverse.lookup entry.1).isSome :=
    List.lookup_isSome_iff.2 ⟨entry, List.mem_reverse.2 hentry, beq_self_eq_true _⟩
  obtain ⟨value, hvalue⟩ := Option.isSome_iff_exists.1 hsome
  obtain ⟨before, after, hsplit, -⟩ := List.lookup_eq_some_iff.1 hvalue
  have hlast : (entry.1, value) ∈ entries.reverse := by
    rw [hsplit]
    exact List.mem_append_right before List.mem_cons_self
  exact ⟨value, hvalue, List.mem_reverse.1 hlast⟩

/-- A line that is read has six entries, up to a multiple of 256. What it shows under a key is the
value of the last entry with that key, and zero if there is none. If a byte counts the entries, then
they are six, and an entry for every key, with the value that is shown, is there exactly if no key is
repeated. -/
theorem columns_of_read {text : String} (h : read? text = some t) :
    let entries := recognised text
    entries.length % 256 = 6 ∧
      (∀ key value, entries.reverse.lookup key = some value →
        key.value? value = some (t.field key)) ∧
      (∀ key, entries.reverse.lookup key = none → t.field key = 0) ∧
      (columns text ≤ 255 → entries.length = 6 ∧
        ((∀ key : TraceKey, ∃ value, key.chars ++ ':' :: value ∈ Text.words text.toList ∧
            key.value? value = some (t.field key)) ↔
          (entries.map Prod.fst).Nodup)) := by
  intro entries
  rw [read?_eq] at h
  obtain ⟨start, hplaced, hread⟩ := Option.bind_eq_some_iff.1 h
  obtain ⟨⟨read, count⟩, hentries, hcount⟩ := Option.bind_eq_some_iff.1 hread
  rw [readEntries?_eq, UInt8.zero_add] at hentries
  obtain ⟨_, hset, hpair⟩ := Option.map_eq_some_iff.1 hentries
  cases hpair
  obtain ⟨hsix, hread⟩ := Option.ite_none_right_eq_some.1 hcount
  cases hread
  have hshown := field_setEntries? hset
  have hrest : entries.length % 256 = 6 := by
    have hbyte := congrArg UInt8.toNat hsix
    rwa [UInt8.toNat_ofNat'] at hbyte
  refine ⟨hrest, fun key => (hshown key).1, ?_, fun hcolumns => ?_⟩
  · intro key hnone
    rw [(hshown key).2 hnone]
    exact field_placed? hplaced key
  · rw [columns_eq_length] at hcolumns
    have hlength : entries.length = 6 := by
      rwa [Nat.mod_eq_of_lt (Nat.lt_succ_of_le hcolumns)] at hrest
    have hkeys : (entries.map Prod.fst).length = 6 := by
      rw [List.length_map]
      exact hlength
    refine ⟨hlength, ?_⟩
    rw [← TraceKey.forall_mem_iff_nodup hkeys]
    refine forall_congr' fun key => ⟨?_, fun hmem => ?_⟩
    · rintro ⟨value, hword, -⟩
      exact List.mem_map_of_mem (mem_recognised_iff.2 hword)
    · obtain ⟨value, hlast, hvalue⟩ := exists_last_entry hmem
      exact ⟨value, mem_recognised_iff.1 hvalue, (hshown key).1 value hlast⟩

/-- A line of a log with a further column is read. It has each key once, and the value of each is
the one that is shown. -/
theorem columns_of_read_ppu :
    let text := "C000  4C F5 C5  JMP $C5F5                       A:00 X:01 Y:02 P:24 SP:FD " ++
      "PPU:  0, 21 CYC:7"
    let t : TraceLine := ⟨0xC000, [0x4C, 0xF5, 0xC5], "JMP $C5F5", 0, 1, 2, 0x24, 0xFD, 7⟩
    read? text = some t ∧ ((recognised text).map Prod.fst).Nodup ∧
      ∀ key : TraceKey, ∃ value, key.chars ++ ':' :: value ∈ Text.words text.toList ∧
        key.value? value = some (t.field key) := by
  intro text t
  have hread : read? text = some t := by decide +kernel
  have hnodup : ((recognised text).map Prod.fst).Nodup := by decide +kernel
  obtain ⟨-, -, -, hcounted⟩ := columns_of_read hread
  exact ⟨hread, hnodup, (hcounted (by decide +kernel)).2.2 hnodup⟩

/-- A line that carries `A` six times, and no other column, is read. -/
theorem not_every_column_of_read :
    ¬ ∀ (text : String) (t : TraceLine), columns text ≤ 255 → read? text = some t →
      ∀ key : TraceKey, ∃ value, key.chars ++ ':' :: value ∈ Text.words text.toList ∧
        key.value? value = some (t.field key) := by
  intro hall
  let text := "C000  EA        NOP                             A:01 A:02 A:03 A:04 A:05 A:06"
  have hread : read? text = some ⟨0xC000, [0xEA], "NOP", 6, 0, 0, 0, 0, 0⟩ := by decide +kernel
  obtain ⟨value, hword, -⟩ := hall text _ (by decide +kernel) hread .x
  have hother : ∀ word ∈ Text.words text.toList, word.head? ≠ some 'X' := by decide +kernel
  exact hother _ hword rfl

end TraceLine

end NesMachine
