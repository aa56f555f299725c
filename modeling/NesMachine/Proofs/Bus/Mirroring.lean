import NesMachine.Proofs.Bus.Routing
import NesMachine.Proofs.Wiring.Layout

/-!
# The law of mirroring

A device that is built empty shows at each of its cells the byte that was written there last
(`Device.peek_afterCalls`). Mirrored memory has one cell for all the addresses whose distances from
its start are congruent modulo the page, whatever the page and the start. Main statement:
`mirroring_law`. Mirrored memory is refused exactly if it is empty or does not fit below the top of
memory, and otherwise it claims its copies and no other address, and a byte that is written to one
copy is read from all of them. Sizes are natural numbers here, so no product wraps.
-/

set_option autoImplicit false

namespace NesMachine

namespace Device

/-! ## Calls to a device -/

/-- The device after some calls that it answers. -/
def afterCalls (d : Device) (calls : List BusCall) : Device :=
  calls.foldl (fun d call => d.afterCall call) d

theorem afterCalls_concat (d : Device) (past : List BusCall) (call : BusCall) :
    d.afterCalls (past ++ [call]) = (d.afterCalls past).afterCall call := by
  rw [afterCalls, List.foldl_append]
  rfl

@[simp] theorem cleared_afterCall (d : Device) (call : BusCall) :
    (d.afterCall call).cleared = d.cleared := by
  cases call with
  | read addr => exact d.cleared_afterRead
  | peek addr => rfl
  | write addr value => exact d.cleared_write addr value

@[simp] theorem cleared_afterCalls (d : Device) (calls : List BusCall) :
    (d.afterCalls calls).cleared = d.cleared := by
  induction calls using List.reverseRecOn with
  | nil => rfl
  | append_singleton past call ih => rw [afterCalls_concat, cleared_afterCall, ih]

theorem cell?_afterCalls (d : Device) (calls : List BusCall) :
    (d.afterCalls calls).cell? = d.cell? := by
  rw [← cell?_cleared, cleared_afterCalls, cell?_cleared]

theorem fault?_afterCalls (d : Device) (calls : List BusCall) :
    (d.afterCalls calls).fault? = d.fault? := by
  rw [← fault?_cleared, cleared_afterCalls, fault?_cleared]

/-- After any calls a read leaves a device as it is if the device was no latch to begin with. -/
theorem afterRead_afterCalls {d : Device} (h : d.isLatch = false) (calls : List BusCall) :
    (d.afterCalls calls).afterRead = d.afterCalls calls := by
  apply afterRead_of_not_latch
  rw [← isLatch_cleared, cleared_afterCalls, isLatch_cleared]
  exact h

theorem isLatch_of_cell {d : Device} {addr : UInt16} {cell : Nat} (h : d.cell? addr = some cell) :
    d.isLatch = false := by
  obtain ⟨name, first, last, body⟩ := d
  cases body with
  | memory | mirrored | prgWindow | chrWindow => rfl
  | latch => cases h

/-- A device in which nothing was stored shows at a cell the byte that was written there last. -/
theorem peek_afterCalls {d : Device} (hcleared : d.cleared = d) {addr : UInt16} {cell : Nat}
    (hcell : d.cell? addr = some cell) (slot : Slot) (past : List BusCall) :
    (d.afterCalls past).peek slot addr =
      lastWritten (BusCall.written? fun a => d.cell? a = some cell) past := by
  induction past using List.reverseRecOn with
  | nil =>
    rw [afterCalls, List.foldl_nil, ← hcleared, lastWritten_nil]
    exact peek_cleared hcell slot
  | append_singleton past call ih =>
    have hseen : (d.afterCalls past).cell? addr = some cell := by
      rw [cell?_afterCalls]
      exact hcell
    rw [afterCalls_concat, lastWritten_concat, ← ih]
    cases call with
    | read read =>
      rw [afterCall, afterRead_afterCalls (isLatch_of_cell hcell)]
      rfl
    | peek looked => rfl
    | write written value =>
      -- The byte is seen exactly if it went to the cell that is looked at.
      rw [afterCall, peek_write hseen written value slot slot, cell?_afterCalls, BusCall.written?]
      by_cases hsame : d.cell? written = some cell
      · simp [hsame]
      · simp [hsame]

/-! ## Mirrored memory -/

/-- What mirrored memory does whose `count` copies of a page lie from `start` on. -/
structure Mirrors (start : UInt16) (page count : Nat) (d : Device) : Prop where
  first : d.first = start
  last : d.last.toNat = start.toNat + page * count - 1
  /-- It claims its copies and no other address. -/
  contains_iff : ∀ addr : UInt16, d.contains addr = true ↔
    start.toNat ≤ addr.toNat ∧ addr.toNat ≤ start.toNat + page * count - 1
  /-- After any calls in its range it answers each address of the range with the byte that was
  written last to one of the copies of its cell, and a read of that byte changes nothing. -/
  shows : ∀ past : List BusCall, (∀ call ∈ past, d.contains call.addr = true) →
    ∀ addr : UInt16, d.contains addr = true → ∀ slot : Slot,
      (d.afterCalls past).fault? slot addr = none ∧
        (d.afterCalls past).peek slot addr =
          lastWritten (BusCall.written? fun written =>
            (written.toNat - start.toNat) % page = (addr.toNat - start.toNat) % page) past ∧
        (d.afterCalls past).afterRead = d.afterCalls past

section Mirrored

variable {start : UInt16} {page count : Nat}

/-- Mirrored memory that is not refused has a copy of a page and fits below the top of memory. -/
theorem mirrored?_eq_ok_iff {d : Device} :
    mirrored? start page count = .ok d ↔
      (page ≠ 0 ∧ count ≠ 0 ∧ start.toNat + page * count ≤ 0x10000) ∧
        mirrored "mirrored ram" start page count = d := by
  rw [mirrored?]
  split
  next hempty =>
    constructor
    · intro h
      cases h
    · rintro ⟨⟨hpage, hcount, -⟩, -⟩
      exact absurd hempty (not_or.2 ⟨hpage, hcount⟩)
  next hsome =>
    obtain ⟨hpage, hcount⟩ := not_or.1 hsome
    split
    next hlarge =>
      constructor
      · intro h
        cases h
      · rintro ⟨⟨-, -, hfits⟩, -⟩
        exact absurd hfits (Nat.not_le.2 hlarge)
    next hfits =>
      rw [Except.ok.injEq]
      exact (and_iff_right ⟨hpage, hcount, Nat.not_lt.1 hfits⟩).symm

/-- Mirrored memory is refused exactly if it is empty or does not fit. -/
theorem mirrored?_eq_error_iff :
    (∃ error, mirrored? start page count = .error error) ↔
      page = 0 ∨ count = 0 ∨ 0x10000 < start.toNat + page * count := by
  have haccepted : mirrored? start page count = .ok (mirrored "mirrored ram" start page count) ↔
      page ≠ 0 ∧ count ≠ 0 ∧ start.toNat + page * count ≤ 0x10000 := by
    rw [mirrored?_eq_ok_iff]
    exact and_iff_left rfl
  constructor
  · rintro ⟨error, herror⟩
    rw [herror] at haccepted
    by_contra hnone
    simp only [not_or, Nat.not_lt] at hnone
    cases haccepted.2 hnone
  · intro hrefused
    cases hbuilt : mirrored? start page count with
    | error error => exact ⟨error, rfl⟩
    | ok d =>
      obtain ⟨⟨hpage, hcount, hfits⟩, -⟩ := mirrored?_eq_ok_iff.1 hbuilt
      rcases hrefused with hzero | hzero | hlarge
      · exact absurd hzero hpage
      · exact absurd hzero hcount
      · exact absurd hfits (Nat.not_le.2 hlarge)

theorem toNat_last_mirrored (name : String) (hpage : page ≠ 0) (hcount : count ≠ 0)
    (hfits : start.toNat + page * count ≤ 0x10000) :
    (mirrored name start page count).last.toNat = start.toNat + page * count - 1 := by
  have hsize : 0 < page * count := Nat.mul_pos (Nat.pos_of_ne_zero hpage) (Nat.pos_of_ne_zero hcount)
  apply UInt16.toNat_ofNat_of_lt'
  rw [UInt16.size]
  omega

/-- Mirrored memory that is built mirrors its page. -/
theorem mirrors_of_mirrored? {d : Device} (h : mirrored? start page count = .ok d) :
    Mirrors start page count d := by
  obtain ⟨⟨hpage, hcount, hfits⟩, rfl⟩ := mirrored?_eq_ok_iff.1 h
  have hpos := Nat.pos_of_ne_zero hpage
  have hlast := toNat_last_mirrored "mirrored ram" hpage hcount hfits
  have hcell (addr : UInt16) : (mirrored "mirrored ram" start page count).cell? addr =
      some ((addr.toNat - start.toNat) % page) :=
    cell?_mirrored hpos
  have hcontains (addr : UInt16) :
      (mirrored "mirrored ram" start page count).contains addr = true ↔
        start.toNat ≤ addr.toNat ∧ addr.toNat ≤ start.toNat + page * count - 1 := by
    rw [contains, Bool.and_eq_true, decide_eq_true_eq, decide_eq_true_eq, UInt16.le_iff_toNat_le,
      UInt16.le_iff_toNat_le, hlast]
    rfl
  refine ⟨rfl, hlast, hcontains, fun past _ addr haddr slot => ⟨?_, ?_, ?_⟩⟩
  · rw [fault?_afterCalls]
    exact fault?_mirrored hpos (UInt16.le_iff_toNat_le.2 ((hcontains addr).1 haddr).1) slot
  · rw [peek_afterCalls (cleared_mirrored ..) (hcell addr)]
    simp only [hcell, Option.some.injEq]
  · exact afterRead_afterCalls (isLatch_mirrored ..) past

end Mirrored

end Device

/-- Mirrored memory is refused exactly if it is empty or does not fit below the top of memory, and
otherwise it mirrors its page over its range. -/
theorem mirroring_law (start : UInt16) (page count : Nat) :
    ((∃ error, Device.mirrored? start page count = .error error) ↔
        page = 0 ∨ count = 0 ∨ 0x10000 < start.toNat + page * count) ∧
      ∀ d, Device.mirrored? start page count = .ok d → d.Mirrors start page count :=
  ⟨Device.mirrored?_eq_error_iff, fun _ hbuilt => Device.mirrors_of_mirrored? hbuilt⟩

/-- Three copies of three bytes fit below the top of memory up to its last address, and the last copy
shows what was written to the first one. One address further up they do not fit. -/
theorem mirroring_law_to_top :
    (∃ error, Device.mirrored? 0xFFF8 3 3 = .error error) ∧
      ∃ d, Device.mirrored? 0xFFF7 3 3 = .ok d ∧ d.last.toNat = 0xFFFF ∧
        (d.afterCalls [.write 0xFFF8 0x11, .write 0xFFF7 0x22]).peek none 0xFFFE = 0x11 := by
  have hbuilt : Device.mirrored? 0xFFF7 3 3 = .ok (.mirrored "mirrored ram" 0xFFF7 3 3) := rfl
  have hmirrors := (mirroring_law 0xFFF7 3 3).2 _ hbuilt
  obtain ⟨-, hpeek, -⟩ := hmirrors.shows [.write 0xFFF8 0x11, .write 0xFFF7 0x22] (by decide)
    0xFFFE (by decide) none
  exact ⟨(mirroring_law 0xFFF8 3 3).1.2 (by decide), _, hbuilt, hmirrors.last, hpeek.trans rfl⟩

end NesMachine
