import Mathlib.Logic.ExistsUnique
import NesMachine.Disassembly

/-!
# A disassembly tiles its range

In memory the instructions from an address on follow each other without gaps, up to the one that
reaches past the top (`startAt?`). A disassembly lists the first of these, up to the last one that
starts in its range (`getElem?_disassemble`), so every address of the range lies in exactly one
instruction, a shorter range is a part of the listing, and a listing goes on where another one ended
(`disassemble_tiles`).

A listing takes one instruction off the front of its range (`disassemble_of_le`), and the address
behind it is higher, so the proofs are inductions on the distance to the top of memory
(`start_induction`).
-/

set_option autoImplicit false

namespace NesMachine

namespace Decoded

/-- The end of an instruction: the number of the address behind it, which may be past the top of
memory. -/
def stop (d : Decoded) : Nat :=
  d.addr.toNat + d.size

/-- The address behind an instruction, unless that is past the top of memory. -/
def next? (d : Decoded) : Option UInt16 :=
  if d.stop < 0x10000 then some (UInt16.ofNat d.stop) else none

theorem addr_lt_stop (d : Decoded) : d.addr.toNat < d.stop :=
  Nat.lt_add_of_pos_right d.size_pos

/-- The address behind an instruction is its end. -/
theorem next?_eq_some_iff (d : Decoded) (next : UInt16) :
    d.next? = some next ↔ next.toNat = d.stop := by
  constructor
  · intro h
    rw [next?] at h
    split at h
    · rename_i hlt
      rw [← Option.some.inj h, UInt16.toNat_ofNat', Nat.mod_eq_of_lt hlt]
    · cases h
  · intro h
    rw [next?, ← h, if_pos next.toNat_lt, UInt16.ofNat_toNat]

end Decoded

variable {memory : UInt16 → UInt8}

/-! ## The starts of instructions -/

/-- Where the instructions start that follow each other from an address on, by their number. After
the one that reaches the top of memory there is none. -/
def startAt? (memory : UInt16 → UInt8) (first : UInt16) : Nat → Option UInt16
  | 0 => some first
  | k + 1 => (startAt? memory first k).bind fun addr => (decodeAt memory addr).next?

/-- What holds of an address if it holds of the one behind its instruction holds everywhere. -/
theorem start_induction {P : UInt16 → Prop} (memory : UInt16 → UInt8)
    (h : ∀ addr, (∀ next, (decodeAt memory addr).next? = some next → P next) → P addr)
    (addr : UInt16) : P addr := by
  -- The distance to the top of memory gets less.
  induction hn : 0x10000 - addr.toNat using Nat.strongRecOn generalizing addr with
  | ind n ih =>
    refine h addr fun next hnext => ih (0x10000 - next.toNat) ?_ next rfl
    have hstop := ((decodeAt memory addr).next?_eq_some_iff next).1 hnext
    have hlt := (decodeAt memory addr).addr_lt_stop
    have haddr : (decodeAt memory addr).addr = addr := rfl
    have htop := addr.toNat_lt
    rw [haddr] at hlt
    omega

/-- The starts behind the first instruction are those from the address behind it on. -/
theorem startAt?_succ (memory : UInt16 → UInt8) (first : UInt16) (k : Nat) :
    startAt? memory first (k + 1) =
      (decodeAt memory first).next?.bind fun next => startAt? memory next k := by
  induction k with
  | zero =>
    exact (Option.bind_fun_some _).symm
  | succ k ih =>
    rw [startAt?, ih, Option.bind_assoc]
    rfl

/-- An instruction starts where an earlier one ends, or behind that. -/
theorem stop_le_of_startAt? {first start later : UInt16} {k l : Nat}
    (hstart : startAt? memory first k = some start) (hlater : startAt? memory first l = some later)
    (hkl : k < l) : (decodeAt memory start).stop ≤ later.toNat := by
  induction l generalizing later with
  | zero => exact absurd hkl (Nat.not_lt_zero k)
  | succ l ih =>
    obtain ⟨before, hbefore, hnext⟩ := Option.bind_eq_some_iff.1 hlater
    have hstop := ((decodeAt memory before).next?_eq_some_iff later).1 hnext
    rcases Nat.lt_succ_iff_lt_or_eq.1 hkl with hlt | rfl
    · have hle := ih hbefore hlt
      have hadvance := (decodeAt memory before).addr_lt_stop
      rw [hstop]
      exact Nat.le_trans hle (Nat.le_of_lt hadvance)
    · obtain rfl : start = before := Option.some.inj (hstart.symm.trans hbefore)
      exact Nat.le_of_eq hstop.symm

/-- No instruction starts before the first. -/
theorem le_of_startAt? {first start : UInt16} {k : Nat}
    (hstart : startAt? memory first k = some start) : first ≤ start := by
  cases k with
  | zero => exact UInt16.le_of_eq (Option.some.inj hstart)
  | succ k =>
    have hle := stop_le_of_startAt? (k := 0) rfl hstart (Nat.succ_pos k)
    have hlt := (decodeAt memory first).addr_lt_stop
    exact UInt16.le_iff_toNat_le.2 (Nat.le_trans (Nat.le_of_lt hlt) hle)

/-- Two instructions that have an address in common are one. -/
theorem startAt?_unique {first start other addr : UInt16} {k l : Nat}
    (hstart : startAt? memory first k = some start) (hother : startAt? memory first l = some other)
    (hin : start ≤ addr ∧ addr.toNat < (decodeAt memory start).stop)
    (hinOther : other ≤ addr ∧ addr.toNat < (decodeAt memory other).stop) : k = l := by
  have hle := UInt16.le_iff_toNat_le.1 hin.1
  have hleOther := UInt16.le_iff_toNat_le.1 hinOther.1
  rcases Nat.lt_trichotomy k l with hlt | heq | hgt
  · have hstop := stop_le_of_startAt? hstart hother hlt
    omega
  · exact heq
  · have hstop := stop_le_of_startAt? hother hstart hgt
    omega

/-- Every address from the first on lies in an instruction. -/
theorem exists_startAt? (memory : UInt16 → UInt8) {first addr : UInt16} (h : first ≤ addr) :
    ∃ k start, startAt? memory first k = some start ∧
      start ≤ addr ∧ addr.toNat < (decodeAt memory start).stop := by
  induction first using start_induction memory with
  | h first ih =>
    by_cases hin : addr.toNat < (decodeAt memory first).stop
    · exact ⟨0, first, rfl, h, hin⟩
    · -- The address is behind the first instruction, so memory goes on there.
      have hstop := Nat.not_lt.1 hin
      have htop := addr.toNat_lt
      have hlt : (decodeAt memory first).stop < 0x10000 := by omega
      have hnext : (decodeAt memory first).next? =
          some (UInt16.ofNat (decodeAt memory first).stop) := if_pos hlt
      have hvalue := ((decodeAt memory first).next?_eq_some_iff _).1 hnext
      have hle : UInt16.ofNat (decodeAt memory first).stop ≤ addr := by
        rw [UInt16.le_iff_toNat_le, hvalue]
        exact hstop
      obtain ⟨k, start, hstart, hcovers⟩ := ih _ hnext hle
      refine ⟨k + 1, start, ?_, hcovers⟩
      rw [startAt?_succ, hnext]
      exact hstart

/-! ## The listing -/

/-- What has been found before stays in front. -/
theorem toList_disassembleFrom (memory : UInt16 → UInt8) (last addr : Nat)
    (found : Array Decoded) : (disassembleFrom memory last addr found).toList =
      found.toList ++ (disassembleFrom memory last addr #[]).toList := by
  induction hn : last + 1 - addr using Nat.strongRecOn generalizing addr found with
  | ind n ih =>
    have hsize := (decodeAt memory (UInt16.ofNat addr)).size_pos
    rw [disassembleFrom, disassembleFrom.eq_def memory last addr #[]]
    by_cases h : addr ≤ last
    · have hless : last + 1 - (addr + (decodeAt memory (UInt16.ofNat addr)).size) < n := by omega
      simp only [if_pos h]
      rw [ih _ hless _ (found.push _) rfl, ih _ hless _ (#[].push _) rfl, Array.toList_push,
        Array.toList_push, List.append_assoc]
      rfl
    · simp only [if_neg h]
      exact (List.append_nil _).symm

theorem disassemble_of_lt (memory : UInt16 → UInt8) {first last : UInt16} (h : last < first) :
    disassemble memory first last = [] := by
  have hlt : ¬ first.toNat ≤ last.toNat := Nat.not_le.2 (UInt16.lt_iff_toNat_lt.1 h)
  rw [disassemble, disassembleFrom, if_neg hlt]

/-- Within the range an instruction is listed, and then the range behind it. -/
theorem disassemble_of_le (memory : UInt16 → UInt8) {first last : UInt16} (h : first ≤ last) :
    disassemble memory first last = decodeAt memory first ::
      (decodeAt memory first).next?.elim [] fun next => disassemble memory next last := by
  have hle : first.toNat ≤ last.toNat := UInt16.le_iff_toNat_le.1 h
  have hcons : disassemble memory first last = decodeAt memory first ::
      (disassembleFrom memory last.toNat (decodeAt memory first).stop #[]).toList := by
    rw [disassemble, disassembleFrom, if_pos hle]
    dsimp only
    rw [toList_disassembleFrom, UInt16.ofNat_toNat]
    rfl
  rw [hcons]
  cases hnext : (decodeAt memory first).next? with
  | none =>
    -- The loop counts past the top of memory and ends.
    have hpast : ¬ (decodeAt memory first).stop ≤ last.toNat := by
      intro hstop
      have htop := last.toNat_lt
      rw [Decoded.next?, if_pos (Nat.lt_of_le_of_lt hstop htop)] at hnext
      cases hnext
    rw [disassembleFrom, if_neg hpast]
    rfl
  | some next =>
    rw [← ((decodeAt memory first).next?_eq_some_iff next).1 hnext]
    rfl

/-- Entry `k` of a listing is the instruction at start `k`, if that is in the range. -/
theorem getElem?_disassemble (memory : UInt16 → UInt8) (first last : UInt16) (k : Nat) :
    (disassemble memory first last)[k]? =
      ((startAt? memory first k).filter fun addr => addr ≤ last).map (decodeAt memory) := by
  induction k generalizing first with
  | zero =>
    rw [startAt?]
    by_cases h : first ≤ last
    · rw [disassemble_of_le memory h, Option.filter, if_pos (decide_eq_true h)]
      rfl
    · rw [disassemble_of_lt memory (UInt16.not_le.1 h), Option.filter, if_neg (by simpa using h)]
      rfl
  | succ k ih =>
    by_cases h : first ≤ last
    · rw [disassemble_of_le memory h, List.getElem?_cons_succ, startAt?_succ]
      cases (decodeAt memory first).next? with
      | none => rfl
      | some next => exact ih next
    · have hnone : (startAt? memory first (k + 1)).filter (fun addr => addr ≤ last) = none := by
        rw [Option.filter_eq_none_iff]
        intro start hstart hle
        exact h (UInt16.le_trans (le_of_startAt? hstart) (of_decide_eq_true hle))
      rw [disassemble_of_lt memory (UInt16.not_le.1 h), hnone]
      rfl

/-- The instructions of a listing are those at the starts in the range. -/
theorem mem_disassemble_iff {first last : UInt16} {d : Decoded} :
    d ∈ disassemble memory first last ↔
      ∃ k start, startAt? memory first k = some start ∧ start ≤ last ∧ d = decodeAt memory start := by
  simp only [List.mem_iff_getElem?, getElem?_disassemble, Option.map_eq_some_iff,
    Option.filter_eq_some_iff, decide_eq_true_eq]
  constructor
  · rintro ⟨k, start, ⟨hstart, hle⟩, rfl⟩
    exact ⟨k, start, hstart, hle, rfl⟩
  · rintro ⟨k, start, hstart, hle, rfl⟩
    exact ⟨k, start, ⟨hstart, hle⟩, rfl⟩

theorem addr_of_mem_disassemble {first last : UInt16} {d : Decoded}
    (h : d ∈ disassemble memory first last) : first ≤ d.addr ∧ d.addr ≤ last := by
  obtain ⟨k, start, hstart, hle, rfl⟩ := mem_disassemble_iff.1 h
  exact ⟨le_of_startAt? hstart, hle⟩

/-- In a listing an instruction ends before the later ones start. -/
theorem pairwise_disassemble (memory : UInt16 → UInt8) (first last : UInt16) :
    (disassemble memory first last).Pairwise fun d e => d.stop ≤ e.addr.toNat := by
  rw [List.pairwise_iff_getElem]
  intro k l hk hl hkl
  have hd := List.getElem?_eq_getElem hk
  have he := List.getElem?_eq_getElem hl
  simp only [getElem?_disassemble, Option.map_eq_some_iff, Option.filter_eq_some_iff] at hd he
  obtain ⟨start, ⟨hstart, -⟩, hd⟩ := hd
  obtain ⟨later, ⟨hlater, -⟩, he⟩ := he
  rw [← hd, ← he]
  exact stop_le_of_startAt? hstart hlater hkl

/-- A listing has at most as many entries as its range has addresses. -/
theorem length_disassemble_le (memory : UInt16 → UInt8) (first last : UInt16) :
    (disassemble memory first last).length ≤ last.toNat + 1 - first.toNat := by
  induction first using start_induction memory with
  | h first ih =>
    by_cases h : first ≤ last
    · have hle := UInt16.le_iff_toNat_le.1 h
      rw [disassemble_of_le memory h, List.length_cons]
      cases hnext : (decodeAt memory first).next? with
      | none =>
        show 0 + 1 ≤ _
        omega
      | some next =>
        have hstop := ((decodeAt memory first).next?_eq_some_iff next).1 hnext
        have hlt : first.toNat < (decodeAt memory first).stop :=
          (decodeAt memory first).addr_lt_stop
        have hrest := ih next hnext
        show (disassemble memory next last).length + 1 ≤ _
        omega
    · rw [disassemble_of_lt memory (UInt16.not_le.1 h)]
      exact Nat.zero_le _

/-! ## Parts of a range -/

/-- The listing of a range that ends earlier is the part of the listing up to there. -/
theorem disassemble_eq_filter {stop last : UInt16} (h : stop ≤ last) (first : UInt16) :
    disassemble memory first stop =
      (disassemble memory first last).filter fun d => d.addr ≤ stop := by
  induction first using start_induction memory with
  | h first ih =>
    by_cases hfirst : first ≤ stop
    · have hkept : decide ((decodeAt memory first).addr ≤ stop) = true := decide_eq_true hfirst
      rw [disassemble_of_le memory hfirst, disassemble_of_le memory (UInt16.le_trans hfirst h),
        List.filter_cons, if_pos hkept]
      cases hnext : (decodeAt memory first).next? with
      | none => rfl
      | some next => exact congrArg _ (ih next hnext)
    · have hnone : (disassemble memory first last).filter (fun d => d.addr ≤ stop) = [] := by
        rw [List.filter_eq_nil_iff]
        intro d hd hle
        have hstart := (addr_of_mem_disassemble hd).1
        exact hfirst (UInt16.le_trans hstart (of_decide_eq_true hle))
      rw [disassemble_of_lt memory (UInt16.not_le.1 hfirst), hnone]

/-- A listing goes on behind the last instruction of a shorter one. -/
theorem disassemble_append {first stop last next : UInt16} {d : Decoded}
    (hd : (disassemble memory first stop).getLast? = some d) (hnext : d.next? = some next)
    (hle : next ≤ last) :
    disassemble memory first last =
      disassemble memory first stop ++ disassemble memory next last := by
  induction first using start_induction memory with
  | h first ih =>
    obtain ⟨hstart, hstop⟩ := addr_of_mem_disassemble (List.mem_of_getLast? hd)
    have hfirst : first ≤ stop := UInt16.le_trans hstart hstop
    have hwhole : first ≤ last := by
      have hend := (d.next?_eq_some_iff next).1 hnext
      have hlt := d.addr_lt_stop
      rw [UInt16.le_iff_toNat_le] at hstart hle ⊢
      omega
    rw [disassemble_of_le memory hfirst] at hd ⊢
    rw [disassemble_of_le memory hwhole]
    cases hsecond : (decodeAt memory first).next? with
    | none =>
      -- Then the first instruction is the last one of the range, and nothing is behind it.
      rw [hsecond] at hd
      have hlast : decodeAt memory first = d := Option.some.inj hd
      rw [← hlast, hsecond] at hnext
      cases hnext
    | some second =>
      rw [hsecond] at hd
      change (decodeAt memory first :: disassemble memory second stop).getLast? = some d at hd
      by_cases hin : second ≤ stop
      · have hne : disassemble memory second stop ≠ [] := by
          rw [disassemble_of_le memory hin]
          exact List.cons_ne_nil _ _
        rw [List.getLast?_cons_of_ne_nil hne] at hd
        exact congrArg _ (ih second hsecond hd)
      · -- The shorter range ends with the first instruction.
        have hempty := disassemble_of_lt memory (UInt16.not_le.1 hin)
        rw [hempty] at hd
        have hlast : decodeAt memory first = d := Option.some.inj hd
        rw [← hlast, hsecond] at hnext
        obtain rfl := Option.some.inj hnext
        show _ = decodeAt memory first :: (disassemble memory second stop ++ _)
        rw [hempty]
        rfl

/-! ## The tiling -/

/-- A listing holds the instructions from `first` on that start up to `last`, in the order of their
addresses, and these tile the range. -/
structure Tiles (memory : UInt16 → UInt8) (first last : UInt16) (found : List Decoded) : Prop where
  /-- Entry `k` is decoded at start `k`, if that is not past the end of the range. -/
  entry_eq : ∀ k, found[k]? =
    ((startAt? memory first k).filter fun addr => addr ≤ last).map (decodeAt memory)
  /-- The addresses listed are the starts not past the end of the range. -/
  mem_addrs_iff : ∀ addr, addr ∈ found.map Decoded.addr ↔
    addr ≤ last ∧ ∃ k, startAt? memory first k = some addr
  /-- Each address is listed once. -/
  ascending : (found.map Decoded.addr).Pairwise (· < ·)
  /-- The line of an address shows what is decoded there. -/
  line_eq : ∀ d ∈ found, d.listing =
    "$" ++ Text.Hex.wordText d.addr ++ ": " ++ (decodeAt memory d.addr).assembly ++ " \x7b" ++
      (decodeAt memory d.addr).instruction.mode.tag ++ "\x7d"
  /-- There are no more entries than addresses. -/
  length_le : found.length ≤ last.toNat + 1 - first.toNat
  /-- Every address of the range lies in exactly one instruction. -/
  covers : ∀ addr, first ≤ addr → addr ≤ last → ∃! k, ∃ start,
    startAt? memory first k = some start ∧
      start ≤ addr ∧ addr.toNat < start.toNat + (decodeAt memory start).size
  /-- A reversed range has no entries. -/
  empty : last < first → found = []

/-- A disassembly tiles its range. -/
theorem tiles_disassemble (memory : UInt16 → UInt8) (first last : UInt16) :
    Tiles memory first last (disassemble memory first last) where
  entry_eq := getElem?_disassemble memory first last
  mem_addrs_iff addr := by
    simp only [List.mem_map, mem_disassemble_iff]
    constructor
    · rintro ⟨-, ⟨k, start, hstart, hle, rfl⟩, rfl⟩
      exact ⟨hle, k, hstart⟩
    · rintro ⟨hle, k, hstart⟩
      exact ⟨decodeAt memory addr, ⟨k, addr, hstart, hle, rfl⟩, rfl⟩
  ascending := by
    rw [List.pairwise_map]
    refine (pairwise_disassemble memory first last).imp fun {d e} h => ?_
    exact UInt16.lt_iff_toNat_lt.2 (Nat.lt_of_lt_of_le d.addr_lt_stop h)
  line_eq d hd := by
    obtain ⟨k, start, hstart, hle, rfl⟩ := mem_disassemble_iff.1 hd
    rfl
  length_le := length_disassemble_le memory first last
  covers addr hfirst hlast := by
    obtain ⟨k, start, hstart, hin⟩ := exists_startAt? memory hfirst
    refine ⟨k, ⟨start, hstart, hin⟩, ?_⟩
    rintro l ⟨other, hother, hinOther⟩
    exact startAt?_unique hother hstart hinOther hin
  empty := disassemble_of_lt memory

/-- The disassembly of any range of any memory lists the instructions that follow each other from
the start of the range on, up to the last one that starts in the range, and these tile the range. Of
a range that ends earlier it lists the part up to there, and behind the last instruction of that
part it goes on as the disassembly from there. -/
theorem disassemble_tiles (memory : UInt16 → UInt8) (first last : UInt16) :
    Tiles memory first last (disassemble memory first last) ∧
      ∀ stop, (stop ≤ last → disassemble memory first stop =
          (disassemble memory first last).filter fun d => d.addr ≤ stop) ∧
        (first ≤ stop → ∃ d, (disassemble memory first stop).getLast? = some d ∧
          ∀ next : UInt16, next.toNat = d.addr.toNat + d.size → next ≤ last →
            disassemble memory first last =
              disassemble memory first stop ++ disassemble memory next last) := by
  refine ⟨tiles_disassemble memory first last, fun stop => ⟨fun h => ?_, fun h => ?_⟩⟩
  · exact disassemble_eq_filter h first
  · obtain ⟨d, hd⟩ : ∃ d, (disassemble memory first stop).getLast? = some d := by
      rw [disassemble_of_le memory h, List.getLast?_cons]
      exact ⟨_, rfl⟩
    refine ⟨d, hd, fun next hnext hle => ?_⟩
    exact disassemble_append hd ((d.next?_eq_some_iff next).2 hnext) hle

/-- The zeros at the top of memory are breaks of two bytes each. Listed from `FFFB` on, the third
reaches past the top and is the last, and the listing up to `FFFC` goes on at `FFFD`. -/
theorem disassemble_tiles_at_top :
    let memory : UInt16 → UInt8 := fun _ => 0
    let found := disassemble memory 0xFFFB 0xFFFF
    found[2]?.map Decoded.listing = some "$FFFF: BRK #$00 \x7bIMM\x7d" ∧ found[3]? = none ∧
      (0xFFFB : UInt16) ≤ 0xFFFC ∧
      found = disassemble memory 0xFFFB 0xFFFC ++ disassemble memory 0xFFFD 0xFFFF := by
  intro memory found
  obtain ⟨htiles, hparts⟩ := disassemble_tiles memory 0xFFFB 0xFFFF
  have hthird : startAt? memory 0xFFFB 2 = some 0xFFFF := by decide +kernel
  have hfourth : startAt? memory 0xFFFB 3 = none := by decide +kernel
  have hsecond : (decodeAt memory 0xFFFB).next? = some 0xFFFD := by decide +kernel
  have hshort : disassemble memory 0xFFFB 0xFFFC = [decodeAt memory 0xFFFB] := by
    rw [disassemble_of_le memory (by decide), hsecond]
    exact congrArg _ (disassemble_of_lt memory (by decide))
  refine ⟨?_, ?_, by decide, ?_⟩
  · rw [htiles.entry_eq, hthird]
    decide +kernel
  · rw [htiles.entry_eq, hfourth]
    rfl
  · obtain ⟨d, hd, happend⟩ := (hparts 0xFFFC).2 (by decide)
    rw [hshort] at hd
    have hlast : decodeAt memory 0xFFFB = d := Option.some.inj hd
    exact happend 0xFFFD (hlast ▸ by decide +kernel) (by decide)

end NesMachine
