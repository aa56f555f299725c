import NesMachine.Cpu.Basic
import NesMachine.Proofs.Program

/-!
# Frames on the stack

A frame is what one operation puts on the stack for another one to take off, and a `StackMove` is
what a call to the processor does with frames. A word of moves is well nested if every frame is
taken off by the operation of its kind, in the opposite order (`WellNested`). Replaying a word
gives the frames that are left (`outstanding?`), nothing is left of a well-nested word
(`WellNested.outstanding?_eq`), and the last frame that is left was put there by a push with a
well-nested word behind it (`exists_matching_push`).

In memory the bytes of the frames lie below each other from a base on (`Holds`). As long as there
are at most 256 of them a push adds its bytes (`Holds.append`); byte number 256 comes to lie on byte
number zero (`peek_base_of_overflow`).
-/

set_option autoImplicit false

namespace NesMachine

/-! ## Words of moves -/

/-- What is put on the stack by one operation. -/
inductive Frame where
  | accumulator (value : UInt8)
  | status (flags : Status)
  /-- The way back from a subroutine. -/
  | call (back : UInt16)
  /-- The way back from an interrupt handler with the flags to restore. -/
  | handler (byInstruction : Bool) (flags : Status) (back : UInt16)
  deriving DecidableEq

/-- What the frames of one kind have in common is the operation that takes them off. -/
inductive FrameKind where
  | accumulator | status | call | handler
  deriving DecidableEq

namespace Frame

/-- The kind of a frame. -/
def kind : Frame → FrameKind
  | .accumulator _ => .accumulator
  | .status _ => .status
  | .call _ => .call
  | .handler _ _ _ => .handler

/-- The bytes of a frame in the order in which they are pushed. A call saves the address before the
one to come back to. -/
def bytes : Frame → List UInt8
  | .accumulator value => [value]
  | .status flags => [flags.pushed true]
  | .call back => [highByte (back - 1), lowByte (back - 1)]
  | .handler byInstruction flags back =>
      [highByte back, lowByte back, flags.pushed byInstruction]

theorem length_bytes_le (f : Frame) : f.bytes.length ≤ 3 := by
  cases f <;> simp [bytes]

end Frame

/-- What a call to the processor does with frames. -/
inductive StackMove where
  | push (f : Frame)
  | pull (kind : FrameKind)
  | other
  deriving DecidableEq

/-- Every frame is taken off by the operation of its kind, in the opposite order. -/
inductive WellNested : List StackMove → Prop
  | nil : WellNested []
  | other : WellNested [.other]
  | frame (f : Frame) {inner : List StackMove} (h : WellNested inner) :
      WellNested (.push f :: (inner ++ [.pull f.kind]))
  | append {first second : List StackMove} (hfirst : WellNested first)
      (hsecond : WellNested second) : WellNested (first ++ second)

/-- The frames after a move, the latest one first, if the move fits to them. -/
def StackMove.apply? : List Frame → StackMove → Option (List Frame)
  | frames, .push f => some (f :: frames)
  | f :: frames, .pull kind => if f.kind = kind then some frames else none
  | [], .pull _ => none
  | frames, .other => some frames

/-- The frames after a word, the latest one first, if every move fits. -/
def outstanding? (frames : List Frame) (word : List StackMove) : Option (List Frame) :=
  word.foldlM StackMove.apply? frames

section Words

variable {frames : List Frame} {word : List StackMove}

theorem outstanding?_append (frames : List Frame) (first second : List StackMove) :
    outstanding? frames (first ++ second) =
      (outstanding? frames first).bind (outstanding? · second) :=
  List.foldlM_append

theorem outstanding?_singleton (frames : List Frame) (move : StackMove) :
    outstanding? frames [move] = StackMove.apply? frames move := by
  simp [outstanding?]

/-- Nothing is left of a well-nested word. -/
theorem WellNested.outstanding?_eq (h : WellNested word) (frames : List Frame) :
    outstanding? frames word = some frames := by
  induction h generalizing frames with
  | nil => rfl
  | other => rfl
  | @frame f inner h ih =>
    have hpush : outstanding? frames [.push f] = some (f :: frames) := rfl
    rw [← List.singleton_append, outstanding?_append, hpush, Option.bind_some,
      outstanding?_append, ih, Option.bind_some, outstanding?_singleton]
    exact if_pos rfl
  | append hfirst hsecond ihfirst ihsecond =>
    rw [outstanding?_append, ihfirst, Option.bind_some, ihsecond]

/-- The last frame that is left was put there by a push with a well-nested word behind it. -/
theorem exists_matching_push {f : Frame} (h : outstanding? [] word = some (f :: frames)) :
    ∃ before inner, word = before ++ .push f :: inner ∧ WellNested inner ∧
      outstanding? [] before = some frames := by
  -- By the length of the word, since a pull at its end leads to two shorter words.
  induction hlength : word.length using Nat.strongRecOn generalizing word f frames with
  | _ n ih =>
    rcases List.eq_nil_or_concat word with rfl | ⟨rest, move, rfl⟩
    · cases h
    rw [List.concat_eq_append, List.length_append, List.length_singleton] at hlength
    rw [List.concat_eq_append, outstanding?_append] at h
    obtain ⟨between, hrest, hmove⟩ := Option.bind_eq_some_iff.1 h
    rw [outstanding?_singleton] at hmove
    rw [List.concat_eq_append]
    cases move with
    | push g =>
      obtain ⟨rfl, rfl⟩ := List.cons.inj (Option.some.inj hmove)
      exact ⟨rest, [], rfl, .nil, hrest⟩
    | other =>
      obtain rfl := Option.some.inj hmove
      obtain ⟨before, inner, rfl, hinner, hbefore⟩ := ih rest.length (by omega) hrest rfl
      exact ⟨before, inner ++ [.other], by simp, hinner.append .other, hbefore⟩
    | pull kind =>
      cases between with
      | nil => cases hmove
      | cons g deeper =>
        obtain ⟨rfl, hdeeper⟩ := Option.ite_none_right_eq_some.1 hmove
        obtain rfl := Option.some.inj hdeeper
        -- The pull takes off `g`; what was there before `g` was put on ends with `f`.
        obtain ⟨earlier, inside, rfl, hinside, hearlier⟩ := ih rest.length (by omega) hrest rfl
        obtain ⟨before, inner, rfl, hinner, hbefore⟩ :=
          ih earlier.length (by simp at hlength; omega) hearlier rfl
        exact ⟨before, inner ++ .push g :: (inside ++ [.pull g.kind]), by simp,
          hinner.append (.frame g hinside), hbefore⟩

end Words

/-! ## Bytes of frames -/

/-- The bytes of some frames in the order in which they were pushed, the latest frame first. -/
def contents : List Frame → List UInt8
  | [] => []
  | f :: rest => contents rest ++ f.bytes

/-- A word leaves at most three bytes for each of its moves. -/
theorem length_contents_le {frames left : List Frame} {word : List StackMove}
    (h : outstanding? frames word = some left) :
    (contents left).length ≤ (contents frames).length + 3 * word.length := by
  induction word generalizing frames with
  | nil =>
    obtain rfl := Option.some.inj h
    exact Nat.le_refl _
  | cons move rest ih =>
    rw [← List.singleton_append, outstanding?_append] at h
    obtain ⟨between, hmove, hrest⟩ := Option.bind_eq_some_iff.1 h
    rw [outstanding?_singleton] at hmove
    have hleft := ih hrest
    have hbetween : (contents between).length ≤ (contents frames).length + 3 := by
      -- Only a push adds bytes, those of its frame.
      cases move with
      | push f =>
        obtain rfl := Option.some.inj hmove
        rw [contents, List.length_append]
        exact Nat.add_le_add_left f.length_bytes_le _
      | other =>
        obtain rfl := Option.some.inj hmove
        exact Nat.le_add_right ..
      | pull kind =>
        cases frames with
        | nil => cases hmove
        | cons f deeper =>
          obtain ⟨-, hdeeper⟩ := Option.ite_none_right_eq_some.1 hmove
          obtain rfl := Option.some.inj hdeeper
          rw [contents, List.length_append]
          omega
    rw [List.length_cons]
    omega

/-! ## Memory after some accesses -/

namespace FlatMemory

/-- Memory after the writes among some accesses. -/
def afterAccesses (m : FlatMemory) (made : List Access) : FlatMemory :=
  made.foldl (fun m access =>
    match access with
    | .write addr value => m.write addr value
    | _ => m) m

/-- Only the writes matter. -/
theorem afterAccesses_filter (m : FlatMemory) (made : List Access) :
    m.afterAccesses (made.filter Access.isWrite) = m.afterAccesses made := by
  induction made generalizing m with
  | nil => rfl
  | cons access rest ih =>
    cases access with
    | read addr value => exact ih m
    | peek addr value => exact ih m
    | write addr value => exact ih (m.write addr value)

/-- A byte that is not written stays. -/
theorem peek_afterAccesses_of_not_written {made : List Access} {addr : UInt16}
    (h : ∀ value, Access.write addr value ∉ made) (m : FlatMemory) :
    (m.afterAccesses made).peek addr = m.peek addr := by
  induction made generalizing m with
  | nil => rfl
  | cons access rest ih =>
    have hrest : ∀ value, Access.write addr value ∉ rest := by
      intro value hmem
      exact h value (List.mem_cons_of_mem _ hmem)
    cases access with
    | read seen value => exact ih hrest m
    | peek seen value => exact ih hrest m
    | write seen value =>
      have hne : addr ≠ seen := by
        rintro rfl
        exact h value List.mem_cons_self
      exact (ih hrest (m.write seen value)).trans ((peek_write ..).trans (if_neg hne))

end FlatMemory

theorem Program.memory_run {α : Type} (p : Program α) (m : FlatMemory) :
    (p.run m).2 = m.afterAccesses ((p.accesses m).filter Access.isWrite) := by
  rw [FlatMemory.afterAccesses_filter]
  induction p generalizing m with
  | done a => rfl
  | read addr next ih => exact ih _ m
  | write addr value next ih => exact ih (m.write addr value)

/-! ## The cells of the stack -/

open Cpu (stackCell)

theorem stackCell_inj {sp other : UInt8} : stackCell sp = stackCell other ↔ sp = other := by
  constructor
  · intro h
    have hlow := congrArg lowByte h
    rwa [stackCell, stackCell, lowByte_word, lowByte_word] at hlow
  · rintro rfl
    rfl

theorem highByte_stackCell (sp : UInt8) : highByte (stackCell sp) = 0x01 :=
  highByte_word sp 0x01

/-- The writes that push some bytes. -/
def stackWrites (sp : UInt8) : List UInt8 → List Access
  | [] => []
  | value :: rest => .write (stackCell sp) value :: stackWrites (sp - 1) rest

theorem highByte_of_mem_stackWrites {sp : UInt8} {values : List UInt8} {addr : UInt16}
    {value : UInt8} (h : Access.write addr value ∈ stackWrites sp values) :
    highByte addr = 0x01 := by
  induction values generalizing sp with
  | nil => cases h
  | cons first rest ih =>
    rcases List.mem_cons.1 h with hfirst | hrest
    · obtain ⟨rfl, -⟩ := Access.write.inj hfirst
      exact highByte_stackCell sp
    · exact ih hrest

/-- Some bytes lie below each other in page one, the first of them at `base`. -/
def Holds (m : FlatMemory) (base : UInt8) (values : List UInt8) : Prop :=
  ∀ i value, values[i]? = some value → m.peek (stackCell (base - UInt8.ofNat i)) = value

/-- Counting down by fewer than 256 from a base comes to different bytes. -/
theorem sub_ofNat_ne {base : UInt8} {i n : Nat} (hi : i < n) (hn : n < 256) :
    base - UInt8.ofNat i ≠ base - UInt8.ofNat n := by
  intro h
  have hsame : UInt8.ofNat i = UInt8.ofNat n := by grind
  have hnat := congrArg UInt8.toNat hsame
  rw [UInt8.toNat_ofNat_of_lt' (Nat.lt_trans hi hn), UInt8.toNat_ofNat_of_lt' hn] at hnat
  omega

/-- One below a byte is one more down from the base. -/
theorem sub_ofNat_sub_one (base : UInt8) (n : Nat) :
    base - UInt8.ofNat n - 1 = base - UInt8.ofNat (n + 1) := by
  rw [UInt8.ofNat_add]
  grind

namespace Holds

variable {m : FlatMemory} {base : UInt8} {values : List UInt8}

theorem nil (m : FlatMemory) (base : UInt8) : Holds m base [] := by
  intro i value h
  cases h

theorem left {more : List UInt8} (h : Holds m base (values ++ more)) : Holds m base values := by
  intro i value hi
  have hlt := (List.getElem?_eq_some_iff.1 hi).1
  exact h i value ((List.getElem?_append_left hlt).trans hi)

/-- One more byte, as long as there is a cell for it. -/
theorem concat (h : Holds m base values) (hroom : values.length < 256) (value : UInt8) :
    Holds (m.write (stackCell (base - UInt8.ofNat values.length)) value) base
      (values ++ [value]) := by
  intro i seen hi
  rw [FlatMemory.peek_write]
  rcases Nat.lt_trichotomy i values.length with hlt | rfl | hgt
  · -- An older byte lies in another cell.
    rw [List.getElem?_append_left hlt] at hi
    rw [if_neg fun hcell => sub_ofNat_ne hlt hroom (stackCell_inj.1 hcell)]
    exact h i seen hi
  · rw [if_pos rfl]
    simpa using hi
  · have hnone : (values ++ [value])[i]? = none := by
      rw [List.getElem?_eq_none_iff, List.length_append, List.length_singleton]
      omega
    cases hnone.symm.trans hi

/-- More bytes, as long as there are cells for them. -/
theorem append (h : Holds m base values) (more : List UInt8)
    (hroom : values.length + more.length ≤ 256) :
    Holds (m.afterAccesses (stackWrites (base - UInt8.ofNat values.length) more)) base
      (values ++ more) := by
  induction more generalizing m values with
  | nil =>
    rw [List.append_nil]
    exact h
  | cons value rest ih =>
    rw [List.length_cons] at hroom
    have hone := h.concat (by omega) value
    have hlength : (values ++ [value]).length = values.length + 1 := List.length_append
    have hrest := ih hone (by omega)
    rw [hlength, ← sub_ofNat_sub_one, List.append_assoc] at hrest
    exact hrest

/-- The last byte is above the stack pointer, and there the others end. -/
theorem last {value sp : UInt8} (h : Holds m base (values ++ [value]))
    (hsp : sp = base - UInt8.ofNat (values ++ [value]).length) :
    m.peek (stackCell (sp + 1)) = value ∧ sp + 1 = base - UInt8.ofNat values.length := by
  have hup : sp + 1 = base - UInt8.ofNat values.length := by
    rw [hsp, List.length_append, List.length_singleton, ← sub_ofNat_sub_one]
    exact UInt8.sub_add_cancel ..
  refine ⟨?_, hup⟩
  rw [hup]
  exact h _ _ List.getElem?_concat_length

/-- The last two bytes are above the stack pointer, the later one lower. -/
theorem lastWord {high low sp : UInt8} (h : Holds m base (values ++ [high, low]))
    (hsp : sp = base - UInt8.ofNat (values ++ [high, low]).length) :
    m.peek (stackCell (sp + 1)) = low ∧ m.peek (stackCell (sp + 1 + 1)) = high ∧
      sp + 1 + 1 = base - UInt8.ofNat values.length := by
  rw [List.append_cons] at h hsp
  obtain ⟨hlow, hup⟩ := h.last hsp
  obtain ⟨hhigh, htop⟩ := h.left.last hup
  exact ⟨hlow, hhigh, htop⟩

theorem afterAccesses (h : Holds m base values) {made : List Access}
    (hmade : ∀ addr value, Access.write addr value ∈ made → highByte addr ≠ 0x01) :
    Holds (m.afterAccesses made) base values := by
  intro i value hi
  rw [FlatMemory.peek_afterAccesses_of_not_written fun written hmem =>
    hmade _ _ hmem (highByte_stackCell _)]
  exact h i value hi

end Holds

/-- Byte number 256 is pushed onto byte number zero. -/
theorem peek_base_of_overflow {values more : List UInt8} (hroom : values.length ≤ 256)
    (hmore : more.length ≤ 256) (hover : 256 < values.length + more.length) (m : FlatMemory)
    (base : UInt8) :
    (values ++ more)[256]? = some ((m.afterAccesses
      (stackWrites (base - UInt8.ofNat values.length) more)).peek (stackCell base)) := by
  have hbase : base - UInt8.ofNat values.length - UInt8.ofNat (256 - values.length) = base := by
    have hall : UInt8.ofNat values.length + UInt8.ofNat (256 - values.length) = 0 := by
      rw [← UInt8.ofNat_add, Nat.add_sub_cancel' hroom]
      rfl
    grind
  -- The new bytes are themselves held from the stack pointer on, and one of them is at the base.
  have hheld := (Holds.nil m (base - UInt8.ofNat values.length)).append more
    (Nat.le_trans (Nat.le_of_eq (Nat.zero_add _)) hmore)
  have hstart : base - UInt8.ofNat values.length - UInt8.ofNat ([] : List UInt8).length =
      base - UInt8.ofNat values.length := UInt8.sub_zero _
  rw [hstart, List.nil_append] at hheld
  have hindex : 256 - values.length < more.length := by omega
  have hvalue := List.getElem?_eq_getElem hindex
  have hpeek := hheld _ _ hvalue
  rw [hbase] at hpeek
  rw [List.getElem?_append_right hroom, hvalue, hpeek]

end NesMachine
