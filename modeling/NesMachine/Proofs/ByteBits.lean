import Mathlib.Data.List.Rotate
import NesMachine.Proofs.ByteNumber

/-!
# The bits of some bytes

A shift by one place takes a bit in at one end of some bytes and gives a bit out at the other
(`Shifted`). Shifts of neighbouring bytes make up a shift of all of them, if what comes out of one
goes into the next (`Shifted.cons`), so a shift of any number of bytes is known from one byte.

Upwards a shift doubles the number that the bytes are (`Shifted.littleEndian_eq`). A shift downwards
is a shift upwards backwards (`shifted_down_iff`). If the bit that came out goes in again, the bits
and that bit form a ring, which one shift rotates by one place (`Shifted.rotate_eq`).
-/

set_option autoImplicit false

namespace NesMachine

/-! ## Bits -/

/-- The bits of a byte, lowest first. -/
def bitsUp (byte : UInt8) : List Bool :=
  (List.range 8).map byte.toNat.testBit

/-- The bits of a byte, highest first. -/
def bitsDown (byte : UInt8) : List Bool :=
  (bitsUp byte).reverse

@[simp] theorem length_bitsUp (byte : UInt8) : (bitsUp byte).length = 8 := by
  simp [bitsUp]

theorem length_flatMap_bitsUp (bytes : List UInt8) :
    (bytes.flatMap bitsUp).length = 8 * bytes.length := by
  simp [List.length_flatMap, Nat.mul_comm]

theorem ofDigits_bitsUp (byte : UInt8) :
    Nat.ofDigits 2 ((bitsUp byte).map Bool.toNat) = byte.toNat := by
  have all : ∀ i : Fin 256,
      Nat.ofDigits 2 ((bitsUp (UInt8.ofFin i)).map Bool.toNat) = (UInt8.ofFin i).toNat := by
    decide +kernel
  exact all byte.toFin

/-- The bits of some bytes, low byte first, are the binary digits of their number. -/
theorem ofDigits_flatMap_bitsUp (bytes : List UInt8) :
    Nat.ofDigits 2 ((bytes.flatMap bitsUp).map Bool.toNat) = littleEndian bytes := by
  induction bytes with
  | nil => rfl
  | cons byte bytes ih =>
    rw [List.flatMap_cons, List.map_append, Nat.ofDigits_append, ofDigits_bitsUp, ih,
      List.length_map, length_bitsUp, littleEndian_cons]
    rfl

/-- Bytes are determined by their bits. -/
theorem flatMap_bitsUp_inj {bytes others : List UInt8}
    (h : bytes.flatMap bitsUp = others.flatMap bitsUp) : bytes = others := by
  induction bytes generalizing others with
  | nil =>
    have hlength := congrArg List.length h
    rw [length_flatMap_bitsUp, length_flatMap_bitsUp, List.length_nil] at hlength
    exact (List.length_eq_zero_iff.1 (by omega)).symm
  | cons byte bytes ih =>
    cases others with
    | nil =>
      have hlength := congrArg List.length h
      rw [length_flatMap_bitsUp, length_flatMap_bitsUp, List.length_cons, List.length_nil]
        at hlength
      omega
    | cons other others =>
      rw [List.flatMap_cons, List.flatMap_cons] at h
      have hlength : (bitsUp byte).length = (bitsUp other).length := by
        rw [length_bitsUp, length_bitsUp]
      obtain ⟨hbyte, hrest⟩ := List.append_inj h hlength
      have hvalue := ofDigits_bitsUp byte
      rw [hbyte, ofDigits_bitsUp] at hvalue
      rw [UInt8.toNat_inj.1 hvalue, ih hrest]

/-! ## Shifts by one place -/

/-- A bit goes in before the bits of some bytes, each of which is read in some order. All move on by
one place to make the bits of other bytes, and the last one comes out. -/
def Shifted (order : UInt8 → List Bool) (incoming : Bool) (bytes results : List UInt8)
    (outgoing : Bool) : Prop :=
  incoming :: bytes.flatMap order = results.flatMap order ++ [outgoing]

variable {bytes results others : List UInt8} {incoming outgoing : Bool}

theorem Shifted.nil (order : UInt8 → List Bool) (bit : Bool) : Shifted order bit [] [] bit := rfl

/-- What comes out of one byte goes into the next one. -/
theorem Shifted.cons {order : UInt8 → List Bool} {byte result : UInt8} {between : Bool}
    (hfirst : Shifted order incoming [byte] [result] between)
    (hrest : Shifted order between bytes results outgoing) :
    Shifted order incoming (byte :: bytes) (result :: results) outgoing := by
  rw [Shifted, List.flatMap_singleton, List.flatMap_singleton] at hfirst
  calc
    incoming :: (byte :: bytes).flatMap order
      = (incoming :: order byte) ++ bytes.flatMap order := by rw [List.flatMap_cons]; rfl
    _ = order result ++ (between :: bytes.flatMap order) := by
      rw [hfirst, List.append_assoc]; rfl
    _ = order result ++ (results.flatMap order ++ [outgoing]) := by rw [hrest]
    _ = (result :: results).flatMap order ++ [outgoing] := by
      rw [List.flatMap_cons, List.append_assoc]

/-- A shift downwards from the high byte is a shift upwards from the low byte, read backwards. -/
theorem shifted_down_iff :
    Shifted bitsDown incoming bytes.reverse results.reverse outgoing ↔
      Shifted bitsUp outgoing results bytes incoming := by
  have hreverse : ∀ some : List UInt8,
      some.reverse.flatMap bitsDown = (some.flatMap bitsUp).reverse := by
    intro some
    rw [List.reverse_flatMap]
    rfl
  rw [Shifted, Shifted, hreverse, hreverse, ← List.reverse_inj, List.reverse_cons,
    List.reverse_append, List.reverse_reverse, List.reverse_reverse]
  exact eq_comm

theorem Shifted.length_eq (h : Shifted bitsUp incoming bytes results outgoing) :
    results.length = bytes.length := by
  have hlength := congrArg List.length h
  rw [List.length_cons, List.length_append, List.length_singleton, length_flatMap_bitsUp,
    length_flatMap_bitsUp] at hlength
  omega

/-- A shift upwards doubles the number. -/
theorem Shifted.littleEndian_eq (h : Shifted bitsUp incoming bytes results outgoing) :
    littleEndian results + 256 ^ bytes.length * outgoing.toNat =
      2 * littleEndian bytes + incoming.toNat := by
  have hbits := congrArg (fun bits => Nat.ofDigits 2 (bits.map Bool.toNat)) h
  have hweight : (2 : Nat) ^ (8 * results.length) = 256 ^ bytes.length := by
    rw [h.length_eq, Nat.pow_mul]
  simp only [List.map_cons, List.map_append, List.map_nil, Nat.ofDigits_cons, Nat.ofDigits_append,
    Nat.ofDigits_nil, ofDigits_flatMap_bitsUp, List.length_map, length_flatMap_bitsUp, hweight,
    Nat.mul_zero, Nat.add_zero] at hbits
  omega

/-- What a shift upwards makes of some bytes and a bit is made of nothing else. -/
theorem Shifted.unique {first second : Bool}
    (h : Shifted bitsUp first bytes results outgoing)
    (hother : Shifted bitsUp second others results outgoing) : first = second ∧ bytes = others := by
  obtain ⟨hbit, hbits⟩ := List.cons.inj (Eq.trans h hother.symm)
  exact ⟨hbit, flatMap_bitsUp_inj hbits⟩

/-! ## The former top bit -/

/-- The top bit of a number of some bytes tells whether its double has one byte more. -/
theorem testBit_littleEndian_top {bytes : List UInt8} (h : bytes ≠ []) :
    (littleEndian bytes).testBit (8 * bytes.length - 1) =
      decide (256 ^ bytes.length ≤ 2 * littleEndian bytes) := by
  have hlt := littleEndian_lt bytes
  have hpos := List.length_pos_iff.2 h
  have hpower : 256 ^ bytes.length = 2 * 2 ^ (8 * bytes.length - 1) := by
    rw [← Nat.pow_succ', Nat.succ_eq_add_one, Nat.sub_add_cancel (by omega), Nat.pow_mul]
  rw [hpower] at hlt ⊢
  rw [Nat.testBit_eq_decide_div_mod_eq, decide_eq_decide]
  generalize 2 ^ (8 * bytes.length - 1) = half at *
  -- The number is below two halves of the range, so it is in one of them.
  rcases Nat.lt_or_ge (littleEndian bytes) half with hlow | hhigh
  · rw [Nat.div_eq_of_lt hlow]
    omega
  · rw [Nat.div_eq_of_lt_le (k := 1) (by omega) (by omega)]
    omega

/-! ## Rings of bits -/

/-- A bit and the bits of some bytes. -/
def ring (bit : Bool) (bytes : List UInt8) : List Bool :=
  bit :: bytes.flatMap bitsUp

theorem length_ring (bit : Bool) (bytes : List UInt8) :
    (ring bit bytes).length = 8 * bytes.length + 1 := by
  rw [ring, List.length_cons, length_flatMap_bitsUp]

/-- A shift upwards whose bit goes round rotates the ring by one place. -/
theorem Shifted.rotate_eq (h : Shifted bitsUp incoming bytes results outgoing) :
    (ring outgoing results).rotate 1 = ring incoming bytes := by
  rw [ring, List.rotate_cons_succ, List.rotate_zero]
  exact h.symm

end NesMachine
