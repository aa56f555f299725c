import NesMachine.Device

/-!
# Guarded operations

Operations on machine words and arrays that are not total: a sum may not fit its word, a difference
may be negative, a divisor may be zero and a place may be outside an array. Here each is guarded and
answers with a `Hazard` where it has no result. The lemmas say when it has one.
-/

set_option autoImplicit false

namespace NesMachine

/-- What can go wrong where an operation is not total. -/
inductive Hazard where
  /-- A sum does not fit its word. -/
  | overflow
  /-- A difference is negative. -/
  | underflow
  /-- A divisor is zero. -/
  | zeroDivisor
  /-- A place is outside its array. -/
  | outsideArray
  /-- No device claims the address of an access. -/
  | unmapped (addr : UInt16)
  /-- A cartridge window has no cartridge. -/
  | emptySlot
  /-- A device cannot be built or mapped. -/
  | wiring (error : WiringError)
  /-- A loop does not end. -/
  | endless
  deriving DecidableEq

/-- A result, or the hazard that there is instead. -/
abbrev Guarded := Except Hazard

namespace Guarded

/-- A sum that is to be below a size. -/
def sum (size a b : Nat) : Guarded Nat :=
  if a + b < size then .ok (a + b) else .error .overflow

/-- A difference that is not to be negative. -/
def difference (a b : Nat) : Guarded Nat :=
  if b ≤ a then .ok (a - b) else .error .underflow

/-- The remainder of a division. -/
def remainder (a b : Nat) : Guarded Nat :=
  if b = 0 then .error .zeroDivisor else .ok (a % b)

section Arrays

variable {α : Type}

/-- The element at a place of an array. -/
def element (xs : Array α) (i : Nat) : Guarded α :=
  xs[i]?.elim (.error .outsideArray) .ok

/-- The elements of an array between two places. -/
def slice (xs : Array α) (start stop : Nat) : Guarded (Array α) :=
  if start ≤ stop ∧ stop ≤ xs.size then .ok (xs.extract start stop) else .error .outsideArray

/-- The array with the element at a place replaced. -/
def replace (xs : Array α) (i : Nat) (value : α) : Guarded (Array α) :=
  if i < xs.size then .ok (xs.setIfInBounds i value) else .error .outsideArray

end Arrays

/-- What is built or mapped, unless that is refused. -/
def wire {α : Type} : Except WiringError α → Guarded α
  | .ok a => .ok a
  | .error error => .error (.wiring error)

/-! ## When there is a result -/

theorem sum_eq_ok {size a b : Nat} (h : a + b < size) : sum size a b = .ok (a + b) :=
  if_pos h

theorem difference_eq_ok {a b : Nat} (h : b ≤ a) : difference a b = .ok (a - b) :=
  if_pos h

theorem remainder_eq_ok {a b : Nat} (h : 0 < b) : remainder a b = .ok (a % b) :=
  if_neg (Nat.ne_of_gt h)

theorem element_eq_ok {α : Type} {xs : Array α} {i : Nat} {value : α} (h : xs[i]? = some value) :
    element xs i = .ok value := by
  rw [element, h]
  rfl

/-- An element that exists is the one that is found with any default. -/
theorem element_eq_getD {α : Type} {xs : Array α} {i : Nat} (h : i < xs.size) (default : α) :
    element xs i = .ok (xs.getD i default) := by
  apply element_eq_ok
  rw [Array.getElem?_eq_getElem h, Array.getD_eq_getD_getElem?, Array.getElem?_eq_getElem h]
  rfl

theorem slice_eq_ok {α : Type} {xs : Array α} {start stop : Nat} (hle : start ≤ stop)
    (hsize : stop ≤ xs.size) : slice xs start stop = .ok (xs.extract start stop) :=
  if_pos ⟨hle, hsize⟩

theorem replace_eq_ok {α : Type} {xs : Array α} {i : Nat} (h : i < xs.size) (value : α) :
    replace xs i value = .ok (xs.setIfInBounds i value) :=
  if_pos h

@[simp] theorem ok_bind {α γ : Type} (a : α) (f : α → Guarded γ) :
    ((.ok a : Guarded α) >>= f) = f a := rfl

/-- A list is mapped without a hazard if each of its elements is. -/
theorem mapM_eq_ok {α γ : Type} {xs : List α} {f : α → Guarded γ} {g : α → γ}
    (h : ∀ x ∈ xs, f x = .ok (g x)) : xs.mapM f = .ok (xs.map g) := by
  induction xs with
  | nil => rfl
  | cons x rest ih =>
    have hrest := ih fun y hy => h y (List.mem_cons_of_mem _ hy)
    rw [List.mapM_cons, h x List.mem_cons_self, hrest]
    rfl

end Guarded

end NesMachine
