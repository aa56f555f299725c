import NesMachine.Bus.Flat

/-!
# Reasoning about programs

A program is a tree, and what holds at all its leaves holds of its result on every bus
(`Program.Returns.run`).

On a bus whose reads are peeks (`Bus.ReadsArePeeks`) a program that writes nothing can be computed
on a view of the memory alone, without the bus (`Program.ReadsOnly.run_eq`). Flat memory is such a
bus (`FlatMemory.readsArePeeks`).
-/

set_option autoImplicit false

namespace NesMachine

universe u v

/-! ## Buses whose reads are peeks -/

section Reads

variable {β : Type v} [Bus β]

/-- The bus after reads at some addresses. -/
def Bus.afterReads (bus : β) (addrs : List UInt16) : β :=
  addrs.foldl (fun bus addr => (Bus.read bus addr).2) bus

/-- Reads return what a peek shows, and no read changes what a later peek shows. -/
def Bus.ReadsArePeeks (bus : β) : Prop :=
  ∀ (addrs : List UInt16) (addr : UInt16),
    (Bus.read (Bus.afterReads bus addrs) addr).1 = Bus.peek bus addr ∧
      Bus.peek (Bus.afterReads bus addrs) addr = Bus.peek bus addr

theorem Bus.ReadsArePeeks.read_eq {bus : β} (h : Bus.ReadsArePeeks bus) (addr : UInt16) :
    (Bus.read bus addr).1 = Bus.peek bus addr :=
  (h [] addr).1

theorem Bus.ReadsArePeeks.peek_read {bus : β} (h : Bus.ReadsArePeeks bus) (addr : UInt16) :
    Bus.peek (Bus.read bus addr).2 = Bus.peek bus :=
  funext fun seen => (h [addr] seen).2

theorem Bus.ReadsArePeeks.read {bus : β} (h : Bus.ReadsArePeeks bus) (addr : UInt16) :
    Bus.ReadsArePeeks (Bus.read bus addr).2 := by
  intro addrs seen
  have hlater := h (addr :: addrs) seen
  rw [h.peek_read addr]
  exact hlater

/-- A bus on which reads change nothing is the same after any reads. -/
theorem Bus.afterReads_of_read_eq {bus : β}
    (h : ∀ addr, Bus.read bus addr = (Bus.peek bus addr, bus)) (addrs : List UInt16) :
    Bus.afterReads bus addrs = bus := by
  induction addrs with
  | nil => rfl
  | cons addr rest ih =>
    rw [Bus.afterReads, List.foldl_cons, h addr]
    exact ih

/-- A bus on which reads change nothing and return what a peek shows. -/
theorem Bus.readsArePeeks_of_read_eq {bus : β}
    (h : ∀ addr, Bus.read bus addr = (Bus.peek bus addr, bus)) : Bus.ReadsArePeeks bus := by
  intro addrs seen
  rw [Bus.afterReads_of_read_eq h addrs, h seen]
  exact ⟨rfl, rfl⟩

end Reads

theorem FlatMemory.readsArePeeks (m : FlatMemory) : Bus.ReadsArePeeks m :=
  Bus.readsArePeeks_of_read_eq fun _ => rfl

@[simp] theorem FlatMemory.afterReads_eq (m : FlatMemory) (addrs : List UInt16) :
    Bus.afterReads m addrs = m :=
  Bus.afterReads_of_read_eq (fun _ => rfl) addrs

/-- Whether an access is a write. -/
def Access.isWrite : Access → Bool
  | .write _ _ => true
  | _ => false

namespace Program

variable {α γ : Type u}

/-! ## What holds of every result -/

/-- All results of a program, whatever the bus answers, have a property. -/
def Returns (P : α → Prop) : Program α → Prop
  | done a => P a
  | read _ next => ∀ value, (next value).Returns P
  | write _ _ next => next.Returns P

/-- What holds of all results of a sequence, by what holds of those of its first part. -/
theorem Returns.bind {P : α → Prop} {Q : γ → Prop} {p : Program α} {f : α → Program γ}
    (hp : p.Returns P) (hf : ∀ a, P a → (f a).Returns Q) : (p >>= f).Returns Q := by
  induction p with
  | done a => exact hf a hp
  | read addr next ih => exact fun value => ih value (hp value)
  | write addr value next ih => exact ih hp

theorem Returns.run {β : Type v} [Bus β] {P : α → Prop} {p : Program α} (h : p.Returns P)
    (bus : β) : P (p.run bus).1 := by
  induction p generalizing bus with
  | done a => exact h
  | read addr next ih => exact ih _ (h _) _
  | write addr value next ih => exact ih h _

/-! ## Programs that only read -/

/-- A program that writes nothing. -/
def ReadsOnly : Program α → Prop
  | done _ => True
  | read _ next => ∀ value, (next value).ReadsOnly
  | write _ _ _ => False

/-- The result of a program when reads are answered from a view of memory and writes are dropped. -/
def view (memory : UInt16 → UInt8) : Program α → α
  | done a => a
  | read addr next => (next (memory addr)).view memory
  | write _ _ next => next.view memory

theorem Returns.view {P : α → Prop} {p : Program α} (h : p.Returns P)
    (memory : UInt16 → UInt8) : P (p.view memory) := by
  induction p with
  | done a => exact h
  | read addr next ih => exact ih _ (h _)
  | write addr value next ih => exact ih h

section Running

variable {β : Type v} [Bus β]

theorem ReadsOnly.writes_eq_nil {p : Program α} (hp : p.ReadsOnly) (bus : β) :
    (p.accesses bus).filter Access.isWrite = [] := by
  induction p generalizing bus with
  | done a => rfl
  | read addr next ih => exact ih _ (hp _) _
  | write addr value next ih => exact hp.elim

/-- A program that writes nothing leaves the bus as some reads leave it. -/
theorem ReadsOnly.exists_afterReads {p : Program α} (hp : p.ReadsOnly) (bus : β) :
    ∃ addrs, (p.run bus).2 = Bus.afterReads bus addrs := by
  induction p generalizing bus with
  | done a => exact ⟨[], rfl⟩
  | read addr next ih =>
    obtain ⟨addrs, haddrs⟩ := ih _ (hp _) (Bus.read bus addr).2
    exact ⟨addr :: addrs, haddrs⟩
  | write addr value next ih => exact hp.elim

/-- On a bus whose reads are peeks, a program that writes nothing returns what the view of the
memory gives, and leaves a bus of that kind with the same view. -/
theorem ReadsOnly.run_eq {p : Program α} (hp : p.ReadsOnly) {bus : β}
    (hbus : Bus.ReadsArePeeks bus) :
    (p.run bus).1 = p.view (Bus.peek bus) ∧ Bus.ReadsArePeeks (p.run bus).2 ∧
      Bus.peek (p.run bus).2 = Bus.peek bus := by
  induction p generalizing bus with
  | done a => exact ⟨rfl, hbus, rfl⟩
  | read addr next ih =>
    obtain ⟨hvalue, hquiet, hpeek⟩ := ih (Bus.read bus addr).1 (hp _) (hbus.read addr)
    rw [hbus.peek_read addr] at hvalue hpeek
    refine ⟨?_, hquiet, hpeek⟩
    rw [view, ← hbus.read_eq addr]
    exact hvalue
  | write addr value next ih => exact hp.elim

/-- Where reads change nothing, a program that makes no write leaves the bus. -/
theorem run_snd_of_no_writes {bus : β}
    (hbus : ∀ addr, Bus.read bus addr = (Bus.peek bus addr, bus)) (p : Program α)
    (h : (p.accesses bus).filter Access.isWrite = []) : (p.run bus).2 = bus := by
  induction p with
  | done a => rfl
  | read addr next ih =>
    simp only [accesses, hbus addr, List.filter_cons] at h
    rw [run, hbus addr]
    exact ih _ h
  | write addr value next ih => exact absurd h (List.cons_ne_nil _ _)

end Running

end Program

end NesMachine
