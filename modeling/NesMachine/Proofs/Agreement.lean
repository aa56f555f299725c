import NesMachine.Bus

/-!
# Two runs of programs

Two programs agree up to a relation if they make the same accesses, whatever these are answered,
and their results are related (`Program.Agree`). Agreement goes through sequencing
(`Program.Agree.bind`), and on one bus two programs that agree have related results, make equal
accesses and leave equal buses (`Program.Agree.run`). Where they do so only for what one bus answers
(`Program.AgreeOn`), that goes through sequencing as well (`Program.AgreeOn.bind`).

One program on two buses is a matter of the buses: if these answer reads alike and stay related, the
results and the accesses are equal (`Bus.Simulation.run`).
-/

set_option autoImplicit false

namespace NesMachine

universe u v w

/-! ## Two programs on one bus -/

namespace Program

section Agree

variable {α γ δ ε : Type u}

/-- Two programs make the same accesses, whatever they are answered, and end in related results. -/
inductive Agree (R : α → γ → Prop) : Program α → Program γ → Prop
  | done {a : α} {b : γ} (related : R a b) : Agree R (.done a) (.done b)
  | read {addr : UInt16} {next : UInt8 → Program α} {other : UInt8 → Program γ}
      (rest : ∀ value, Agree R (next value) (other value)) :
      Agree R (.read addr next) (.read addr other)
  | write {addr : UInt16} {value : UInt8} {next : Program α} {other : Program γ}
      (rest : Agree R next other) : Agree R (.write addr value next) (.write addr value other)

variable {R : α → γ → Prop} {S : δ → ε → Prop} {p : Program α} {q : Program γ}

/-- Programs that agree go on in agreement if related results do. -/
theorem Agree.bind {f : α → Program δ} {g : γ → Program ε} (h : Agree R p q)
    (hnext : ∀ a b, R a b → Agree S (f a) (g b)) : Agree S (p >>= f) (q >>= g) := by
  induction h with
  | done related => exact hnext _ _ related
  | read rest ih => exact .read ih
  | write rest ih => exact .write ih

theorem Agree.mono {T : α → γ → Prop} (h : Agree R p q) (himp : ∀ a b, R a b → T a b) :
    Agree T p q := by
  induction h with
  | done related => exact .done (himp _ _ related)
  | read rest ih => exact .read ih
  | write rest ih => exact .write ih

/-- On one bus, programs that agree have related results, make equal accesses and leave equal
buses. -/
theorem Agree.run {β : Type v} [Bus β] (h : Agree R p q) (bus : β) :
    R (p.run bus).1 (q.run bus).1 ∧ (p.run bus).2 = (q.run bus).2 ∧
      p.accesses bus = q.accesses bus := by
  induction h generalizing bus with
  | done related => exact ⟨related, rfl, rfl⟩
  | read rest ih =>
    obtain ⟨hresult, hbus, haccesses⟩ := ih (Bus.read bus _).1 (Bus.read bus _).2
    exact ⟨hresult, hbus, congrArg _ haccesses⟩
  | write rest ih =>
    obtain ⟨hresult, hbus, haccesses⟩ := ih (Bus.write bus _ _)
    exact ⟨hresult, hbus, congrArg _ haccesses⟩

end Agree

section AgreeOn

variable {α γ δ ε : Type u} {β : Type v} [Bus β]

/-- On one bus two programs have related results, make equal accesses and leave equal buses. -/
structure AgreeOn (R : α → γ → Prop) (bus : β) (p : Program α) (q : Program γ) : Prop where
  related : R (p.run bus).1 (q.run bus).1
  bus_eq : (p.run bus).2 = (q.run bus).2
  accesses_eq : p.accesses bus = q.accesses bus

variable {R : α → γ → Prop} {S : δ → ε → Prop} {bus : β} {p : Program α} {q : Program γ}

theorem AgreeOn.refl {T : α → α → Prop} (h : ∀ a, T a a) (bus : β) (p : Program α) :
    AgreeOn T bus p p :=
  ⟨h _, rfl, rfl⟩

/-- A program agrees on a bus with itself followed by a function on its result. -/
theorem AgreeOn.bind_done (p : Program α) {f : α → γ} (h : ∀ a, R a (f a)) (bus : β) :
    AgreeOn R bus p (p >>= fun a => .done (f a)) := by
  constructor
  · rw [run_bind]
    exact h _
  · rw [run_bind]
    rfl
  · rw [accesses_bind]
    exact (List.append_nil _).symm

/-- Programs that agree on a bus go on in agreement if related results do on the bus they leave. -/
theorem AgreeOn.bind {f : α → Program δ} {g : γ → Program ε} (h : AgreeOn R bus p q)
    (hnext : R (p.run bus).1 (q.run bus).1 →
      AgreeOn S (p.run bus).2 (f (p.run bus).1) (g (q.run bus).1)) :
    AgreeOn S bus (p >>= f) (q >>= g) := by
  obtain ⟨hrelated, hbus, haccesses⟩ := hnext h.related
  rw [h.bus_eq] at hrelated hbus haccesses
  constructor
  · rw [run_bind, run_bind, h.bus_eq]
    exact hrelated
  · rw [run_bind, run_bind, h.bus_eq]
    exact hbus
  · rw [accesses_bind, accesses_bind, h.accesses_eq, h.bus_eq, haccesses]

end AgreeOn

end Program

/-! ## One program on two buses -/

section Simulation

variable {α : Type u} {β : Type v} {γ : Type w} [Bus β] [Bus γ]

/-- Related buses answer reads alike and stay related. -/
structure Bus.Simulation (R : β → γ → Prop) : Prop where
  value_eq : ∀ {bus other}, R bus other → ∀ addr,
    (Bus.read bus addr).1 = (Bus.read other addr).1
  read : ∀ {bus other}, R bus other → ∀ addr, R (Bus.read bus addr).2 (Bus.read other addr).2
  write : ∀ {bus other}, R bus other → ∀ addr value,
    R (Bus.write bus addr value) (Bus.write other addr value)

/-- On related buses a program has one result, makes the same accesses and leaves related buses. -/
theorem Bus.Simulation.run {R : β → γ → Prop} (sim : Bus.Simulation R) (p : Program α) {bus : β}
    {other : γ} (h : R bus other) :
    (p.run bus).1 = (p.run other).1 ∧ R (p.run bus).2 (p.run other).2 ∧
      p.accesses bus = p.accesses other := by
  induction p generalizing bus other with
  | done a => exact ⟨rfl, h, rfl⟩
  | read addr next ih =>
    have hvalue := sim.value_eq h addr
    obtain ⟨hresult, hrelated, haccesses⟩ := ih (Bus.read bus addr).1 (sim.read h addr)
    simp only [Program.run, Program.accesses, ← hvalue]
    exact ⟨hresult, hrelated, congrArg _ haccesses⟩
  | write addr value next ih =>
    obtain ⟨hresult, hrelated, haccesses⟩ := ih (sim.write h addr value)
    exact ⟨hresult, hrelated, congrArg _ haccesses⟩

end Simulation

end NesMachine
