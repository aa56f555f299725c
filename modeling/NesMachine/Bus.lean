/-!
# The bus and programs of accesses

A bus answers the processor's reads and writes. What the processor does with it is a `Program`: a
tree that ends in a result or makes one access and continues with the answer. Nothing in a program
depends on the bus it runs on, so one instruction has one meaning, and `Program.run` gives it an
effect on any bus. `Program.accesses` lists the accesses of that run in order.

Looking at memory without disturbing it needs no program: `Bus.peek` turns a bus into a function
from addresses to bytes, which is all that the disassembler and the tracer take.
-/

set_option autoImplicit false

namespace NesMachine

universe u v

/-- A 16-bit byte bus. A read may change the bus; `peek` returns what a read would return without
the change. -/
class Bus (β : Type u) where
  /-- The byte that a read returns, and the bus after it. -/
  read : β → UInt16 → UInt8 × β
  /-- The bus after a write. -/
  write : β → UInt16 → UInt8 → β
  /-- The byte that a read would return. -/
  peek : β → UInt16 → UInt8

/-- One access to a bus with the byte that went over it. -/
inductive Access where
  | read (addr : UInt16) (value : UInt8)
  | write (addr : UInt16) (value : UInt8)
  | peek (addr : UInt16) (value : UInt8)
  deriving DecidableEq

/-- A computation that reads and writes a bus and returns an `α`. -/
inductive Program (α : Type u) where
  | done (value : α)
  | read (addr : UInt16) (next : UInt8 → Program α)
  | write (addr : UInt16) (value : UInt8) (next : Program α)

namespace Program

section Sequencing

variable {α : Type u} {γ : Type v}

/-- Run `next` on the result of a program. -/
protected def bind : Program α → (α → Program γ) → Program γ
  | done a, f => f a
  | read addr next, f => read addr fun value => (next value).bind f
  | write addr value next, f => write addr value (next.bind f)

end Sequencing

instance : Monad Program where
  pure := done
  bind := Program.bind

section Laws

variable {α γ : Type u}

@[simp] theorem done_bind (a : α) (f : α → Program γ) : done a >>= f = f a := rfl

@[simp] theorem read_bind (addr : UInt16) (next : UInt8 → Program α) (f : α → Program γ) :
    read addr next >>= f = read addr fun value => next value >>= f := rfl

@[simp] theorem write_bind (addr : UInt16) (value : UInt8) (next : Program α) (f : α → Program γ) :
    write addr value next >>= f = write addr value (next >>= f) := rfl

@[simp] theorem pure_eq_done (a : α) : (pure a : Program α) = done a := rfl

theorem bind_assoc {δ : Type u} (p : Program α) (f : α → Program γ) (g : γ → Program δ) :
    p >>= f >>= g = p >>= fun a => f a >>= g := by
  induction p with
  | done a => rfl
  | read addr next ih => exact congrArg _ (funext fun value => ih value)
  | write addr value next ih => exact congrArg _ ih

end Laws

/-- Read one byte. -/
def readByte (addr : UInt16) : Program UInt8 :=
  read addr done

/-- Write one byte. -/
def writeByte (addr : UInt16) (value : UInt8) : Program Unit :=
  write addr value (done ())

section Running

variable {α : Type u} {β : Type v} [Bus β]

/-- The result of a program on a bus, and the bus it leaves. -/
def run : Program α → β → α × β
  | done a, bus => (a, bus)
  | read addr next, bus =>
      let (value, bus) := Bus.read bus addr
      (next value).run bus
  | write addr value next, bus => next.run (Bus.write bus addr value)

/-- The accesses that a program makes on a bus, in order. -/
def accesses : Program α → β → List Access
  | done _, _ => []
  | read addr next, bus =>
      let (value, bus) := Bus.read bus addr
      .read addr value :: (next value).accesses bus
  | write addr value next, bus => .write addr value :: next.accesses (Bus.write bus addr value)

end Running

section RunLaws

variable {α γ : Type u} {β : Type v} [Bus β]

/-- A sequence runs its parts one after the other. -/
theorem run_bind (p : Program α) (f : α → Program γ) (bus : β) :
    (p >>= f).run bus = (f (p.run bus).1).run (p.run bus).2 := by
  induction p generalizing bus with
  | done a => rfl
  | read addr next ih => exact ih _ _
  | write addr value next ih => exact ih _

/-- A sequence makes the accesses of its first part and then those of its second. -/
theorem accesses_bind (p : Program α) (f : α → Program γ) (bus : β) :
    (p >>= f).accesses bus = p.accesses bus ++ (f (p.run bus).1).accesses (p.run bus).2 := by
  induction p generalizing bus with
  | done a => rfl
  | read addr next ih => exact congrArg _ (ih _ _)
  | write addr value next ih => exact congrArg _ (ih _)

end RunLaws

end Program

end NesMachine
