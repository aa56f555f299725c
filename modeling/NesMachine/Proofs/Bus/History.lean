import Mathlib.Data.List.Induction
import NesMachine.Bus

/-!
# Histories of calls

A history is the list of the calls made so far, the latest one last. What memory holds is the value
written last in its history (`lastWritten`), and a call at the end of a history either writes that
value or leaves it (`lastWritten_concat`).
-/

set_option autoImplicit false

namespace NesMachine

universe v

/-- A call to a bus. -/
inductive BusCall where
  | read (addr : UInt16)
  | peek (addr : UInt16)
  | write (addr : UInt16) (value : UInt8)
  deriving DecidableEq

namespace BusCall

/-- The address of a call. -/
def addr : BusCall → UInt16
  | .read addr | .peek addr | .write addr _ => addr

/-- The value that a call writes, if it is a write to an address that is looked for. -/
def written? (wanted : UInt16 → Bool) : BusCall → Option UInt8
  | .write addr value => if wanted addr then some value else none
  | _ => none

end BusCall

namespace Bus

variable {β : Type v} [Bus β]

/-- The bus after a call. -/
def afterCall (bus : β) : BusCall → β
  | .read addr => (Bus.read bus addr).2
  | .peek _ => bus
  | .write addr value => Bus.write bus addr value

/-- The bus after some calls. -/
def afterCalls (bus : β) (calls : List BusCall) : β :=
  calls.foldl afterCall bus

theorem afterCalls_concat (bus : β) (past : List BusCall) (call : BusCall) :
    afterCalls bus (past ++ [call]) = afterCall (afterCalls bus past) call := by
  rw [afterCalls, List.foldl_append]
  rfl

end Bus

section LastWritten

variable {κ : Type}

/-- The value written last in a history, zero if there is none. -/
def lastWritten (written? : κ → Option UInt8) (past : List κ) : UInt8 :=
  past.foldl (fun last call => (written? call).getD last) 0

@[simp] theorem lastWritten_nil (written? : κ → Option UInt8) : lastWritten written? [] = 0 := rfl

@[simp] theorem lastWritten_concat (written? : κ → Option UInt8) (past : List κ) (call : κ) :
    lastWritten written? (past ++ [call]) = (written? call).getD (lastWritten written? past) := by
  rw [lastWritten, List.foldl_append]
  rfl

end LastWritten

end NesMachine
