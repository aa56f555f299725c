import NesMachine.Proofs.Cpu.Accesses
import NesMachine.Proofs.Cpu.Calls
import NesMachine.Proofs.Cpu.Frames

/-!
# The stack is last-in first-out

Every call to the processor does one thing with frames (`CpuCall.stackMove`): it pushes one, pulls
one, or does something else. A push writes the bytes of its frame below the stack pointer
(`CpuCall.after_push`), and a pull gives back the frame that the stack ends with
(`CpuCall.after_pull`). So the frames that the word of moves leaves are on the stack after every run
(`stacked_afterCalls`), as long as the calls between the moves leave page one and the stack pointer
alone (`Undisturbed`) and at most 256 bytes are outstanding (`Bounded`).

A run whose word is well nested therefore gives back at every pull what the matching push stored
(`lastInFirstOut`), and byte number 256 is pushed onto byte number zero (`oldestOverwritten`).
-/

set_option autoImplicit false

namespace NesMachine

universe v

open Cpu (stackCell)

/-! ## Moves of calls -/

/-- What an operation does with frames, by the registers before the instruction. -/
def Op.stackMove (r : Registers) : Op → StackMove
  | .pha => .push (.accumulator r.a)
  | .php => .push (.status r.status)
  | .jsr => .push (.call (r.pc + 3))
  | .brk => .push (.handler true r.status (r.pc + 2))
  | .pla => .pull .accumulator
  | .plp => .pull .status
  | .rts => .pull .call
  | .rti => .pull .handler
  | _ => .other

/-- Whether an access is a write to page one. -/
def Access.writesStack : Access → Bool
  | .write addr _ => highByte addr == 0x01
  | _ => false

namespace CpuCall

/-- The processor and its memory after a call. -/
def after (call : CpuCall) (s : Cpu × FlatMemory) : Cpu × FlatMemory :=
  let ended := (call.program s.1).run s.2
  (ended.1.2, ended.2)

/-- The accesses that a call makes. -/
def accesses (call : CpuCall) (s : Cpu × FlatMemory) : List Access :=
  (call.program s.1).accesses s.2

/-- What a call does with frames. A clock or a step does something when it starts an instruction,
and a request for an interrupt when it is not masked. -/
def stackMove (call : CpuCall) (s : Cpu × FlatMemory) : StackMove :=
  match call with
  | .clock | .step =>
      if s.1.complete then (lookup (s.2.peek s.1.regs.pc)).op.stackMove s.1.regs else .other
  | .nmi => .push (.handler false s.1.regs.status s.1.regs.pc)
  | .irq =>
      if s.1.regs.status.interruptDisable then .other
      else .push (.handler false s.1.regs.status s.1.regs.pc)
  | .reset => .other

/-- The stack pointer stays and nothing is written to page one. -/
def KeepsStack (call : CpuCall) (s : Cpu × FlatMemory) : Prop :=
  (call.after s).1.regs.sp = s.1.regs.sp ∧
    ∀ access ∈ call.accesses s, access.writesStack = false

instance (call : CpuCall) (s : Cpu × FlatMemory) : Decidable (call.KeepsStack s) :=
  inferInstanceAs (Decidable (_ ∧ _))

end CpuCall

/-- What the operation of its kind gives back of a frame. -/
def Frame.Restored (f : Frame) (r : Registers) : Prop :=
  match f with
  | .accumulator value => r.a = value
  | .status flags => r.status = { flags with breakMark := false, unused := true }
  | .call back => r.pc = back
  | .handler _ flags back =>
      r.status = { flags with breakMark := false, unused := true } ∧ r.pc = back

/-! ## What one operation does -/

namespace Cpu

variable {d : Cpu} {r : Registers} {op : Op}

/-- The registers when the operand of an instruction has been found. -/
def operandFound (r : Registers) (mode : AddressingMode) : Registers :=
  { r with pc := r.pc + 1 + UInt16.ofNat mode.operandLength, status.unused := true }

/-- A push writes the bytes of its frame, on any bus. -/
theorem perform_push {β : Type v} [Bus β] {f : Frame} (hmove : op.stackMove r = .push f)
    (hregs : d.regs = operandFound r d.latches.mode) (hpair : op.goesWith d.latches.mode = true)
    (bus : β) :
    ((d.perform op.action).run bus).1.regs.sp = r.sp - UInt8.ofNat f.bytes.length ∧
      ((d.perform op.action).accesses bus).filter Access.isWrite = stackWrites r.sp f.bytes := by
  cases op with
  | pha | php =>
    obtain rfl := StackMove.push.inj hmove
    rw [Op.action, perform, push, hregs]
    exact ⟨rfl, rfl⟩
  | jsr =>
    obtain rfl := StackMove.push.inj hmove
    have hmode : d.latches.mode = .absolute := of_decide_eq_true hpair
    have hsp : r.sp - 1 - 1 = r.sp - 2 := by grind
    -- The operand is two bytes, and the saved address is the one of the second.
    have hback : d.regs.pc - 1 = r.pc + 3 - 1 := by
      rw [hregs, hmode]
      show r.pc + 1 + 2 - 1 = r.pc + 3 - 1
      grind
    rw [Op.action, perform, hback, pushWord, push, hregs]
    exact ⟨hsp, rfl⟩
  | brk =>
    obtain rfl := StackMove.push.inj hmove
    have hmode : d.latches.mode = .immediate := of_decide_eq_true hpair
    have hsp : r.sp - 1 - 1 - 1 = r.sp - 3 := by grind
    -- The byte after the opcode is skipped.
    have hback : d.regs.pc = r.pc + 2 := by
      rw [hregs, hmode]
      show r.pc + 1 + 1 = r.pc + 2
      grind
    rw [Op.action, perform, enterHandler, hback, pushWord, push, hregs]
    exact ⟨hsp, rfl⟩
  | _ => cases hmove

/-- A pull gives back the frame that the stack ends with, and writes nothing. -/
theorem perform_pull {f : Frame} (hmove : op.stackMove r = .pull f.kind)
    (hregs : d.regs = operandFound r d.latches.mode) {m : FlatMemory} {base : UInt8}
    {values : List UInt8} (hheld : Holds m base (values ++ f.bytes))
    (hsp : r.sp = base - UInt8.ofNat (values ++ f.bytes).length) :
    let ended := ((d.perform op.action).run m).1
    f.Restored ended.regs ∧ ended.regs.sp = base - UInt8.ofNat values.length ∧
      ((d.perform op.action).accesses m).filter Access.isWrite = [] := by
  intro ended
  cases op with
  | pla =>
    cases f with
    | accumulator value =>
      obtain ⟨hvalue, hup⟩ := hheld.last hsp
      have hended : ended.regs =
          { d.regs with sp := d.regs.sp + 1 }.setA (m.peek (stackCell (d.regs.sp + 1))) := rfl
      rw [hended, hregs]
      exact ⟨hvalue, hup, rfl⟩
    | status | call | handler => cases hmove
  | plp =>
    cases f with
    | status flags =>
      obtain ⟨hvalue, hup⟩ := hheld.last hsp
      have hended : ended.regs = { d.regs with
          sp := d.regs.sp + 1
          status := .pulled (m.peek (stackCell (d.regs.sp + 1))) } := rfl
      rw [hended, hregs]
      refine ⟨?_, hup, rfl⟩
      show Status.pulled (m.peek (stackCell (r.sp + 1))) = _
      rw [hvalue, Status.pulled_pushed]
    | accumulator | call | handler => cases hmove
  | rts =>
    cases f with
    | call back =>
      obtain ⟨hlow, hhigh, hup⟩ := hheld.lastWord hsp
      have hended : ended.regs = { d.regs with
          sp := d.regs.sp + 1 + 1
          pc := word (m.peek (stackCell (d.regs.sp + 1)))
            (m.peek (stackCell (d.regs.sp + 1 + 1))) + 1 } := rfl
      rw [hended, hregs]
      refine ⟨?_, hup, rfl⟩
      show word (m.peek (stackCell (r.sp + 1))) (m.peek (stackCell (r.sp + 1 + 1))) + 1 = back
      rw [hlow, hhigh, word_lowByte_highByte]
      exact UInt16.sub_add_cancel ..
    | accumulator | status | handler => cases hmove
  | rti =>
    cases f with
    | handler byInstruction flags back =>
      -- The status lies on top of the word to come back to.
      have hsplit : values ++ [highByte back, lowByte back, flags.pushed byInstruction] =
          values ++ [highByte back, lowByte back] ++ [flags.pushed byInstruction] := by
        rw [List.append_assoc]
        rfl
      rw [Frame.bytes, hsplit] at hheld hsp
      obtain ⟨hflags, hone⟩ := hheld.last hsp
      obtain ⟨hlow, hhigh, hup⟩ := hheld.left.lastWord hone
      have hended : ended.regs = { d.regs with
          sp := d.regs.sp + 1 + 1 + 1
          status := .pulled (m.peek (stackCell (d.regs.sp + 1)))
          pc := word (m.peek (stackCell (d.regs.sp + 1 + 1)))
            (m.peek (stackCell (d.regs.sp + 1 + 1 + 1))) } := rfl
      rw [hended, hregs]
      refine ⟨⟨?_, ?_⟩, hup, rfl⟩
      · show Status.pulled (m.peek (stackCell (r.sp + 1))) = _
        rw [hflags, Status.pulled_pushed]
      · show word (m.peek (stackCell (r.sp + 1 + 1))) (m.peek (stackCell (r.sp + 1 + 1 + 1))) = back
        rw [hlow, hhigh, word_lowByte_highByte]
    | accumulator | status | call => cases hmove
  | _ => cases hmove

end Cpu

/-! ## What one call does -/

namespace CpuCall

variable {call : CpuCall} {s : Cpu × FlatMemory}

theorem memory_after (call : CpuCall) (s : Cpu × FlatMemory) :
    (call.after s).2 = s.2.afterAccesses ((call.accesses s).filter Access.isWrite) :=
  Program.memory_run (call.program s.1) s.2

/-- A clock or a step that moves frames starts an instruction. -/
theorem complete_of_stackMove (hcall : call = .clock ∨ call = .step)
    (hmove : call.stackMove s ≠ .other) :
    s.1.complete = true ∧
      call.stackMove s = (lookup (s.2.peek s.1.regs.pc)).op.stackMove s.1.regs := by
  have hdefinition : call.stackMove s =
      if s.1.complete then (lookup (s.2.peek s.1.regs.pc)).op.stackMove s.1.regs else .other := by
    rcases hcall with rfl | rfl <;> rfl
  rw [hdefinition] at hmove ⊢
  split at hmove
  · rename_i hc
    exact ⟨hc, if_pos hc⟩
  · exact absurd rfl hmove

/-- A clock or a step that starts an instruction carries out its operation, on what the bus is after
some reads. -/
theorem exists_acting {β : Type v} [Bus β] {c : Cpu} (hc : c.complete = true)
    (hcall : call = .clock ∨ call = .step) (bus : β) :
    let instruction := lookup (Bus.read bus c.regs.pc).1
    ∃ (d : Cpu) (addrs : List UInt16), d.regs = Cpu.operandFound c.regs d.latches.mode ∧
      d.latches.mode = instruction.mode ∧
      ((call.program c).run bus).1.2.regs =
        ((d.perform instruction.op.action).run (Bus.afterReads bus addrs)).1.regs ∧
      ((call.program c).accesses bus).filter Access.isWrite =
        ((d.perform instruction.op.action).accesses (Bus.afterReads bus addrs)).filter
          Access.isWrite := by
  intro instruction
  let opcode := (Bus.read bus c.regs.pc).1
  let afterOpcode := (Bus.read bus c.regs.pc).2
  let finding := (c.started opcode).resolve instruction.mode
  -- Finding the operand only reads, so the operation alone writes.
  have hreads := Cpu.readsOnly_resolve (c.started opcode) instruction.mode
  have hsilent := hreads.writes_eq_nil afterOpcode
  obtain ⟨addrs, haddrs⟩ := hreads.exists_afterReads afterOpcode
  obtain ⟨hregs, -, hmode⟩ :=
    (Cpu.returns_resolve (c.started opcode) instruction.mode).run afterOpcode
  refine ⟨(finding.run afterOpcode).1.2, c.regs.pc :: addrs, ?_, hmode, ?_, ?_⟩
  · rw [hmode]
    exact hregs
  · have hrun : (c.begin.run bus).1.regs =
        (((finding.run afterOpcode).1.2.perform instruction.op.action).run
          (finding.run afterOpcode).2).1.regs := by
      rw [Cpu.run_begin]
      rfl
    rw [haddrs] at hrun
    rcases hcall with rfl | rfl
    · rw [program]
      simp only [Cpu.clock_of_complete hc, Program.run_bind, Program.run, Program.pure_eq_done]
      exact hrun
    · rw [program]
      simp only [Program.run_bind, Program.run, Program.pure_eq_done]
      rw [Cpu.regs_step hc]
      exact hrun
  · have hwrites : (c.begin.accesses bus).filter Access.isWrite =
        (((finding.run afterOpcode).1.2.perform instruction.op.action).accesses
          (finding.run afterOpcode).2).filter Access.isWrite := by
      rw [Cpu.accesses_begin]
      show (finding.accesses afterOpcode ++ _).filter Access.isWrite = _
      rw [List.filter_append, hsilent, List.nil_append]
      rfl
    rw [haddrs] at hwrites
    rcases hcall with rfl | rfl
    · rw [program]
      simp only [Cpu.clock_of_complete hc, Program.accesses_bind, Program.accesses,
        Program.pure_eq_done, List.append_nil]
      exact hwrites
    · rw [program]
      simp only [Program.accesses_bind, Program.accesses, Program.pure_eq_done, List.append_nil]
      rw [Cpu.accesses_step hc]
      exact hwrites

/-- A clock or a step that moves frames carries out an operation, on the memory as it was. -/
theorem exists_perform (hcall : call = .clock ∨ call = .step)
    (hmove : call.stackMove s ≠ .other) :
    let instruction := lookup (s.2.peek s.1.regs.pc)
    call.stackMove s = instruction.op.stackMove s.1.regs ∧
      ∃ d : Cpu, d.regs = Cpu.operandFound s.1.regs d.latches.mode ∧
      d.latches.mode = instruction.mode ∧
      (call.after s).1.regs = ((d.perform instruction.op.action).run s.2).1.regs ∧
      (call.accesses s).filter Access.isWrite =
        ((d.perform instruction.op.action).accesses s.2).filter Access.isWrite := by
  intro instruction
  obtain ⟨hc, hop⟩ := complete_of_stackMove hcall hmove
  obtain ⟨d, addrs, hregs, hmode, hended, hwrites⟩ := exists_acting hc hcall s.2
  rw [FlatMemory.afterReads_eq] at hended hwrites
  exact ⟨hop, d, hregs, hmode, hended, hwrites⟩

/-- The entry into a handler pushes the frame of a handler, on any bus. -/
theorem enterHandler_push {β : Type v} [Bus β] (c : Cpu) (byInstruction : Bool) (vector : UInt16)
    (bus : β) :
    ((c.enterHandler byInstruction vector).run bus).1.regs.sp = c.regs.sp - UInt8.ofNat 3 ∧
      ((c.enterHandler byInstruction vector).accesses bus).filter Access.isWrite =
        stackWrites c.regs.sp (Frame.handler byInstruction c.regs.status c.regs.pc).bytes := by
  have hsp : c.regs.sp - 1 - 1 - 1 = c.regs.sp - 3 := by grind
  exact ⟨hsp, rfl⟩

/-- A push writes the bytes of its frame. -/
theorem after_push {f : Frame} (hmove : call.stackMove s = .push f) :
    (call.after s).1.regs.sp = s.1.regs.sp - UInt8.ofNat f.bytes.length ∧
      (call.accesses s).filter Access.isWrite = stackWrites s.1.regs.sp f.bytes := by
  have hne : call.stackMove s ≠ .other := by
    rw [hmove]
    exact StackMove.noConfusion
  cases call with
  | clock | step =>
    obtain ⟨hop, d, hregs, hmode, hended, hwrites⟩ := exists_perform (by simp) hne
    rw [hended, hwrites]
    exact Cpu.perform_push (hop.symm.trans hmove) hregs (hmode ▸ goesWith_lookup _) s.2
  | nmi =>
    obtain rfl := StackMove.push.inj hmove
    exact enterHandler_push s.1 false nmiVector s.2
  | irq =>
    by_cases hmasked : s.1.regs.status.interruptDisable = true
    · exact absurd (if_pos hmasked) hne
    · have hframe := (if_neg hmasked).symm.trans hmove
      obtain rfl := StackMove.push.inj hframe
      rw [after, accesses, program, Cpu.irq, if_neg hmasked]
      exact enterHandler_push s.1 false irqVector s.2
  | reset => cases hmove

/-- A pull gives back the frame that the stack ends with, and writes nothing. -/
theorem after_pull {f : Frame} (hmove : call.stackMove s = .pull f.kind) {base : UInt8}
    {values : List UInt8} (hheld : Holds s.2 base (values ++ f.bytes))
    (hsp : s.1.regs.sp = base - UInt8.ofNat (values ++ f.bytes).length) :
    f.Restored (call.after s).1.regs ∧
      (call.after s).1.regs.sp = base - UInt8.ofNat values.length ∧
      (call.accesses s).filter Access.isWrite = [] := by
  have hne : call.stackMove s ≠ .other := by
    rw [hmove]
    exact StackMove.noConfusion
  cases call with
  | clock | step =>
    obtain ⟨hop, d, hregs, hmode, hended, hwrites⟩ := exists_perform (by simp) hne
    rw [hended, hwrites]
    exact Cpu.perform_pull (hop.symm.trans hmove) hregs hheld hsp
  | nmi => cases hmove
  | irq =>
    by_cases hmasked : s.1.regs.status.interruptDisable = true
    · exact absurd (if_pos hmasked) hne
    · cases (if_neg hmasked).symm.trans hmove
  | reset => cases hmove

end CpuCall

/-! ## Runs -/

/-- The processor and its memory after some calls. -/
def afterCalls (s : Cpu × FlatMemory) (calls : List CpuCall) : Cpu × FlatMemory :=
  calls.foldl (fun s call => call.after s) s

/-- The word of moves that some calls make. -/
def stackMoves (s : Cpu × FlatMemory) : List CpuCall → List StackMove
  | [] => []
  | call :: rest => call.stackMove s :: stackMoves (call.after s) rest

/-- The calls between the moves leave the stack alone. -/
def Undisturbed (s : Cpu × FlatMemory) (calls : List CpuCall) : Prop :=
  ∀ before call, before ++ [call] <+: calls →
    call.stackMove (afterCalls s before) = .other → call.KeepsStack (afterCalls s before)

theorem undisturbed_cons {s : Cpu × FlatMemory} {call : CpuCall} {rest : List CpuCall} :
    Undisturbed s (call :: rest) ↔
      (call.stackMove s = .other → call.KeepsStack s) ∧ Undisturbed (call.after s) rest := by
  constructor
  · intro h
    refine ⟨h [] call (by simp), ?_⟩
    intro before next hpre
    exact h (call :: before) next (List.cons_prefix_cons.2 ⟨rfl, hpre⟩)
  · rintro ⟨hcall, hrest⟩ before next hpre
    cases before with
    | nil =>
      obtain ⟨rfl, -⟩ := List.cons_prefix_cons.1 hpre
      exact hcall
    | cons first later =>
      obtain ⟨rfl, hlater⟩ := List.cons_prefix_cons.1 hpre
      exact hrest later next hlater

instance decidableUndisturbed : (s : Cpu × FlatMemory) → (calls : List CpuCall) →
    Decidable (Undisturbed s calls)
  | _, [] => .isTrue fun before call hpre => by simp at hpre
  | s, call :: rest =>
      have := decidableUndisturbed (call.after s) rest
      decidable_of_iff _ undisturbed_cons.symm

/-- At most 256 bytes are outstanding at any moment. -/
def Bounded (s : Cpu × FlatMemory) (calls : List CpuCall) : Prop :=
  ∀ before, before <+: calls → ∀ frames, outstanding? [] (stackMoves s before) = some frames →
    (contents frames).length ≤ 256

section Runs

variable {s : Cpu × FlatMemory} {calls : List CpuCall} {base : UInt8} {frames : List Frame}

theorem afterCalls_append (s : Cpu × FlatMemory) (first second : List CpuCall) :
    afterCalls s (first ++ second) = afterCalls (afterCalls s first) second :=
  List.foldl_append

theorem stackMoves_append (s : Cpu × FlatMemory) (first second : List CpuCall) :
    stackMoves s (first ++ second) =
      stackMoves s first ++ stackMoves (afterCalls s first) second := by
  induction first generalizing s with
  | nil => rfl
  | cons call rest ih =>
    rw [List.cons_append, stackMoves, ih]
    rfl

theorem length_stackMoves (s : Cpu × FlatMemory) (calls : List CpuCall) :
    (stackMoves s calls).length = calls.length := by
  induction calls generalizing s with
  | nil => rfl
  | cons call rest ih => exact congrArg Nat.succ (ih _)

/-- Up to 85 calls leave at most 255 bytes. -/
theorem bounded_of_length_le (h : calls.length ≤ 85) : Bounded s calls := by
  intro before hbefore frames hframes
  have hbytes := length_contents_le hframes
  have hlength := hbefore.length_le
  rw [length_stackMoves, contents, List.length_nil] at hbytes
  omega

/-- Interrupts are not between the moves, so nothing is asked of them. -/
theorem undisturbed_interrupts (s : Cpu × FlatMemory) (n : Nat) :
    Undisturbed s (List.replicate n .nmi) := by
  intro before call hpre hother
  have hcall : call = .nmi := List.eq_of_mem_replicate (hpre.subset (by simp))
  rw [hcall] at hother
  cases hother

/-- Every interrupt inside the others leaves three bytes. -/
theorem outstanding?_interrupts (s : Cpu × FlatMemory) (n : Nat) :
    ∃ frames, outstanding? [] (stackMoves s (List.replicate n .nmi)) = some frames ∧
      (contents frames).length = 3 * n := by
  induction n with
  | zero => exact ⟨[], rfl, rfl⟩
  | succ n ih =>
    obtain ⟨frames, hframes, hlength⟩ := ih
    let f : Frame := .handler false (afterCalls s (List.replicate n .nmi)).1.regs.status
      (afterCalls s (List.replicate n .nmi)).1.regs.pc
    refine ⟨f :: frames, ?_, ?_⟩
    · rw [List.replicate_succ', stackMoves_append, outstanding?_append, hframes, Option.bind_some]
      rfl
    · rw [contents, List.length_append, hlength]
      rfl

/-- Where the word of some calls splits, the calls do. -/
theorem exists_split {first second : List StackMove} (h : stackMoves s calls = first ++ second) :
    ∃ before after, calls = before ++ after ∧ stackMoves s before = first ∧
      stackMoves (afterCalls s before) after = second := by
  refine ⟨calls.take first.length, calls.drop first.length, (List.take_append_drop ..).symm, ?_⟩
  have hwhole : stackMoves s (calls.take first.length ++ calls.drop first.length) =
      first ++ second := by
    rw [List.take_append_drop]
    exact h
  rw [stackMoves_append] at hwhole
  -- Every call makes one move, so the two parts are as long as their calls.
  have hlength := congrArg List.length h
  rw [length_stackMoves, List.length_append] at hlength
  refine List.append_inj hwhole ?_
  rw [length_stackMoves, List.length_take]
  omega

/-- The stack has the bytes of some frames from `base` on, and the stack pointer is below them. -/
structure Stacked (base : UInt8) (frames : List Frame) (s : Cpu × FlatMemory) : Prop where
  pointer : s.1.regs.sp = base - UInt8.ofNat (contents frames).length
  bytes : Holds s.2 base (contents frames)

namespace Stacked

variable {call : CpuCall}

/-- A push adds its frame, as long as there are cells for it. -/
theorem push {f : Frame} (h : Stacked base frames s) (hmove : call.stackMove s = .push f)
    (hroom : (contents (f :: frames)).length ≤ 256) :
    Stacked base (f :: frames) (call.after s) := by
  obtain ⟨hsp, hwrites⟩ := CpuCall.after_push hmove
  rw [contents, List.length_append] at hroom
  constructor
  · rw [hsp, h.pointer, contents, List.length_append, UInt8.ofNat_add]
    grind
  · rw [CpuCall.memory_after, hwrites, h.pointer]
    exact h.bytes.append f.bytes hroom

/-- A pull takes the last frame off and gives it back. -/
theorem pull {f : Frame} (h : Stacked base (f :: frames) s)
    (hmove : call.stackMove s = .pull f.kind) :
    f.Restored (call.after s).1.regs ∧ Stacked base frames (call.after s) := by
  obtain ⟨hrestored, hsp, hwrites⟩ := CpuCall.after_pull hmove h.bytes h.pointer
  refine ⟨hrestored, hsp, ?_⟩
  rw [CpuCall.memory_after, hwrites]
  exact h.bytes.left

/-- A call that leaves the stack alone leaves the frames. -/
theorem keep (h : Stacked base frames s) (hkeeps : call.KeepsStack s) :
    Stacked base frames (call.after s) := by
  obtain ⟨hsp, hwrites⟩ := hkeeps
  refine ⟨hsp.trans h.pointer, ?_⟩
  rw [CpuCall.memory_after, FlatMemory.afterAccesses_filter]
  apply h.bytes.afterAccesses
  intro addr value hmem
  exact beq_eq_false_iff_ne.1 (hwrites _ hmem)

end Stacked

/-- After every run the stack has the frames that the word of its moves leaves. -/
theorem stacked_afterCalls (hquiet : Undisturbed s calls) (hbound : Bounded s calls)
    (hframes : outstanding? [] (stackMoves s calls) = some frames) :
    Stacked s.1.regs.sp frames (afterCalls s calls) := by
  -- On the calls, the latest one last: its move leads from the frames before it to `frames`.
  induction calls using List.reverseRecOn generalizing frames with
  | nil =>
    obtain rfl := Option.some.inj hframes
    exact ⟨(UInt8.sub_zero _).symm, .nil _ _⟩
  | append_singleton rest call ih =>
    have hpre : rest <+: rest ++ [call] := List.prefix_append ..
    have hroom := hbound _ (List.prefix_refl _) _ hframes
    rw [stackMoves_append, outstanding?_append] at hframes
    obtain ⟨earlier, hearlier, hmove⟩ := Option.bind_eq_some_iff.1 hframes
    rw [stackMoves, stackMoves, outstanding?_singleton] at hmove
    have hstacked := ih (fun before c hc => hquiet before c (hc.trans hpre))
      (fun before hbefore => hbound before (hbefore.trans hpre)) hearlier
    rw [afterCalls_append]
    show Stacked _ frames (call.after (afterCalls s rest))
    cases hkind : call.stackMove (afterCalls s rest) with
    | push f =>
      rw [hkind] at hmove
      obtain rfl := Option.some.inj hmove
      exact hstacked.push hkind hroom
    | other =>
      rw [hkind] at hmove
      obtain rfl := Option.some.inj hmove
      exact hstacked.keep (hquiet rest call (List.prefix_refl _) hkind)
    | pull kind =>
      rw [hkind] at hmove
      cases earlier with
      | nil => cases hmove
      | cons f deeper =>
        obtain ⟨rfl, hdeeper⟩ := Option.ite_none_right_eq_some.1 hmove
        obtain rfl := Option.some.inj hdeeper
        exact (hstacked.pull hkind).2

/-- A word that can be replayed can be replayed up to every moment. -/
theorem exists_outstanding (hframes : outstanding? [] (stackMoves s calls) = some frames)
    {before : List CpuCall} (hpre : before <+: calls) :
    ∃ earlier, outstanding? [] (stackMoves s before) = some earlier := by
  obtain ⟨rest, rfl⟩ := hpre
  rw [stackMoves_append, outstanding?_append] at hframes
  obtain ⟨earlier, hearlier, -⟩ := Option.bind_eq_some_iff.1 hframes
  exact ⟨earlier, hearlier⟩

/-- When a pull comes, a frame of its kind is outstanding. -/
theorem exists_pulled_frame (hframes : outstanding? [] (stackMoves s calls) = some frames)
    {before : List CpuCall} {call : CpuCall} {kind : FrameKind}
    (hpre : before ++ [call] <+: calls)
    (hpull : call.stackMove (afterCalls s before) = .pull kind) :
    ∃ f deeper, outstanding? [] (stackMoves s before) = some (f :: deeper) ∧ f.kind = kind := by
  obtain ⟨later, hlater⟩ := exists_outstanding hframes hpre
  rw [stackMoves_append, outstanding?_append] at hlater
  obtain ⟨earlier, hearlier, hmove⟩ := Option.bind_eq_some_iff.1 hlater
  rw [stackMoves, stackMoves, outstanding?_singleton, hpull] at hmove
  cases earlier with
  | nil => cases hmove
  | cons f deeper => exact ⟨f, deeper, hearlier, (Option.ite_none_right_eq_some.1 hmove).1⟩

end Runs

/-! ## Main statement -/

/-- What a well-nested run does with the stack. -/
structure LastInFirstOut (s : Cpu × FlatMemory) (calls : List CpuCall) : Prop where
  /-- Every pull gives back what its matching push stored: between the two there is a well-nested
  run. -/
  pulls : ∀ before call kind, before ++ [call] <+: calls →
    call.stackMove (afterCalls s before) = .pull kind →
      ∃ earlier saving inner f, before = earlier ++ saving :: inner ∧
        saving.stackMove (afterCalls s earlier) = .push f ∧
        WellNested (stackMoves (afterCalls s (earlier ++ [saving])) inner) ∧
        f.kind = kind ∧ f.Restored (call.after (afterCalls s before)).1.regs
  /-- The stack pointer ends where it started. -/
  pointer : (afterCalls s calls).1.regs.sp = s.1.regs.sp
  /-- Pushes and pulls write to page one alone. -/
  writes : ∀ before call, before ++ [call] <+: calls →
    call.stackMove (afterCalls s before) ≠ .other →
      ∀ addr value, Access.write addr value ∈ call.accesses (afterCalls s before) →
        highByte addr = 0x01

/-- The cell at `base` has the oldest of some bytes before a push and byte number 256 after it. -/
structure OldestOverwritten (base : UInt8) (values : List UInt8) (before after : FlatMemory) :
    Prop where
  oldest : values[0]? = some (before.peek (stackCell base))
  newest : values[256]? = some (after.peek (stackCell base))

section Main

variable {s : Cpu × FlatMemory} {calls : List CpuCall}

/-- The stack of a well-nested run is last-in first-out. -/
theorem lastInFirstOut (hquiet : Undisturbed s calls) (hbound : Bounded s calls)
    (hnested : WellNested (stackMoves s calls)) : LastInFirstOut s calls := by
  have hnone := hnested.outstanding?_eq []
  -- The frames at a moment of the run are on the stack at that moment.
  have hstacked : ∀ before, before <+: calls → ∀ frames,
      outstanding? [] (stackMoves s before) = some frames →
        Stacked s.1.regs.sp frames (afterCalls s before) := by
    intro before hbefore frames hframes
    exact stacked_afterCalls (fun earlier call h => hquiet earlier call (h.trans hbefore))
      (fun earlier h => hbound earlier (h.trans hbefore)) hframes
  refine ⟨?_, ?_, ?_⟩
  · intro before call kind hpre hpull
    obtain ⟨f, deeper, hframes, rfl⟩ := exists_pulled_frame hnone hpre hpull
    have hbefore : before <+: calls := (List.prefix_append ..).trans hpre
    obtain ⟨hrestored, -⟩ := (hstacked before hbefore _ hframes).pull hpull
    obtain ⟨earlier, inner, hword, hinner, -⟩ := exists_matching_push hframes
    obtain ⟨first, rest, rfl, rfl, hrest⟩ := exists_split hword
    cases rest with
    | nil => cases hrest
    | cons saving between =>
      obtain ⟨hpush, rfl⟩ := List.cons.inj hrest
      refine ⟨first, saving, between, f, rfl, hpush, ?_, rfl, hrestored⟩
      rw [afterCalls_append]
      exact hinner
  · have hend := (hstacked calls (List.prefix_refl _) [] hnone).pointer
    rw [hend]
    exact UInt8.sub_zero _
  · intro before call hpre hmove addr value hmem
    have hwrite : Access.write addr value ∈
        (call.accesses (afterCalls s before)).filter Access.isWrite :=
      List.mem_filter.2 ⟨hmem, rfl⟩
    cases hkind : call.stackMove (afterCalls s before) with
    | push f =>
      rw [(CpuCall.after_push hkind).2] at hwrite
      exact highByte_of_mem_stackWrites hwrite
    | pull kind =>
      obtain ⟨f, deeper, hframes, rfl⟩ := exists_pulled_frame hnone hpre hkind
      have hframe := hstacked before ((List.prefix_append ..).trans hpre) _ hframes
      rw [(CpuCall.after_pull hkind hframe.bytes hframe.pointer).2.2] at hwrite
      cases hwrite
    | other => exact absurd hkind hmove

/-- With more than 256 bytes outstanding the oldest one is overwritten. -/
theorem oldestOverwritten (hquiet : Undisturbed s calls) (hbound : Bounded s calls)
    {frames : List Frame} (hframes : outstanding? [] (stackMoves s calls) = some frames)
    {call : CpuCall} {f : Frame} (hpush : call.stackMove (afterCalls s calls) = .push f)
    (hover : 256 < (contents (f :: frames)).length) :
    OldestOverwritten s.1.regs.sp (contents (f :: frames)) (afterCalls s calls).2
      (call.after (afterCalls s calls)).2 := by
  have hstacked := stacked_afterCalls hquiet hbound hframes
  have hroom := hbound calls (List.prefix_refl _) frames hframes
  have hbytes := f.length_bytes_le
  rw [contents, List.length_append] at hover
  constructor
  · -- A frame has three bytes at most, so there were some before it.
    have hpos : 0 < (contents frames).length := by omega
    have hfirst := List.getElem?_eq_getElem hpos
    have hpeek := hstacked.bytes 0 _ hfirst
    have hbase : s.1.regs.sp - UInt8.ofNat 0 = s.1.regs.sp := UInt8.sub_zero _
    rw [hbase] at hpeek
    rw [contents, List.getElem?_append_left hpos, hfirst, hpeek]
  · rw [CpuCall.memory_after, (CpuCall.after_push hpush).2, hstacked.pointer]
    exact peek_base_of_overflow hroom (by omega) hover _ _

end Main

/-- The stack is last-in first-out as long as at most 256 bytes are outstanding, wherever the stack
pointer starts, and with more the oldest byte is overwritten. -/
theorem calls_last_in_first_out (s : Cpu × FlatMemory) (calls : List CpuCall)
    (hquiet : Undisturbed s calls) (hbound : Bounded s calls) :
    (WellNested (stackMoves s calls) → LastInFirstOut s calls) ∧
      ∀ (frames : List Frame) (call : CpuCall) (f : Frame),
        outstanding? [] (stackMoves s calls) = some frames →
          call.stackMove (afterCalls s calls) = .push f →
            256 < (contents (f :: frames)).length →
              OldestOverwritten s.1.regs.sp (contents (f :: frames)) (afterCalls s calls).2
                (call.after (afterCalls s calls)).2 := by
  constructor
  · intro hnested
    exact lastInFirstOut hquiet hbound hnested
  · intro frames call f hframes hpush hover
    exact oldestOverwritten hquiet hbound hframes hpush hover

/-- From stack pointer zero a call has its bytes at both ends of page one, and saves of the status
and the accumulator with a store between them come back from it. The 86th interrupt inside the
others overwrites the first byte of the first one. -/
theorem calls_last_in_first_out_wrapped_pointer :
    let memory := [(0x00, 0x20), (0x01, 0x10), (0x10, 0x08), (0x11, 0x48), (0x12, 0x85),
      (0x13, 0x40), (0x14, 0x68), (0x15, 0x28), (0x16, 0x60)].foldl
        (fun m cell => m.write cell.1 cell.2) FlatMemory.zero
    let start : Cpu × FlatMemory := ({ Cpu.powerOn with regs.a := 0x07, regs.sp := 0x00 }, memory)
    let nested := List.replicate 7 CpuCall.step
    let interrupts := List.replicate 85 CpuCall.nmi
    let last := afterCalls start interrupts
    let f : Frame := .handler false last.1.regs.status last.1.regs.pc
    (Undisturbed start nested ∧ Bounded start nested ∧ WellNested (stackMoves start nested) ∧
      LastInFirstOut start nested ∧
      CpuCall.step.accesses start =
        [.read 0 0x20, .read 1 0x10, .read 2 0, .write 0x0100 0, .write 0x01FF 2]) ∧
      Undisturbed start interrupts ∧ Bounded start interrupts ∧
      ∃ frames, outstanding? [] (stackMoves start interrupts) = some frames ∧
        CpuCall.nmi.stackMove last = .push f ∧ 256 < (contents (f :: frames)).length ∧
        OldestOverwritten start.1.regs.sp (contents (f :: frames)) last.2
          (CpuCall.nmi.after last).2 := by
  intro memory start nested interrupts last f
  have hword : stackMoves start nested = [.push (.call 3),
      .push (.status start.1.regs.status), .push (.accumulator 7), .other, .pull .accumulator,
      .pull .status, .pull .call] := by
    decide +kernel
  have hnested : WellNested (stackMoves start nested) := by
    rw [hword]
    exact .frame (.call 3) (.frame (.status start.1.regs.status) (.frame (.accumulator 7) .other))
  have hquiet : Undisturbed start nested := by
    decide +kernel
  have hbound : Bounded start nested := bounded_of_length_le (by decide)
  have hquiets := undisturbed_interrupts start 85
  have hbounds : Bounded start interrupts := bounded_of_length_le (by decide)
  obtain ⟨frames, hframes, hlength⟩ := outstanding?_interrupts start 85
  have hover : 256 < (contents (f :: frames)).length := by
    rw [contents, List.length_append, hlength]
    decide
  refine ⟨⟨hquiet, hbound, hnested, ?_, by decide +kernel⟩, hquiets, hbounds, frames, hframes, rfl,
    hover, ?_⟩
  · exact (calls_last_in_first_out start nested hquiet hbound).1 hnested
  · exact (calls_last_in_first_out start interrupts hquiets hbounds).2 frames .nmi f hframes rfl
      hover

end NesMachine
