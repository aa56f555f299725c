import NesMachine.Proofs.Agreement
import NesMachine.Proofs.Cpu.StatusMarks

/-!
# The decimal flag is storage

The processor keeps the decimal flag and computes nothing with it. Two processors that differ in the
flag alone therefore cannot be told apart by any calls that save no status: on equal buses they give
the same answers, make the same accesses, leave equal buses and again differ in the flag alone. From
the first operation on that gives the flag a new value they are equal (`Cpu.session_withDecimal`).

An operation either passes the flag on (`Op.passesDecimal`), or replaces it (`Op.setsDecimal`), or
saves it. The first two commute with an exchange of the flag (`Cpu.carryOut_withDecimal_of_passes`,
`Cpu.carryOut_withDecimal_of_sets`); one call keeps the two processors together
(`Cpu.agreeOn_call`), and so do any calls, by induction.
-/

set_option autoImplicit false

namespace NesMachine

universe v

/-! ## Exchanging the flag -/

/-- The registers with another decimal flag. -/
def Registers.withDecimal (r : Registers) (decimal : Bool) : Registers :=
  { r with status.decimal := decimal }

/-- The processor with another decimal flag. -/
def Cpu.withDecimal (c : Cpu) (decimal : Bool) : Cpu :=
  { c with regs := c.regs.withDecimal decimal }

/-- The functions of an action use nothing of the decimal flag and pass it on. -/
def Action.PassesDecimal : Action → Prop
  | .load result | .pull result => ∀ r decimal value,
      result (r.withDecimal decimal) value = (result r value).withDecimal decimal
  | .modify result => ∀ r decimal value, result (r.withDecimal decimal) value =
      ((result r value).1, (result r value).2.withDecimal decimal)
  | .internal result => ∀ r decimal,
      result (r.withDecimal decimal) = (result r).withDecimal decimal
  | .store value | .push value => ∀ r decimal, value (r.withDecimal decimal) = value r
  | .branch taken => ∀ (s : Status) decimal, taken { s with decimal } = taken s
  | .jump | .jumpSaving | .comeBack => True
  | .comeBackFromHandler | .softwareBreak => False

/-- What an action makes of the registers does not depend on the decimal flag at all. -/
def Action.SetsDecimal : Action → Prop
  | .pull result => ∀ r decimal value, result (r.withDecimal decimal) value = result r value
  | .internal result => ∀ r decimal, result (r.withDecimal decimal) = result r
  | .comeBackFromHandler => True
  | _ => False

namespace Op

/-- The operations that give the decimal flag a new value. -/
def decimalSetters : List Op :=
  [.cld, .sed, .plp, .rti]

/-- The operations that save the status. -/
def statusSavers : List Op :=
  [.php, .brk]

theorem setsDecimal {op : Op} (h : op ∈ decimalSetters) : op.action.SetsDecimal := by
  cases op with
  | cld | sed =>
    intro r decimal
    rfl
  | plp =>
    intro r decimal value
    rfl
  | rti => trivial
  | _ => exact absurd h (by decide)

/-- No other operation touches the flag or looks at it, but for those that save the status. -/
theorem passesDecimal {op : Op} (hsets : op ∉ decimalSetters) (hsaves : op ∉ statusSavers) :
    op.action.PassesDecimal := by
  cases op with
  | adc | sbc | and | ora | eor | bit | cmp | cpx | cpy | lda | ldx | ldy | pla =>
    intro r decimal value
    rfl
  | asl | lsr | rol | ror | inc | dec =>
    intro r decimal value
    rfl
  | inx | iny | dex | dey | tax | tay | tsx | txa | txs | tya | clc | sec | cli | sei | clv | nop
  | unassigned =>
    intro r decimal
    rfl
  | sta | stx | sty | pha =>
    intro r decimal
    rfl
  | bcc | bcs | bne | beq | bpl | bmi | bvc | bvs =>
    intro s decimal
    rfl
  | jmp | jsr | rts => trivial
  | cld | sed | plp | rti => exact absurd (by decide) hsets
  | php | brk => exact absurd (by decide) hsaves

end Op

namespace Cpu

open Program

variable {c d : Cpu} {a : Action}

/-! ## One instruction -/

theorem resolve_withDecimal (c : Cpu) (decimal : Bool) (mode : AddressingMode) :
    (c.withDecimal decimal).resolve mode =
      c.resolve mode >>= fun found => .done (found.1, found.2.withDecimal decimal) := by
  cases mode <;> rfl

theorem loadOperand_withDecimal (c : Cpu) (decimal : Bool) :
    (c.withDecimal decimal).loadOperand =
      c.loadOperand >>= fun loaded => .done (loaded.1, loaded.2.withDecimal decimal) := by
  by_cases hmode : c.latches.mode = .implied <;>
    simp [loadOperand, hmode, withDecimal, readByte]

theorem storeOperand_withDecimal (c : Cpu) (decimal : Bool) (value : UInt8) :
    (c.withDecimal decimal).storeOperand value =
      c.storeOperand value >>= fun stored => .done (stored.withDecimal decimal) := by
  by_cases hmode : c.latches.mode = .implied <;>
    simp [storeOperand, hmode, withDecimal, Registers.withDecimal, writeByte]

/-- A branch goes where it goes without the flag. -/
theorem branch_withDecimal (c : Cpu) (decimal taken : Bool) :
    (c.withDecimal decimal).branch taken = (c.branch taken).withDecimal decimal := by
  cases taken <;> rfl

/-- An action that passes the flag on does the same with another flag. -/
theorem perform_withDecimal_of_passes (ha : a.PassesDecimal) (c : Cpu) (decimal : Bool) :
    (c.withDecimal decimal).perform a =
      c.perform a >>= fun ended => .done (ended.withDecimal decimal) := by
  cases a with
  | load result =>
    rw [perform, perform, loadOperand_withDecimal, bind_assoc, bind_assoc]
    refine congrArg _ (funext fun loaded => ?_)
    exact congrArg (fun regs => Program.done { loaded.2 with regs }) (ha ..)
  | modify result =>
    rw [perform, perform, loadOperand_withDecimal, bind_assoc, bind_assoc]
    refine congrArg _ (funext fun found => ?_)
    obtain ⟨operand, loaded⟩ := found
    have hresult : result (loaded.withDecimal decimal).regs operand =
        ((result loaded.regs operand).1, (result loaded.regs operand).2.withDecimal decimal) :=
      ha ..
    rw [done_bind]
    dsimp only
    rw [hresult]
    exact storeOperand_withDecimal { loaded with regs := (result loaded.regs operand).2 } decimal _
  | store value =>
    have hvalue : value (c.withDecimal decimal).regs = value c.regs := ha c.regs decimal
    rw [perform, hvalue]
    rfl
  | internal result =>
    exact congrArg (fun regs => Program.done { c with regs }) (ha c.regs decimal)
  | branch taken =>
    have htaken : taken (c.withDecimal decimal).regs.status = taken c.regs.status := ha ..
    rw [perform, htaken, branch_withDecimal]
    rfl
  | push value =>
    have hvalue : value (c.withDecimal decimal).regs = value c.regs := ha c.regs decimal
    rw [perform, hvalue]
    rfl
  | pull result =>
    refine congrArg (Program.read _) (funext fun value => ?_)
    exact congrArg (fun regs => Program.done { c with regs })
      (ha { c.regs with sp := c.regs.sp + 1 } decimal value)
  | jump | jumpSaving | comeBack => rfl
  | comeBackFromHandler | softwareBreak => exact ha.elim

/-- After an action that replaces the flag there is no difference. -/
theorem perform_withDecimal_of_sets (ha : a.SetsDecimal) (c : Cpu) (decimal : Bool) :
    (c.withDecimal decimal).perform a = c.perform a := by
  cases a with
  | internal result =>
    exact congrArg (fun regs => Program.done { c with regs }) (ha c.regs decimal)
  | pull result =>
    refine congrArg (Program.read _) (funext fun value => ?_)
    exact congrArg (fun regs => Program.done { c with regs })
      (ha { c.regs with sp := c.regs.sp + 1 } decimal value)
  | comeBackFromHandler => rfl
  | load | modify | store | branch | push | jump | jumpSaving | comeBack | softwareBreak =>
    exact ha.elim

/-- The part of an instruction behind the fetch of its opcode. -/
def carryOut (c : Cpu) (opcode : UInt8) : Program Cpu := do
  let (crossed, found) ← (c.started opcode).resolve (lookup opcode).mode
  let done ← found.perform (lookup opcode).op.action
  return done.charged (lookup opcode).op crossed

theorem begin_eq_carryOut (c : Cpu) : c.begin = readByte c.regs.pc >>= c.carryOut := rfl

theorem carryOut_withDecimal_of_passes (c : Cpu) (decimal : Bool) {opcode : UInt8}
    (hsets : (lookup opcode).op ∉ Op.decimalSetters)
    (hsaves : (lookup opcode).op ∉ Op.statusSavers) :
    (c.withDecimal decimal).carryOut opcode =
      c.carryOut opcode >>= fun done => .done (done.withDecimal decimal) := by
  have hstarted : (c.withDecimal decimal).started opcode =
      (c.started opcode).withDecimal decimal := rfl
  rw [carryOut, carryOut, hstarted, resolve_withDecimal, bind_assoc, bind_assoc]
  refine congrArg _ (funext fun resolved => ?_)
  obtain ⟨crossed, found⟩ := resolved
  have ha := Op.passesDecimal hsets hsaves
  rw [done_bind]
  dsimp only
  rw [perform_withDecimal_of_passes ha, bind_assoc, bind_assoc]
  rfl

theorem carryOut_withDecimal_of_sets (c : Cpu) (decimal : Bool) {opcode : UInt8}
    (hsets : (lookup opcode).op ∈ Op.decimalSetters) :
    (c.withDecimal decimal).carryOut opcode = c.carryOut opcode := by
  have hstarted : (c.withDecimal decimal).started opcode =
      (c.started opcode).withDecimal decimal := rfl
  rw [carryOut, carryOut, hstarted, resolve_withDecimal, bind_assoc]
  refine congrArg _ (funext fun resolved => ?_)
  obtain ⟨crossed, found⟩ := resolved
  rw [done_bind]
  dsimp only
  rw [perform_withDecimal_of_sets (Op.setsDecimal hsets)]

/-! ## Processors that differ in the flag -/

/-- Processors that differ in the decimal flag at most, and not even there once it is settled. -/
structure SameButDecimal (settled : Bool) (c d : Cpu) : Prop where
  exists_withDecimal : ∃ decimal, d = c.withDecimal decimal
  eq_of_settled : settled = true → d = c

variable {settled : Bool}

theorem SameButDecimal.refl (settled : Bool) (c : Cpu) : SameButDecimal settled c c :=
  ⟨⟨c.regs.status.decimal, rfl⟩, fun _ => rfl⟩

theorem sameButDecimal_withDecimal (c : Cpu) (decimal : Bool) :
    SameButDecimal false c (c.withDecimal decimal) :=
  ⟨⟨decimal, rfl⟩, fun h => absurd h (by decide)⟩

theorem SameButDecimal.waited (h : SameButDecimal settled c d) (n : Nat) :
    SameButDecimal settled (c.waited n) (d.waited n) := by
  obtain ⟨⟨decimal, rfl⟩, hsettled⟩ := h
  exact ⟨⟨decimal, rfl⟩, fun hs => congrArg (waited · n) (hsettled hs)⟩

theorem SameButDecimal.drain (h : SameButDecimal settled c d) :
    SameButDecimal settled c.drain d.drain := by
  have hremaining : d.remaining = c.remaining := by
    obtain ⟨decimal, rfl⟩ := h.exists_withDecimal
    rfl
  rw [drain_eq_waited, drain_eq_waited, hremaining]
  exact h.waited _

theorem SameButDecimal.clockCount_eq (h : SameButDecimal settled c d) :
    d.clockCount = c.clockCount := by
  obtain ⟨decimal, rfl⟩ := h.exists_withDecimal
  rfl

end Cpu

/-! ## Calls -/

section Running

variable {β : Type v} [Bus β]

/-- Whether a call gives the decimal flag a new value: it starts one of the operations that do, or
it is a reset. -/
def CpuCall.setsDecimal (call : CpuCall) (c : Cpu) (bus : β) : Bool :=
  match call with
  | .clock | .step => c.complete && decide ((c.nextInstruction bus).op ∈ Op.decimalSetters)
  | .reset => true
  | .irq | .nmi => false

/-- Whether a call saves the status. -/
def CpuCall.savesStatus (call : CpuCall) (c : Cpu) (bus : β) : Bool :=
  (call.statusSaved? c bus).isSome

/-- An instruction that starts saves the status if its operation does. -/
theorem CpuCall.notMem_statusSavers {call : CpuCall} (hcall : call = .clock ∨ call = .step)
    {c : Cpu} {bus : β} (hc : c.complete = true) (h : call.savesStatus c bus = false) :
    (c.nextInstruction bus).op ∉ Op.statusSavers := by
  intro hmem
  have hop : (c.nextInstruction bus).op = .php ∨ (c.nextInstruction bus).op = .brk := by
    simpa [Op.statusSavers] using hmem
  rcases hcall with rfl | rfl <;> rcases hop with hop | hop <;>
    simp [savesStatus, statusSaved?, hc, hop] at h

namespace Cpu

open Program

/-- An instruction that does not save the status leaves processors that differ in the decimal flag
at most. -/
theorem agreeOn_begin (c : Cpu) (decimal : Bool) {bus : β}
    (hsaves : (c.nextInstruction bus).op ∉ Op.statusSavers) :
    AgreeOn (SameButDecimal (decide ((c.nextInstruction bus).op ∈ Op.decimalSetters))) bus c.begin
      (c.withDecimal decimal).begin := by
  rw [begin_eq_carryOut, begin_eq_carryOut]
  have hfetch : AgreeOn Eq bus (readByte c.regs.pc) (readByte (c.withDecimal decimal).regs.pc) :=
    .refl (fun _ => rfl) bus _
  -- Both fetch the same opcode, and it decides which of the two laws applies.
  apply hfetch.bind
  intro _
  show AgreeOn _ _ (c.carryOut (Bus.read bus c.regs.pc).1)
    ((c.withDecimal decimal).carryOut (Bus.read bus c.regs.pc).1)
  by_cases hsets : (c.nextInstruction bus).op ∈ Op.decimalSetters
  · rw [carryOut_withDecimal_of_sets c decimal hsets]
    exact .refl (SameButDecimal.refl _) _ _
  · rw [carryOut_withDecimal_of_passes c decimal hsets hsaves, decide_eq_false hsets]
    exact .bind_done _ (sameButDecimal_withDecimal · decimal) _

theorem agreeOn_clock (c : Cpu) (decimal : Bool) {bus : β}
    (hsaves : c.complete = true → (c.nextInstruction bus).op ∉ Op.statusSavers) :
    AgreeOn (SameButDecimal (CpuCall.clock.setsDecimal c bus)) bus c.clock
      (c.withDecimal decimal).clock := by
  cases hc : c.complete with
  | false =>
    have hother : (c.withDecimal decimal).complete = false := hc
    rw [clock_of_busy hc, clock_of_busy hother]
    have hsettled : CpuCall.clock.setsDecimal c bus = false := by
      rw [CpuCall.setsDecimal, hc]
      rfl
    -- No instruction starts here, so nothing can have settled the flag.
    rw [hsettled]
    exact ⟨(sameButDecimal_withDecimal c decimal).waited 1, rfl, rfl⟩
  | true =>
    have hother : (c.withDecimal decimal).complete = true := hc
    rw [clock_of_complete hc, clock_of_complete hother]
    have hsettled : CpuCall.clock.setsDecimal c bus =
        decide ((c.nextInstruction bus).op ∈ Op.decimalSetters) := by
      rw [CpuCall.setsDecimal, hc]
      rfl
    rw [hsettled]
    apply (agreeOn_begin c decimal (hsaves hc)).bind
    intro hdone
    exact ⟨hdone.waited 1, rfl, rfl⟩

/-- One call that does not save the status keeps two processors together that differ in the decimal
flag, and settles the flag if it sets it. -/
theorem agreeOn_call (call : CpuCall) (c : Cpu) (decimal : Bool) {bus : β}
    (hsaves : call.savesStatus c bus = false) :
    AgreeOn (fun p q => p.1 = q.1 ∧ SameButDecimal (call.setsDecimal c bus) p.2 q.2) bus
      (call.program c) (call.program (c.withDecimal decimal)) := by
  cases call with
  | clock =>
    apply (agreeOn_clock c decimal fun hc =>
      CpuCall.notMem_statusSavers (by simp) hc hsaves).bind
    intro hafter
    exact ⟨⟨rfl, hafter⟩, rfl, rfl⟩
  | step =>
    rw [CpuCall.program, CpuCall.program, step, step, bind_assoc, bind_assoc]
    apply (agreeOn_clock c decimal fun hc =>
      CpuCall.notMem_statusSavers (by simp) hc hsaves).bind
    intro hstarted
    have hfinished := hstarted.drain
    refine ⟨⟨?_, hfinished⟩, rfl, rfl⟩
    exact congrArg (fun count => some (count - c.clockCount).toUInt32) hfinished.clockCount_eq.symm
  | reset => exact .refl (fun p => ⟨rfl, SameButDecimal.refl _ p.2⟩) bus (CpuCall.reset.program c)
  | irq =>
    -- The request is masked, or else it would save the status.
    have hmasked : c.regs.status.interruptDisable = true := by
      by_contra hmask
      simp [CpuCall.savesStatus, CpuCall.statusSaved?, hmask] at hsaves
    have hother : (c.withDecimal decimal).regs.status.interruptDisable = true := hmasked
    rw [CpuCall.program, CpuCall.program, irq, irq, if_pos hmasked, if_pos hother]
    exact ⟨⟨rfl, sameButDecimal_withDecimal c decimal⟩, rfl, rfl⟩
  | nmi => cases hsaves

/-- By induction on the calls, they keep two processors together as long as none saves the
status. -/
theorem agreeOn_session (calls : List CpuCall) (c : Cpu) (decimal : Bool) {bus : β}
    (hsaves : anyCall CpuCall.savesStatus calls c bus = false) :
    AgreeOn (fun p q => p.1 = q.1 ∧
        SameButDecimal (anyCall CpuCall.setsDecimal calls c bus) p.2 q.2) bus
      (session calls c) (session calls (c.withDecimal decimal)) := by
  induction calls generalizing c decimal bus with
  | nil => exact ⟨⟨rfl, sameButDecimal_withDecimal c decimal⟩, rfl, rfl⟩
  | cons call rest ih =>
    obtain ⟨hfirst, hrest⟩ := Bool.or_eq_false_iff.1 hsaves
    apply (agreeOn_call call c decimal hfirst).bind
    rintro ⟨hanswer, hafter⟩
    have hlater : AgreeOn (fun p q => p.1 = q.1 ∧
        SameButDecimal (anyCall CpuCall.setsDecimal (call :: rest) c bus) p.2 q.2)
        ((call.program c).run bus).2 (session rest ((call.program c).run bus).1.2)
        (session rest ((call.program (c.withDecimal decimal)).run bus).1.2) := by
      rw [anyCall]
      cases hset : call.setsDecimal c bus with
      | true =>
        -- From here on there is one processor.
        rw [hafter.eq_of_settled hset]
        exact .refl (fun p => ⟨rfl, SameButDecimal.refl _ p.2⟩) _ _
      | false =>
        obtain ⟨other, hother⟩ := hafter.exists_withDecimal
        rw [hother]
        exact ih _ other hrest
    apply hlater.bind
    rintro ⟨hanswers, hlast⟩
    exact ⟨⟨congrArg₂ List.cons hanswer hanswers, hlast⟩, rfl, rfl⟩

/-- The decimal flag is storage only: as long as the calls save no status, a processor with another
decimal flag gives the same answers on an equal bus, makes the same accesses, leaves an equal bus
and differs in the decimal flag at most. Once a call has set the flag the two are equal. -/
theorem session_withDecimal (c : Cpu) (decimal : Bool) (bus : β) (calls : List CpuCall)
    (hsaves : anyCall CpuCall.savesStatus calls c bus = false) :
    let ended := (session calls c).run bus
    let other := (session calls (c.withDecimal decimal)).run bus
    other.1.1 = ended.1.1 ∧
      (session calls (c.withDecimal decimal)).accesses bus = (session calls c).accesses bus ∧
      other.2 = ended.2 ∧
      (∃ last, other.1.2 = ended.1.2.withDecimal last) ∧
      (anyCall CpuCall.setsDecimal calls c bus = true → other.1.2 = ended.1.2) := by
  obtain ⟨⟨hanswers, hlast⟩, hbus, haccesses⟩ := agreeOn_session calls c decimal hsaves
  exact ⟨hanswers.symm, haccesses.symm, hbus.symm, hlast.exists_withDecimal, hlast.eq_of_settled⟩

end Cpu

end Running

/-- An addition, a store of its sum and `SED`, with decimal clear and set before. The sum is binary
in both, and after `SED` the two processors are equal. -/
theorem Cpu.session_withDecimal_adc :
    let addition := (FlatMemory.zero.write 0 0x69).write 1 0x19
    let store := ((addition.write 2 0x8D).write 3 0x00).write 4 0x02
    let memory := store.write 5 0xF8
    let c : Cpu := { Cpu.powerOn with regs.a := 0x28 }
    let calls : List CpuCall := [.step, .clock, .clock, .step, .step]
    anyCall CpuCall.savesStatus calls c memory = false ∧
      anyCall CpuCall.setsDecimal calls c memory = true ∧
      ((session calls (c.withDecimal true)).run memory).1.2 =
        ((session calls c).run memory).1.2 ∧
      ((session calls c).run memory).2.peek 0x0200 = 0x41 ∧
      ((session calls (c.withDecimal true)).run memory).2.peek 0x0200 = 0x41 := by
  intro addition store memory c calls
  have hsaves : anyCall CpuCall.savesStatus calls c memory = false := by decide +kernel
  have hsets : anyCall CpuCall.setsDecimal calls c memory = true := by decide +kernel
  obtain ⟨-, -, hbus, -, hsettled⟩ := session_withDecimal c true memory calls hsaves
  have hstored : ((session calls c).run memory).2.peek 0x0200 = 0x41 := by decide +kernel
  refine ⟨hsaves, hsets, hsettled hsets, hstored, ?_⟩
  rw [hbus]
  exact hstored

end NesMachine
