import NesMachine.Proofs.ByteBits
import NesMachine.Proofs.Cpu.Cells

/-!
# Shifts and rotations of numbers of several bytes

A number of several bytes is shifted by one operation for each byte, from the low byte up or from
the high byte down (`Direction`). The first may be a shift, which takes in a zero; the others are
rotations, which take in the carry that the operation before them left. As each of them shifts its
byte and leaves in carry what comes out, together they shift the number (`Moves.cons`), by
induction on the cells (`moves_of_rotations`).

So they double or halve the number exactly, rotations down undo rotations up, and the number with
the carry comes round after as many rotations as it has bits (`multibyte_shifts`). The operand in A
and the operand in a cell are treated alike.
-/

set_option autoImplicit false

namespace NesMachine

/-! ## One byte -/

/-- The way in which a shift moves the bits of its operand. -/
inductive Direction where
  | up | down
  deriving DecidableEq

namespace Direction

/-- The order in which the bits of a byte are passed on. -/
def order : Direction → UInt8 → List Bool
  | .up => bitsUp
  | .down => bitsDown

/-- The operation that takes in a zero. -/
def shift : Direction → Op
  | .up => .asl
  | .down => .lsr

/-- The operation that takes in the carry. -/
def rotate : Direction → Op
  | .up => .rol
  | .down => .ror

end Direction

namespace Registers

/-- A rotation up takes in a bit at the low end. -/
theorem shifted_up (carry : Bool) (m : UInt8) :
    Shifted bitsUp carry [m] [(m <<< 1) + if carry then 1 else 0] (signBit m) := by
  have all : ∀ (carry : Bool) (i : Fin 256),
      carry :: bitsUp (UInt8.ofFin i) =
        bitsUp ((UInt8.ofFin i <<< 1) + if carry then 1 else 0) ++ [signBit (UInt8.ofFin i)] := by
    decide +kernel
  rw [Shifted, List.flatMap_singleton, List.flatMap_singleton]
  exact all carry m.toFin

/-- A rotation down takes in a bit at the high end. -/
theorem shifted_down (carry : Bool) (m : UInt8) :
    Shifted bitsDown carry [m] [(m >>> 1) + 0x80 * if carry then 1 else 0] (m % 2 == 1) := by
  have all : ∀ (carry : Bool) (i : Fin 256),
      carry :: bitsDown (UInt8.ofFin i) =
        bitsDown ((UInt8.ofFin i >>> 1) + 0x80 * if carry then 1 else 0) ++
          [UInt8.ofFin i % 2 == 1] := by
    decide +kernel
  rw [Shifted, List.flatMap_singleton, List.flatMap_singleton]
  exact all carry m.toFin

end Registers

/-- An action shifts its operand in a direction. It takes in a bit that depends on the carry, and
leaves in carry the bit that comes out. -/
def Action.ShiftsBy (a : Action) (d : Direction) (incoming : Bool → Bool) : Prop :=
  ∃ result, a = .modify result ∧ ∀ (r : Registers) (m : UInt8),
    Shifted d.order (incoming r.status.carry) [m] [(result r m).1] (result r m).2.status.carry

namespace Direction

theorem shiftsBy_rotate (d : Direction) : d.rotate.action.ShiftsBy d id := by
  cases d with
  | up => exact ⟨_, rfl, fun r m => Registers.shifted_up r.status.carry m⟩
  | down => exact ⟨_, rfl, fun r m => Registers.shifted_down r.status.carry m⟩

/-- A shift is a rotation that takes in a zero. -/
theorem shiftsBy_shift (d : Direction) : d.shift.action.ShiftsBy d fun _ => false := by
  cases d with
  | up =>
    refine ⟨_, rfl, fun r m => ?_⟩
    have hshift := Registers.shifted_up false m
    rwa [if_neg Bool.false_ne_true, UInt8.add_zero] at hshift
  | down =>
    refine ⟨_, rfl, fun r m => ?_⟩
    have hshift := Registers.shifted_down false m
    rwa [if_neg Bool.false_ne_true, UInt8.mul_zero, UInt8.add_zero] at hshift

end Direction

/-! ## Several cells -/

/-- The rotations of some cells, one after the other. -/
def rotations (d : Direction) (cells : List UInt16) : List (Op × UInt16) :=
  cells.map fun cell => (d.rotate, cell)

/-- The shift of the first of some cells and the rotations of the others. -/
def shifts (d : Direction) : List UInt16 → List (Op × UInt16)
  | [] => []
  | cell :: rest => (d.shift, cell) :: rotations d rest

/-- From one state to another at a boundary a bit goes into some cells in the order in which they
are listed, the one that comes out is in carry, and no other cell changes. -/
structure Moves (d : Direction) (incoming : Bool) (cells : List UInt16)
    (s last : Cpu × FlatMemory) : Prop where
  complete : last.1.complete = true
  shifted : Shifted d.order incoming (cells.map s.2.peek) (cells.map last.2.peek)
    last.1.regs.status.carry
  elsewhere : ∀ addr, addr ∉ cells → last.2.peek addr = s.2.peek addr

section Running

variable {d : Direction} {op : Op} {cell : UInt16} {cells : List UInt16}
  {rest : List (Op × UInt16)} {s middle last : Cpu × FlatMemory} {incoming : Bool}

/-- A step of an operation that shifts a cell. -/
theorem moves_step {bit : Bool → Bool} (hop : op.action.ShiftsBy d bit)
    (hc : s.1.complete = true) (hexecutes : Executes ((op, cell) :: rest) s) :
    Moves d (bit s.1.regs.status.carry) [cell] s (CpuCall.step.after s) := by
  obtain ⟨hnext, hcell, -⟩ := hexecutes
  obtain ⟨result, haction, hshifted⟩ := hop
  have huses : op.action.usesOperand = true := by
    rw [haction]
    rfl
  obtain ⟨hcomplete, hregs, hmemory⟩ := Cpu.step_onCell hc hnext hcell huses
  rw [haction] at hregs hmemory
  let found := Cpu.operandFound s.1.regs (s.1.nextInstruction s.2).mode
  have hpeek : ∀ addr, (CpuCall.step.after s).2.peek addr =
      if addr = cell then (result found (s.2.peek cell)).1 else s.2.peek addr := by
    intro addr
    rw [hmemory]
    exact FlatMemory.peek_write ..
  constructor
  · exact hcomplete
  · rw [List.map_singleton, List.map_singleton, hpeek cell, if_pos rfl, hregs]
    exact hshifted found (s.2.peek cell)
  · intro addr haddr
    rw [hpeek addr, if_neg (List.ne_of_not_mem_cons haddr)]

/-- The bit that comes out of one cell goes into the others. -/
theorem Moves.cons (hfirst : Moves d incoming [cell] s middle)
    (hrest : Moves d middle.1.regs.status.carry cells middle last) (hcell : cell ∉ cells) :
    Moves d incoming (cell :: cells) s last := by
  -- The first cell is done with, and the others are as they were.
  have hdone : last.2.peek cell = middle.2.peek cell := hrest.elsewhere cell hcell
  have hothers : cells.map middle.2.peek = cells.map s.2.peek := by
    refine List.map_congr_left fun other hother => ?_
    apply hfirst.elsewhere
    rintro hmem
    obtain rfl := List.mem_singleton.1 hmem
    exact hcell hother
  have hshifted := hrest.shifted
  rw [hothers] at hshifted
  constructor
  · exact hrest.complete
  · rw [List.map_cons, List.map_cons, hdone]
    exact hfirst.shifted.cons hshifted
  · intro addr haddr
    obtain ⟨hne, hmem⟩ := not_or.1 (mt List.mem_cons.2 haddr)
    rw [hrest.elsewhere addr hmem]
    exact hfirst.elsewhere addr (mt List.mem_singleton.1 hne)

/-- By induction on the cells, rotations move the carry through all of them. -/
theorem moves_of_rotations (hc : s.1.complete = true) (hcells : cells.Nodup)
    (hexecutes : Executes (rotations d cells ++ rest) s) :
    Moves d s.1.regs.status.carry cells s (afterSteps cells.length s) ∧
      Executes rest (afterSteps cells.length s) := by
  induction cells generalizing s with
  | nil => exact ⟨⟨hc, .nil _ _, fun addr _ => rfl⟩, hexecutes⟩
  | cons cell cells ih =>
    obtain ⟨hcell, hcells⟩ := List.nodup_cons.1 hcells
    have hfirst := moves_step d.shiftsBy_rotate hc hexecutes
    obtain ⟨hothers, hrest⟩ := ih hfirst.complete hcells hexecutes.2.2
    rw [List.length_cons, afterSteps_succ]
    exact ⟨hfirst.cons hothers hcell, hrest⟩

/-- A shift and the rotations behind it move a zero through all cells. -/
theorem moves_of_shifts (hc : s.1.complete = true) (hne : cells ≠ []) (hcells : cells.Nodup)
    (hexecutes : Executes (shifts d cells) s) :
    Moves d false cells s (afterSteps cells.length s) := by
  cases cells with
  | nil => exact absurd rfl hne
  | cons cell cells =>
    obtain ⟨hcell, hcells⟩ := List.nodup_cons.1 hcells
    have hfirst := moves_step d.shiftsBy_shift hc hexecutes
    have hexecuted : Executes (rotations d cells ++ []) (CpuCall.step.after s) := by
      rw [List.append_nil]
      exact hexecutes.2.2
    obtain ⟨hothers, -⟩ := moves_of_rotations hfirst.complete hcells hexecuted
    rw [List.length_cons, afterSteps_succ]
    exact hfirst.cons hothers hcell

end Running

/-! ## Exactness -/

/-- The number in some cells, low byte first. -/
def numberIn (cells : List UInt16) (m : FlatMemory) : Nat :=
  littleEndian (cells.map m.peek)

/-- At a boundary, the next instructions carry out some operations on a number in distinct cells. -/
structure CarriesOut (operations : List (Op × UInt16)) (cells : List UInt16)
    (s : Cpu × FlatMemory) : Prop where
  complete : s.1.complete = true
  nonempty : cells ≠ []
  nodup : cells.Nodup
  executes : Executes operations s

/-- The number is doubled, its top bit goes to carry, and no other cell changes. -/
structure Doubles (cells : List UInt16) (s last : Cpu × FlatMemory) : Prop where
  number_eq : numberIn cells last.2 = 2 * numberIn cells s.2 % 256 ^ cells.length
  carry_eq : last.1.regs.status.carry = (numberIn cells s.2).testBit (8 * cells.length - 1)
  elsewhere : ∀ addr, addr ∉ cells → last.2.peek addr = s.2.peek addr

/-- The number is halved, its lowest bit goes to carry, and no other cell changes. -/
structure Halves (cells : List UInt16) (s last : Cpu × FlatMemory) : Prop where
  number_eq : numberIn cells last.2 = numberIn cells s.2 / 2
  carry_eq : last.1.regs.status.carry = (numberIn cells s.2).testBit 0
  elsewhere : ∀ addr, addr ∉ cells → last.2.peek addr = s.2.peek addr

/-- The carry and all of memory are as before. -/
structure Restores (s last : Cpu × FlatMemory) : Prop where
  carry_eq : last.1.regs.status.carry = s.1.regs.status.carry
  peek_eq : ∀ addr, last.2.peek addr = s.2.peek addr

section Exactness

variable {cells : List UInt16} {s last : Cpu × FlatMemory}

theorem restores_of_map_eq (hcarry : last.1.regs.status.carry = s.1.regs.status.carry)
    (hcells : cells.map last.2.peek = cells.map s.2.peek)
    (helsewhere : ∀ addr, addr ∉ cells → last.2.peek addr = s.2.peek addr) :
    Restores s last := by
  refine ⟨hcarry, fun addr => ?_⟩
  by_cases haddr : addr ∈ cells
  · exact List.map_inj_left.1 hcells addr haddr
  · exact helsewhere addr haddr

/-- Moving a zero up doubles. -/
theorem Moves.doubles (h : Moves .up false cells s last) (hne : cells ≠ []) :
    Doubles cells s last := by
  have hvalue := h.shifted.littleEndian_eq
  have hlt := littleEndian_lt (cells.map last.2.peek)
  rw [List.length_map, Bool.toNat_false, Nat.add_zero] at hvalue
  rw [List.length_map] at hlt
  have hnonempty : cells.map s.2.peek ≠ [] := mt List.map_eq_nil_iff.1 hne
  refine ⟨?_, ?_, h.elsewhere⟩
  · have hmod : 2 * numberIn cells s.2 =
        numberIn cells last.2 + 256 ^ cells.length * last.1.regs.status.carry.toNat :=
      hvalue.symm
    rw [hmod, Nat.add_mul_mod_self_left]
    exact (Nat.mod_eq_of_lt hlt).symm
  · have htop := testBit_littleEndian_top hnonempty
    rw [List.length_map] at htop
    rw [numberIn, htop]
    cases hcarry : last.1.regs.status.carry with
    | false =>
      rw [hcarry, Bool.toNat_false] at hvalue
      exact (decide_eq_false (by omega)).symm
    | true =>
      rw [hcarry, Bool.toNat_true] at hvalue
      exact (decide_eq_true (by omega)).symm

/-- Moving a zero down from the high end halves. -/
theorem Moves.halves (h : Moves .down false cells.reverse s last) : Halves cells s last := by
  have hshifted := h.shifted
  rw [List.map_reverse, List.map_reverse] at hshifted
  have hvalue := (shifted_down_iff.1 hshifted).littleEndian_eq
  have hcarry := Bool.toNat_lt last.1.regs.status.carry
  have helsewhere : ∀ addr, addr ∉ cells → last.2.peek addr = s.2.peek addr := by
    intro addr haddr
    exact h.elsewhere addr (mt List.mem_reverse.1 haddr)
  rw [Bool.toNat_false] at hvalue
  refine ⟨?_, ?_, helsewhere⟩
  · rw [numberIn, numberIn]
    omega
  · rw [Nat.testBit_zero, numberIn]
    cases hbit : last.1.regs.status.carry with
    | false =>
      rw [hbit, Bool.toNat_false] at hvalue
      exact (decide_eq_false (by omega)).symm
    | true =>
      rw [hbit, Bool.toNat_true] at hvalue
      exact (decide_eq_true (by omega)).symm

/-- Moving down what was moved up restores it. -/
theorem Moves.restores {middle : Cpu × FlatMemory}
    (hup : Moves .up s.1.regs.status.carry cells s middle)
    (hdown : Moves .down middle.1.regs.status.carry cells.reverse middle last) :
    Restores s last := by
  have hshifted := hdown.shifted
  rw [List.map_reverse, List.map_reverse] at hshifted
  obtain ⟨hcarry, hcells⟩ := (shifted_down_iff.1 hshifted).unique hup.shifted
  apply restores_of_map_eq hcarry hcells
  intro addr haddr
  rw [hdown.elsewhere addr (mt List.mem_reverse.1 haddr), hup.elsewhere addr haddr]

/-- By induction on the rounds, each of them rotates the ring of the carry and the bits. -/
theorem ring_of_rounds {rounds : Nat} (hc : s.1.complete = true) (hcells : cells.Nodup)
    (hexecutes : Executes (List.replicate rounds (rotations .up cells)).flatten s) :
    let last := afterSteps (rounds * cells.length) s
    (ring last.1.regs.status.carry (cells.map last.2.peek)).rotate rounds =
        ring s.1.regs.status.carry (cells.map s.2.peek) ∧
      ∀ addr, addr ∉ cells → last.2.peek addr = s.2.peek addr := by
  induction rounds generalizing s with
  | zero =>
    rw [Nat.zero_mul, afterSteps_zero]
    exact ⟨List.rotate_zero _, fun addr _ => rfl⟩
  | succ rounds ih =>
    rw [List.replicate_succ, List.flatten_cons] at hexecutes
    obtain ⟨hround, hexecutes⟩ := moves_of_rotations hc hcells hexecutes
    obtain ⟨hring, helsewhere⟩ := ih hround.complete hexecutes
    rw [Nat.succ_mul, Nat.add_comm, afterSteps_add]
    refine ⟨?_, fun addr haddr => ?_⟩
    · rw [← hround.shifted.rotate_eq, ← hring, List.rotate_rotate]
    · rw [helsewhere addr haddr, hround.elsewhere addr haddr]

/-- After as many rounds as the ring has places it has come round. -/
theorem restores_of_rounds {rounds : Nat} (hrounds : rounds = 8 * cells.length + 1)
    (hc : s.1.complete = true) (hcells : cells.Nodup)
    (hexecutes : Executes (List.replicate rounds (rotations .up cells)).flatten s) :
    Restores s (afterSteps (rounds * cells.length) s) := by
  obtain ⟨hring, helsewhere⟩ := ring_of_rounds hc hcells hexecutes
  generalize afterSteps (rounds * cells.length) s = last at *
  have hlength : (ring last.1.regs.status.carry (cells.map last.2.peek)).length = rounds := by
    rw [length_ring, List.length_map, hrounds]
  rw [← hlength, List.rotate_length] at hring
  obtain ⟨hcarry, hbits⟩ := List.cons.inj hring
  exact restores_of_map_eq hcarry (flatMap_bitsUp_inj hbits) helsewhere

end Exactness

/-! ## The operand in A -/

/-- What a shift makes of an operand, and the status it leaves, depend on the operand and the status
alone, and the operation changes A only if the operand is there. -/
theorem Op.exists_modify_of_mem_shifts {op : Op} (h : op ∈ Op.shifts) :
    ∃ result, op.action = .modify result ∧ ∀ (r other : Registers) (m : UInt8),
      r.status = other.status → (result r m).1 = (result other m).1 ∧
        (result r m).2.status = (result other m).2.status ∧ (result r m).2.a = r.a := by
  cases op with
  | asl | lsr | rol | ror =>
    refine ⟨_, rfl, ?_⟩
    rintro ⟨a, x, y, sp, pc, status⟩ ⟨_, _, _, _, _, _⟩ m rfl
    exact ⟨rfl, rfl, rfl⟩
  | _ => exact absurd h (by decide)

/-- At a boundary, the next instruction is an operation on A. -/
structure CarriesOutOnA (op : Op) (s : Cpu × FlatMemory) : Prop where
  complete : s.1.complete = true
  op_eq : (s.1.nextInstruction s.2).op = op
  mode_eq : (s.1.nextInstruction s.2).mode = .implied

theorem run_perform_onA {d : Cpu} (hmode : d.latches.mode = .implied)
    (result : Registers → UInt8 → UInt8 × Registers) (m : FlatMemory) :
    ((d.perform (.modify result)).run m).1.regs =
        { (result d.regs d.latches.operand).2 with a := (result d.regs d.latches.operand).1 } ∧
      ((d.perform (.modify result)).run m).2 = m := by
  rw [Cpu.perform, Cpu.loadOperand, if_pos hmode]
  simp [Cpu.storeOperand, hmode, Program.run]

/-- A step of an operation on A takes the operand from A and puts the result back there. -/
theorem step_onA {op : Op} {s : Cpu × FlatMemory} (h : CarriesOutOnA op s)
    {result : Registers → UInt8 → UInt8 × Registers} (haction : op.action = .modify result) :
    let rewritten := result (Cpu.operandFound s.1.regs .implied) s.1.regs.a
    (CpuCall.step.after s).1.regs = { rewritten.2 with a := rewritten.1 } ∧
      (CpuCall.step.after s).2 = s.2 := by
  obtain ⟨c, m⟩ := s
  obtain ⟨hc, hop, hmode⟩ := h
  intro rewritten
  let opcode := m.peek c.regs.pc
  have hrow : (lookup opcode).op = op := hop
  have himplied : (lookup opcode).mode = .implied := hmode
  -- The mode reads nothing and leaves A in the latch of the operand.
  let found := ((c.started opcode).resolve .implied).run m
  have hfound : found.1.2.latches.mode = .implied := himplied
  have hregs : found.1.2.regs = Cpu.operandFound c.regs .implied :=
    ((Cpu.returns_resolve (c.started opcode) .implied).run m).1
  have hbegin : c.begin.run m =
      let ended := (found.1.2.perform op.action).run m
      (ended.1.charged op found.1.1, ended.2) := by
    rw [Cpu.run_begin, ← hrow]
    show (let finding := ((c.started opcode).resolve (lookup opcode).mode).run m
      let ended := (finding.1.2.perform (lookup opcode).op.action).run finding.2
      (ended.1.charged (lookup opcode).op finding.1.1, ended.2)) = _
    rw [himplied]
    rfl
  obtain ⟨hresult, hmemory⟩ := run_perform_onA hfound result m
  rw [CpuCall.after, Cpu.run_program_step]
  refine ⟨?_, ?_⟩
  · show (c.step.run m).1.2.regs = _
    rw [Cpu.regs_step hc, hbegin, haction]
    dsimp only [Cpu.charged]
    rw [hresult, hregs]
    rfl
  · show (c.step.run m).2 = m
    rw [Cpu.step_of_complete hc, Program.run_bind, hbegin, haction]
    exact hmemory

/-- An operation on A and the same operation on a cell yield the same byte and the same status. The
first leaves memory, the second leaves A. -/
structure YieldsAlike (cell : UInt16) (s onA t onCell : Cpu × FlatMemory) : Prop where
  byte_eq : onCell.2.peek cell = onA.1.regs.a
  status_eq : onCell.1.regs.status = onA.1.regs.status
  a_eq : onCell.1.regs.a = t.1.regs.a
  memory_eq : onA.2 = s.2

theorem yieldsAlike_of_mem_shifts {op : Op} (hop : op ∈ Op.shifts) {cell : UInt16}
    {s t : Cpu × FlatMemory} (hA : CarriesOutOnA op s) (hcell : CarriesOut [(op, cell)] [cell] t)
    (hoperand : t.2.peek cell = s.1.regs.a) (hstatus : t.1.regs.status = s.1.regs.status) :
    YieldsAlike cell s (afterSteps 1 s) t (afterSteps 1 t) := by
  obtain ⟨result, haction, hresult⟩ := Op.exists_modify_of_mem_shifts hop
  have huses : op.action.usesOperand = true := by
    rw [haction]
    rfl
  obtain ⟨hnext, hfound, -⟩ := hcell.executes
  obtain ⟨hregs, hmemory⟩ := step_onA hA haction
  obtain ⟨-, hregsCell, hmemoryCell⟩ := Cpu.step_onCell hcell.complete hnext hfound huses
  rw [haction, hoperand] at hregsCell
  rw [haction] at hmemoryCell
  rw [afterSteps_succ, afterSteps_zero, afterSteps_succ, afterSteps_zero]
  -- Both find their operand with the same status, and it is the same byte.
  have hsame : (Cpu.operandFound t.1.regs (t.1.nextInstruction t.2).mode).status =
      (Cpu.operandFound s.1.regs .implied).status := by
    show { t.1.regs.status with unused := true } = { s.1.regs.status with unused := true }
    rw [hstatus]
  obtain ⟨hbyte, hflags, ha⟩ := hresult _ _ s.1.regs.a hsame
  refine ⟨?_, ?_, ?_, hmemory⟩
  · rw [hmemoryCell, hregs]
    show ((t.2.write cell (result _ (t.2.peek cell)).1).peek cell) = _
    rw [FlatMemory.peek_write, if_pos rfl, hoperand]
    exact hbyte
  · rw [hregsCell, hregs]
    exact hflags
  · rw [hregsCell]
    exact ha

/-! ## Main statement -/

/-- Shifts and rotations of numbers of any length are exact. A shift up of the low byte and
rotations of the others double the number, with the top bit in carry; a shift down of the high byte
and rotations of the others halve it, with the lowest bit in carry. Rotations up and then down
restore the bytes and the carry, and so do as many rounds of rotations up as the bytes have bits,
and one more for the carry. An operand in A gives the same byte and the same status as in a cell. -/
theorem multibyte_shifts :
    (∀ (cells : List UInt16) (s : Cpu × FlatMemory),
      CarriesOut (shifts .up cells) cells s → Doubles cells s (afterSteps cells.length s)) ∧
    (∀ (cells : List UInt16) (s : Cpu × FlatMemory),
      CarriesOut (shifts .down cells.reverse) cells s →
        Halves cells s (afterSteps cells.length s)) ∧
    (∀ (cells : List UInt16) (s : Cpu × FlatMemory),
      CarriesOut (rotations .up cells ++ rotations .down cells.reverse) cells s →
        Restores s (afterSteps (cells.length + cells.length) s)) ∧
    (∀ (cells : List UInt16) (s : Cpu × FlatMemory),
      CarriesOut (List.replicate (8 * cells.length + 1) (rotations .up cells)).flatten cells s →
        Restores s (afterSteps ((8 * cells.length + 1) * cells.length) s)) ∧
    (∀ (op : Op) (cell : UInt16) (s t : Cpu × FlatMemory), op ∈ Op.shifts →
      CarriesOutOnA op s → CarriesOut [(op, cell)] [cell] t → t.2.peek cell = s.1.regs.a →
        t.1.regs.status = s.1.regs.status →
          YieldsAlike cell s (afterSteps 1 s) t (afterSteps 1 t)) := by
  refine ⟨?_, ?_, ?_, ?_, ?_⟩
  · intro cells s h
    exact (moves_of_shifts h.complete h.nonempty h.nodup h.executes).doubles h.nonempty
  · intro cells s h
    have hnonempty : cells.reverse ≠ [] := mt List.reverse_eq_nil_iff.1 h.nonempty
    have hmoves := moves_of_shifts h.complete hnonempty (List.nodup_reverse.2 h.nodup) h.executes
    rw [List.length_reverse] at hmoves
    exact hmoves.halves
  · intro cells s h
    obtain ⟨hup, hrest⟩ := moves_of_rotations h.complete h.nodup h.executes
    rw [← List.append_nil (rotations .down cells.reverse)] at hrest
    obtain ⟨hdown, -⟩ := moves_of_rotations hup.complete (List.nodup_reverse.2 h.nodup) hrest
    rw [List.length_reverse] at hdown
    rw [afterSteps_add]
    exact hup.restores hdown
  · intro cells s h
    exact restores_of_rounds rfl h.complete h.nodup h.executes
  · intro op cell s t hop hA hcell hoperand hstatus
    exact yieldsAlike_of_mem_shifts hop hA hcell hoperand hstatus

/-- Memory with some code from the bottom on and the number `C081` at `60`. -/
def numberCode (code : List UInt8) : FlatMemory :=
  (FlatMemory.zero.storeAll ((List.range code.length).map UInt16.ofNat) code).storeAll
    [0x60, 0x61] [0x81, 0xC0]

/-- With the carry set, `C081` doubled is `8102` with a carry and halved is `6040` with a carry. The
carry comes back after a rotation up and down, and after 17 rounds. A rotation of `81` up gives `03`
in A and in a cell. -/
theorem multibyte_shifts_two_bytes :
    let cells : List UInt16 := [0x60, 0x61]
    let c : Cpu := { Cpu.powerOn with regs.status.carry := true }
    let doubling := (c, numberCode [0x06, 0x60, 0x26, 0x61])
    let halving := (c, numberCode [0x46, 0x61, 0x66, 0x60])
    let back := (c, numberCode [0x26, 0x60, 0x26, 0x61, 0x66, 0x61, 0x66, 0x60])
    let rounds := 8 * cells.length + 1
    let round := (c, numberCode (List.replicate rounds [0x26, 0x60, 0x26, 0x61]).flatten)
    let onA : Cpu × FlatMemory := ({ c with regs.a := 0x81 }, numberCode [0x2A])
    let onCell := (c, numberCode [0x26, 0x60])
    (CarriesOut (shifts .up cells) cells doubling ∧
      Doubles cells doubling (afterSteps cells.length doubling) ∧
      numberIn cells (afterSteps cells.length doubling).2 = 0x8102) ∧
    (CarriesOut (shifts .down cells.reverse) cells halving ∧
      Halves cells halving (afterSteps cells.length halving) ∧
      numberIn cells (afterSteps cells.length halving).2 = 0x6040) ∧
    (CarriesOut (rotations .up cells ++ rotations .down cells.reverse) cells back ∧
      Restores back (afterSteps (cells.length + cells.length) back)) ∧
    (CarriesOut (List.replicate rounds (rotations .up cells)).flatten cells round ∧
      Restores round (afterSteps (rounds * cells.length) round)) ∧
    (CarriesOutOnA .rol onA ∧ CarriesOut [(.rol, 0x60)] [0x60] onCell ∧
      YieldsAlike 0x60 onA (afterSteps 1 onA) onCell (afterSteps 1 onCell) ∧
      (afterSteps 1 onA).1.regs.a = 0x03) := by
  intro cells c doubling halving back rounds round onA onCell
  obtain ⟨hdoubles, hhalves, hback, hround, halike⟩ := multibyte_shifts
  have hdoubling : CarriesOut (shifts .up cells) cells doubling :=
    ⟨rfl, by decide, by decide, by decide +kernel⟩
  have hhalving : CarriesOut (shifts .down cells.reverse) cells halving :=
    ⟨rfl, by decide, by decide, by decide +kernel⟩
  have hthere : CarriesOut (rotations .up cells ++ rotations .down cells.reverse) cells back :=
    ⟨rfl, by decide, by decide, by decide +kernel⟩
  have hrounds : CarriesOut (List.replicate rounds (rotations .up cells)).flatten cells round :=
    ⟨rfl, by decide, by decide, by decide +kernel⟩
  have hA : CarriesOutOnA .rol onA := ⟨rfl, by decide +kernel, by decide +kernel⟩
  have hcell : CarriesOut [(.rol, 0x60)] [0x60] onCell :=
    ⟨rfl, by decide, by decide, by decide +kernel⟩
  have hoperand : onCell.2.peek 0x60 = onA.1.regs.a := by decide +kernel
  refine ⟨⟨hdoubling, hdoubles cells doubling hdoubling, by decide +kernel⟩,
    ⟨hhalving, hhalves cells halving hhalving, by decide +kernel⟩,
    ⟨hthere, hback cells back hthere⟩, ⟨hrounds, hround cells round hrounds⟩,
    ⟨hA, hcell, ?_, by decide +kernel⟩⟩
  exact halike .rol 0x60 onA onCell (by decide) hA hcell hoperand rfl

end NesMachine
