import NesMachine.Proofs.ByteNumber
import NesMachine.Proofs.Cpu.Cells

/-!
# Arithmetic on numbers of several bytes

Numbers of several bytes are added from the low byte up: each column of the sum loads a byte of one
number, adds the byte of the other and the carry, and stores the result. The carry flag takes the
carry from column to column, since loads and stores leave it alone, and the overflow flag of the
last column is that of the whole numbers (`Sums.cons`). Subtraction adds the complement, so one
induction over the columns (`exists_sums_of_executes`) serves both.

Adding and subtracting columns of any length is thereby exact, unsigned and signed, and a comparison
sets carry, zero and negative as the subtraction of one byte without a borrow does
(`multibyte_arithmetic`).
-/

set_option autoImplicit false

namespace NesMachine

/-! ## One byte -/

/-- The status after a sum of some bytes `xs` and `ys` with a carry: the bytes `zs` and the carry
are the sum, overflow tells whether the signed sum does not fit, and with the sign of the last byte
it tells whether the signed sum is negative. -/
structure Sums (xs ys : List UInt8) (carry : Bool) (zs : List UInt8) (s : Status) : Prop where
  length_eq : zs.length = xs.length
  value_eq : littleEndian zs + 256 ^ xs.length * s.carry.toNat =
    littleEndian xs + littleEndian ys + carry.toNat
  overflow_iff : s.overflow = true ↔
    ¬ FitsSigned xs.length (twosComplement xs + twosComplement ys + carry.toNat)
  negative_iff : (s.negative ^^ s.overflow) = true ↔
    twosComplement xs + twosComplement ys + carry.toNat < 0

namespace Registers

theorem toNat_carryByte (r : Registers) : r.carryByte.toNat = r.status.carry.toNat := by
  rw [carryByte]
  cases r.status.carry <;> rfl

/-- The sum of two bytes and the carry is a byte and a carry. -/
theorem toNat_adc (r : Registers) (m : UInt8) :
    (r.adc m).a.toNat + 256 * (r.adc m).status.carry.toNat =
      r.a.toNat + m.toNat + r.status.carry.toNat := by
  have ha := r.a.toNat_lt
  have hm := m.toNat_lt
  have hc := Bool.toNat_lt r.status.carry
  show (UInt8.ofNat (r.a.toNat + m.toNat + r.carryByte.toNat)).toNat +
    256 * (decide (0xFF < r.a.toNat + m.toNat + r.carryByte.toNat)).toNat = _
  rw [toNat_carryByte, UInt8.toNat_ofNat']
  -- Below 512 the carry out of the byte is one bit.
  have hsum : r.a.toNat + m.toNat + r.status.carry.toNat < 512 := by omega
  generalize r.a.toNat + m.toNat + r.status.carry.toNat = sum at *
  rcases Nat.lt_or_ge 0xFF sum with hlt | hge
  · rw [decide_eq_true hlt, Bool.toNat_true]
    omega
  · rw [decide_eq_false (Nat.not_lt.2 hge), Bool.toNat_false]
    omega

/-- One byte is added exactly, unsigned and signed. -/
theorem sums_adc (r : Registers) (m : UInt8) :
    Sums [r.a] [m] r.status.carry [(r.adc m).a] (r.adc m).status := by
  have hsum := r.toNat_adc m
  have ha := r.a.toNat_lt
  have hm := m.toNat_lt
  have hc := Bool.toNat_lt r.status.carry
  have hresult := (r.adc m).a.toNat_lt
  have hoverflow : (r.adc m).status.overflow =
      (signBit r.a == signBit m && signBit (r.adc m).a != signBit r.a) := rfl
  have hnegative : (r.adc m).status.negative = signBit (r.adc m).a := rfl
  have hvalue : littleEndian [(r.adc m).a] + 256 ^ 1 * (r.adc m).status.carry.toNat =
      littleEndian [r.a] + littleEndian [m] + r.status.carry.toNat := by
    have hnil : littleEndian [] = 0 := rfl
    simp only [littleEndian_cons, hnil]
    omega
  have hsigned : ((r.adc m).status.overflow = true ↔ ¬ FitsSigned 1
        (twosComplement [r.a] + twosComplement [m] + r.status.carry.toNat)) ∧
      (((r.adc m).status.negative ^^ (r.adc m).status.overflow) = true ↔
        twosComplement [r.a] + twosComplement [m] + r.status.carry.toNat < 0) := by
    rw [hoverflow, hnegative, twosComplement_singleton, twosComplement_singleton,
      fitsSigned_one_iff]
    -- The signs of the operands and of the result decide, and bound the bytes that have them.
    cases hx : signBit r.a <;> cases hy : signBit m <;> cases hz : signBit (r.adc m).a <;>
      simp only [signBit_eq_true_iff, signBit_eq_false_iff] at hx hy hz <;>
      constructor <;> simp <;> omega
  exact ⟨rfl, hvalue, hsigned.1, hsigned.2⟩

end Registers

variable {xs ys zs : List UInt8} {s : Status}

/-- A column in front of others carries into them, and leaves it to them whether the signed sum fits
and whether it is negative. -/
theorem Sums.cons {x y z : UInt8} {carry middle : Bool} (hxs : xs ≠ []) (hys : ys ≠ [])
    (hcolumn : z.toNat + 256 * middle.toNat = x.toNat + y.toNat + carry.toNat)
    (h : Sums xs ys middle zs s) : Sums (x :: xs) (y :: ys) carry (z :: zs) s := by
  have hz := z.toNat_lt
  -- Both numbers are their low byte and 256 times the others, and so is the sum.
  have hsigned : twosComplement (x :: xs) + twosComplement (y :: ys) + (carry.toNat : Int) =
      z.toNat + 256 * (twosComplement xs + twosComplement ys + middle.toNat) := by
    rw [twosComplement_cons x hxs, twosComplement_cons y hys]
    omega
  refine ⟨congrArg (· + 1) h.length_eq, ?_, ?_, ?_⟩
  · have hvalue := h.value_eq
    rw [littleEndian_cons, littleEndian_cons, littleEndian_cons, List.length_cons, Nat.pow_succ,
      Nat.mul_right_comm]
    omega
  · rw [hsigned, List.length_cons, fitsSigned_add_iff (List.length_pos_iff.2 hxs) hz]
    exact h.overflow_iff
  · rw [hsigned, add_neg_iff hz]
    exact h.negative_iff

/-- The bytes of a sum are the sum modulo the power of the base. -/
theorem Sums.littleEndian_eq {carry : Bool} (h : Sums xs ys carry zs s) :
    (littleEndian zs : Int) =
      ((littleEndian xs + littleEndian ys + carry.toNat : Nat) : Int) % 256 ^ xs.length := by
  have hlt := littleEndian_lt zs
  rw [h.length_eq] at hlt
  rw [← h.value_eq]
  have hmod : (littleEndian zs + 256 ^ xs.length * s.carry.toNat) % 256 ^ xs.length =
      littleEndian zs := by
    rw [Nat.add_mul_mod_self_left, Nat.mod_eq_of_lt hlt]
  exact_mod_cast hmod.symm

/-- Carry tells whether a sum reaches the power of the base. -/
theorem Sums.carry_iff {carry : Bool} (h : Sums xs ys carry zs s) :
    s.carry = true ↔ 256 ^ xs.length ≤ littleEndian xs + littleEndian ys + carry.toNat := by
  have hlt := littleEndian_lt zs
  rw [h.length_eq] at hlt
  rw [← h.value_eq]
  cases s.carry with
  | false => simpa using hlt
  | true => simp

/-! ## Columns of cells -/

/-- The cells of one byte of the two operands and of the result. -/
structure Column where
  left : UInt16
  right : UInt16
  result : UInt16

/-- The operations that combine two numbers column by column, and the cells of their operands. -/
def columnwise (op : Op) (columns : List Column) : List (Op × UInt16) :=
  columns.flatMap fun k => [(.lda, k.left), (op, k.right), (.sta, k.result)]

/-- No result is stored in a cell that is still to be read. -/
def ColumnsApart (columns : List Column) : Prop :=
  columns.Pairwise fun earlier later =>
    earlier.result ≠ later.left ∧ earlier.result ≠ later.right

instance (columns : List Column) : Decidable (ColumnsApart columns) :=
  inferInstanceAs (Decidable (columns.Pairwise _))

/-- At a boundary, the next instructions combine two numbers column by column. -/
structure Chained (op : Op) (columns : List Column) (s : Cpu × FlatMemory) : Prop where
  complete : s.1.complete = true
  nonempty : columns ≠ []
  apart : ColumnsApart columns
  executes : Executes (columnwise op columns) s

/-- The processor and its memory behind the last column. -/
def behindColumns (columns : List Column) (s : Cpu × FlatMemory) : Cpu × FlatMemory :=
  afterSteps (3 * columns.length) s

section Running

variable {op : Op} {s : Cpu × FlatMemory}

/-- One column: the byte of one number and what `operand` makes of that of the other are added, and
the sum is stored. -/
theorem run_column (operand : UInt8 → UInt8)
    (haction : op.action = .load fun r value => r.adc (operand value)) {k : Column}
    {rest : List (Op × UInt16)} (hc : s.1.complete = true)
    (hexecutes : Executes ((.lda, k.left) :: (op, k.right) :: (.sta, k.result) :: rest) s) :
    let sum := (s.1.regs.setA (s.2.peek k.left)).adc (operand (s.2.peek k.right))
    let after := afterSteps 3 s
    after.1.complete = true ∧ after.1.regs.status = { sum.status with unused := true } ∧
      after.2 = s.2.write k.result sum.a ∧ Executes rest after := by
  intro sum after
  obtain ⟨hload, hleft, hadd, hright, hstore, hresult, hrest⟩ := hexecutes
  have huses : op.action.usesOperand = true := by
    rw [haction]
    rfl
  have hafter : after = CpuCall.step.after (CpuCall.step.after (CpuCall.step.after s)) := by
    show afterSteps 3 s = _
    rw [afterSteps_succ, afterSteps_succ, afterSteps_succ, afterSteps_zero]
  clear_value after
  -- Each state in between gets a name, so that nothing later unfolds a step.
  have hloaded := Cpu.step_onCell hc hload hleft rfl
  generalize CpuCall.step.after s = loaded at *
  obtain ⟨hc₁, hregs₁, hmemory₁⟩ := hloaded
  have hadded := Cpu.step_onCell hc₁ hadd hright huses
  generalize CpuCall.step.after loaded = added at *
  obtain ⟨hc₂, hregs₂, hmemory₂⟩ := hadded
  have hstored := Cpu.step_onCell hc₂ hstore hresult rfl
  rw [← hafter] at hstored hrest
  obtain ⟨hc₃, hregs₃, hmemory₃⟩ := hstored
  -- Loads and stores leave the status and A as the addition needs and leaves them.
  have hsum : ∃ pc, added.1.regs = { sum with pc, status.unused := true } := by
    rw [hregs₂, haction, hmemory₁]
    show ∃ pc, (Cpu.operandFound loaded.1.regs _).adc _ = _
    rw [hregs₁]
    exact ⟨_, rfl⟩
  obtain ⟨pc, hsum⟩ := hsum
  refine ⟨hc₃, ?_, ?_, hrest⟩
  · rw [hregs₃, hsum]
    rfl
  · have hmemory : added.2 = s.2 := by
      rw [hmemory₂, haction, hmemory₁]
      rfl
    rw [hmemory₃, hmemory, hsum]
    rfl

theorem Sums.withUnused {xs ys zs : List UInt8} {carry : Bool} {flags : Status}
    (h : Sums xs ys carry zs flags) : Sums xs ys carry zs { flags with unused := true } :=
  ⟨h.length_eq, h.value_eq, h.overflow_iff, h.negative_iff⟩

theorem behindColumns_cons (k : Column) (rest : List Column) (s : Cpu × FlatMemory) :
    behindColumns (k :: rest) s = behindColumns rest (afterSteps 3 s) := by
  rw [behindColumns, List.length_cons, Nat.mul_succ, Nat.add_comm, afterSteps_add]
  rfl

theorem behindColumns_nil (s : Cpu × FlatMemory) : behindColumns [] s = s := rfl

/-- By induction on the columns, the code adds the two numbers, and stores the bytes of the sum. -/
theorem exists_sums_of_executes (operand : UInt8 → UInt8)
    (haction : op.action = .load fun r value => r.adc (operand value)) {columns : List Column}
    (hc : s.1.complete = true) (hapart : ColumnsApart columns)
    (hexecutes : Executes (columnwise op columns) s) :
    let last := behindColumns columns s
    ∃ zs, zs.length = columns.length ∧ last.2 = s.2.storeAll (columns.map Column.result) zs ∧
      (columns ≠ [] → Sums (columns.map fun k => s.2.peek k.left)
        (columns.map fun k => operand (s.2.peek k.right)) s.1.regs.status.carry zs
        last.1.regs.status) := by
  induction columns generalizing s with
  | nil => exact ⟨[], rfl, rfl, fun hne => absurd rfl hne⟩
  | cons k rest ih =>
    obtain ⟨hfirst, hapart⟩ := List.pairwise_cons.1 hapart
    obtain ⟨hc₁, hstatus, hmemory, hrest⟩ := run_column operand haction hc hexecutes
    rw [behindColumns_cons]
    generalize afterSteps 3 s = after at *
    obtain ⟨zs, hlength, hstored, hsums⟩ := ih hc₁ hapart hrest
    let sum := (s.1.regs.setA (s.2.peek k.left)).adc (operand (s.2.peek k.right))
    have hone : Sums [s.2.peek k.left] [operand (s.2.peek k.right)] s.1.regs.status.carry [sum.a]
        after.1.regs.status := by
      rw [hstatus]
      exact ((s.1.regs.setA (s.2.peek k.left)).sums_adc _).withUnused
    -- What the first column stores is not read by the others.
    have hlefts : rest.map (fun k => after.2.peek k.left) = rest.map fun k => s.2.peek k.left := by
      refine List.map_congr_left fun later hlater => ?_
      rw [hmemory, FlatMemory.peek_write, if_neg (hfirst later hlater).1.symm]
    have hrights : rest.map (fun k => operand (after.2.peek k.right)) =
        rest.map fun k => operand (s.2.peek k.right) := by
      refine List.map_congr_left fun later hlater => ?_
      rw [hmemory, FlatMemory.peek_write, if_neg (hfirst later hlater).2.symm]
    refine ⟨sum.a :: zs, congrArg (· + 1) hlength, ?_, fun _ => ?_⟩
    · rw [hstored, hmemory]
      rfl
    · rcases eq_or_ne rest [] with rfl | hne
      · obtain rfl := List.length_eq_zero_iff.1 hlength
        rw [behindColumns_nil]
        exact hone
      · have hmore := hsums hne
        rw [hlefts, hrights, hstatus] at hmore
        exact hmore.cons (fun hnil => hne (List.map_eq_nil_iff.1 hnil))
          (fun hnil => hne (List.map_eq_nil_iff.1 hnil)) (Registers.toNat_adc _ _)

end Running

/-! ## Exactness -/

section Exactness

variable (columns : List Column) (s : Cpu × FlatMemory)

/-- The bytes of the left operand. -/
def leftBytes : List UInt8 :=
  columns.map fun k => s.2.peek k.left

/-- The bytes of the right operand. -/
def rightBytes : List UInt8 :=
  columns.map fun k => s.2.peek k.right

/-- The carry as an integer. -/
def carryIn : Int :=
  s.1.regs.status.carry.toNat

/-- The status behind the last column. -/
def statusBehind : Status :=
  (behindColumns columns s).1.regs.status

/-- The code stores the bytes of a number in the cells of the result, one after the other, and
changes no other cell. If the cells are distinct, the number is there in the end. -/
def StoresNumber (number : Int) : Prop :=
  ∃ zs : List UInt8, zs.length = columns.length ∧ (littleEndian zs : Int) = number ∧
    (behindColumns columns s).2 = s.2.storeAll (columns.map Column.result) zs ∧
    ((columns.map Column.result).Nodup →
      (columns.map fun k => (behindColumns columns s).2.peek k.result) = zs)

/-- Numbers are added exactly. -/
structure AddsExactly : Prop where
  stores : StoresNumber columns s
    ((littleEndian (leftBytes columns s) + littleEndian (rightBytes columns s) + carryIn s) %
      256 ^ columns.length)
  carry_iff : (statusBehind columns s).carry = true ↔ 256 ^ columns.length ≤
    littleEndian (leftBytes columns s) + littleEndian (rightBytes columns s) + carryIn s
  overflow_iff : (statusBehind columns s).overflow = true ↔ ¬ FitsSigned columns.length
    (twosComplement (leftBytes columns s) + twosComplement (rightBytes columns s) + carryIn s)

/-- Numbers are subtracted exactly. The borrow is the complement of the carry. -/
structure SubtractsExactly : Prop where
  stores : StoresNumber columns s
    ((littleEndian (leftBytes columns s) - littleEndian (rightBytes columns s) - (1 - carryIn s)) %
      256 ^ columns.length)
  carry_iff : (statusBehind columns s).carry = true ↔
    littleEndian (rightBytes columns s) + (1 - carryIn s) ≤ littleEndian (leftBytes columns s)
  overflow_iff : (statusBehind columns s).overflow = true ↔ ¬ FitsSigned columns.length
    (twosComplement (leftBytes columns s) - twosComplement (rightBytes columns s) -
      (1 - carryIn s))
  negative_iff : ((statusBehind columns s).negative ^^ (statusBehind columns s).overflow) = true ↔
    twosComplement (leftBytes columns s) - twosComplement (rightBytes columns s) -
      (1 - carryIn s) < 0

end Exactness

variable {columns : List Column} {s : Cpu × FlatMemory}

/-- The bytes that the code stores are a number that it stores. -/
theorem storesNumber_of_storeAll {zs : List UInt8} (hlength : zs.length = columns.length)
    (hstored : (behindColumns columns s).2 = s.2.storeAll (columns.map Column.result) zs) :
    StoresNumber columns s (littleEndian zs) := by
  refine ⟨zs, hlength, rfl, hstored, fun hcells => ?_⟩
  rw [hstored]
  have hcount : zs.length = (columns.map Column.result).length := by rw [hlength, List.length_map]
  have hread := s.2.map_peek_storeAll hcount hcells
  rwa [List.map_map] at hread

theorem adds_exactly (h : Chained .adc columns s) : AddsExactly columns s := by
  obtain ⟨zs, hlength, hstored, hsums⟩ :=
    exists_sums_of_executes id rfl h.complete h.apart h.executes
  have hstores := storesNumber_of_storeAll hlength hstored
  have hsum : Sums (leftBytes columns s) (rightBytes columns s) s.1.regs.status.carry zs
      (statusBehind columns s) := hsums h.nonempty
  have hcount : (leftBytes columns s).length = columns.length := List.length_map ..
  have hvalue := hsum.littleEndian_eq
  have hcarry := hsum.carry_iff
  have hoverflow := hsum.overflow_iff
  rw [hcount] at hvalue hcarry hoverflow
  refine ⟨?_, ?_, hoverflow⟩
  · rw [hvalue] at hstores
    exact_mod_cast hstores
  · rw [hcarry, carryIn]
    exact_mod_cast Iff.rfl

/-- The complement of the bytes turns the subtraction into an addition. -/
theorem subtracts_exactly (h : Chained .sbc columns s) : SubtractsExactly columns s := by
  obtain ⟨zs, hlength, hstored, hsums⟩ :=
    exists_sums_of_executes (~~~·) rfl h.complete h.apart h.executes
  have hstores := storesNumber_of_storeAll hlength hstored
  -- Each column complements its own byte; together they add the complement of the number.
  have hcomplement : columns.map (fun k => ~~~(s.2.peek k.right)) =
      (rightBytes columns s).map (~~~·) := by
    rw [rightBytes, List.map_map]
    rfl
  have hsum : Sums (leftBytes columns s) ((rightBytes columns s).map (~~~·))
      s.1.regs.status.carry zs (statusBehind columns s) := hcomplement ▸ hsums h.nonempty
  have hcount : (leftBytes columns s).length = columns.length := List.length_map ..
  have hright : (rightBytes columns s).length = columns.length := List.length_map ..
  have hne : rightBytes columns s ≠ [] := fun hnil =>
    h.nonempty (List.map_eq_nil_iff.1 hnil)
  have hunsigned := littleEndian_complement (rightBytes columns s)
  rw [hright] at hunsigned
  have hsigned : twosComplement (leftBytes columns s) +
      twosComplement ((rightBytes columns s).map (~~~·)) + s.1.regs.status.carry.toNat =
      twosComplement (leftBytes columns s) - twosComplement (rightBytes columns s) -
        (1 - carryIn s) := by
    rw [twosComplement_complement hne, carryIn]
    omega
  have hvalue := hsum.littleEndian_eq
  have hcarry := hsum.carry_iff
  have hoverflow := hsum.overflow_iff
  have hnegative := hsum.negative_iff
  rw [hcount] at hvalue hcarry hoverflow
  rw [hsigned] at hoverflow hnegative
  -- The sum with the complement is the difference, one power of the base higher.
  have hshifted : ((littleEndian (leftBytes columns s) +
      littleEndian ((rightBytes columns s).map (~~~·)) + s.1.regs.status.carry.toNat : Nat) : Int) =
      littleEndian (leftBytes columns s) - littleEndian (rightBytes columns s) - (1 - carryIn s) +
        256 ^ columns.length := by
    have hcast : ((256 ^ columns.length : Nat) : Int) = 256 ^ columns.length := by push_cast; rfl
    rw [carryIn, ← hcast]
    omega
  refine ⟨?_, ?_, hoverflow, hnegative⟩
  · rw [hvalue, hshifted, Int.add_emod_right] at hstores
    exact hstores
  · rw [hcarry, carryIn]
    omega

/-! ## Comparisons -/

/-- The register that an operation compares with its operand. -/
def Op.comparedRegister? : Op → Option (Registers → UInt8)
  | .cmp => some Registers.a
  | .cpx => some Registers.x
  | .cpy => some Registers.y
  | _ => none

/-- At a boundary, the next instruction compares a register with the byte in a cell. -/
structure Compares (op : Op) (register : Registers → UInt8) (cell : UInt16)
    (t : Cpu × FlatMemory) : Prop where
  register_eq : op.comparedRegister? = some register
  complete : t.1.complete = true
  executes : Executes [(op, cell)] t

/-- A comparison leaves the registers, the overflow flag and the memory. It sets carry, zero and
negative as the subtraction of one byte does that has equal operands and no borrow. -/
structure ComparesExactly (register : Registers → UInt8) (cell : UInt16)
    (t : Cpu × FlatMemory) : Prop where
  a_eq : (afterSteps 1 t).1.regs.a = t.1.regs.a
  x_eq : (afterSteps 1 t).1.regs.x = t.1.regs.x
  y_eq : (afterSteps 1 t).1.regs.y = t.1.regs.y
  overflow_eq : (afterSteps 1 t).1.regs.status.overflow = t.1.regs.status.overflow
  memory_eq : (afterSteps 1 t).2 = t.2
  alike : ∀ (k : Column) (s : Cpu × FlatMemory), Chained .sbc [k] s → carryIn s = 1 →
    s.2.peek k.left = register t.1.regs → s.2.peek k.right = t.2.peek cell →
      (afterSteps 1 t).1.regs.status.carry = (statusBehind [k] s).carry ∧
        (afterSteps 1 t).1.regs.status.zero = (statusBehind [k] s).zero ∧
        (afterSteps 1 t).1.regs.status.negative = (statusBehind [k] s).negative

/-- A subtraction of one byte without a borrow sets carry as a comparison does, and its result is
the difference. -/
theorem Registers.sbc_eq_of_carry {r : Registers} (hcarry : r.status.carry = true) (m : UInt8) :
    (r.sbc m).status.carry = decide (m ≤ r.a) ∧ (r.sbc m).a = r.a - m := by
  -- With the carry, adding the complement adds `256 - m`.
  have hsum := r.toNat_adc (~~~m)
  rw [toNat_complement, hcarry, Bool.toNat_true] at hsum
  have ha := r.a.toNat_lt
  have hm := m.toNat_lt
  have hresult := (r.adc (~~~m)).a.toNat_lt
  rw [sbc]
  constructor
  · rw [Bool.eq_iff_iff, decide_eq_true_eq, UInt8.le_iff_toNat_le]
    cases hout : (r.adc (~~~m)).status.carry with
    | false =>
      rw [hout, Bool.toNat_false] at hsum
      simp
      omega
    | true =>
      rw [hout, Bool.toNat_true] at hsum
      simp
      omega
  · apply UInt8.toNat_inj.1
    rw [UInt8.toNat_sub]
    omega

/-- A subtraction of one byte without a borrow leaves the flags of a comparison. -/
theorem statusBehind_of_single {k : Column} (h : Chained .sbc [k] s) (hcarry : carryIn s = 1) :
    let difference := s.2.peek k.left - s.2.peek k.right
    (statusBehind [k] s).carry = decide (s.2.peek k.right ≤ s.2.peek k.left) ∧
      (statusBehind [k] s).zero = (difference == 0) ∧
      (statusBehind [k] s).negative = signBit difference := by
  have hset : s.1.regs.status.carry = true := by
    cases hc : s.1.regs.status.carry with
    | false =>
      rw [carryIn, hc] at hcarry
      cases hcarry
    | true => rfl
  obtain ⟨-, hstatus, -⟩ := run_column (~~~·) rfl h.complete h.executes
  obtain ⟨hout, hresult⟩ := Registers.sbc_eq_of_carry (r := s.1.regs.setA (s.2.peek k.left)) hset
    (s.2.peek k.right)
  rw [statusBehind, behindColumns_cons, behindColumns_nil, hstatus]
  refine ⟨hout, ?_, ?_⟩
  · exact congrArg (· == 0) hresult
  · exact congrArg signBit hresult

namespace Op

variable {op : Op} {register : Registers → UInt8}

theorem action_of_comparedRegister? (h : op.comparedRegister? = some register) :
    op.action = .load fun r m => r.compare (register r) m := by
  cases op with
  | cmp | cpx | cpy =>
    cases h
    rfl
  | _ => cases h

/-- Finding the operand leaves the register that is compared. -/
theorem register_operandFound (h : op.comparedRegister? = some register) (r : Registers)
    (mode : AddressingMode) : register (Cpu.operandFound r mode) = register r := by
  cases op with
  | cmp | cpx | cpy =>
    cases h
    rfl
  | _ => cases h

end Op

theorem compares_exactly {op : Op} {register : Registers → UInt8} {cell : UInt16}
    {t : Cpu × FlatMemory} (h : Compares op register cell t) : ComparesExactly register cell t := by
  have haction := Op.action_of_comparedRegister? h.register_eq
  have huses : op.action.usesOperand = true := by
    rw [haction]
    rfl
  obtain ⟨hop, hcell, -⟩ := h.executes
  have hafter : afterSteps 1 t = CpuCall.step.after t := by rw [afterSteps_succ, afterSteps_zero]
  obtain ⟨-, hregs, hmemory⟩ := Cpu.step_onCell h.complete hop hcell huses
  rw [← hafter, haction] at hregs hmemory
  have hcompared : (afterSteps 1 t).1.regs =
      (Cpu.operandFound t.1.regs (t.1.nextInstruction t.2).mode).compare (register t.1.regs)
        (t.2.peek cell) := by
    rw [hregs]
    exact congrArg (Registers.compare _ · _) (Op.register_operandFound h.register_eq ..)
  refine ⟨?_, ?_, ?_, ?_, hmemory, fun k s hchained hcarry hleft hright => ?_⟩
  · rw [hcompared]
    rfl
  · rw [hcompared]
    rfl
  · rw [hcompared]
    rfl
  · rw [hcompared]
    rfl
  · obtain ⟨hout, hzero, hnegative⟩ := statusBehind_of_single hchained hcarry
    rw [hcompared, hout, hzero, hnegative, hleft, hright]
    exact ⟨rfl, rfl, rfl⟩

/-- Arithmetic on numbers of any length is exact. Code that adds or subtracts them column by column
stores the sum or the difference with the carry modulo the power of the base; carry tells whether
the unsigned result leaves the range, overflow whether the signed one does, and negative differs
from overflow exactly if the signed difference is negative. A comparison sets carry, zero and
negative as the subtraction of one byte without a borrow, and leaves the registers and overflow. -/
theorem multibyte_arithmetic :
    (∀ (columns : List Column) (s : Cpu × FlatMemory),
      Chained .adc columns s → AddsExactly columns s) ∧
    (∀ (columns : List Column) (s : Cpu × FlatMemory),
      Chained .sbc columns s → SubtractsExactly columns s) ∧
    (∀ (op : Op) (register : Registers → UInt8) (cell : UInt16) (t : Cpu × FlatMemory),
      Compares op register cell t → ComparesExactly register cell t) :=
  ⟨fun _ _ => adds_exactly, fun _ _ => subtracts_exactly, fun _ _ _ _ => compares_exactly⟩

/-- Memory with the code that combines two numbers of two bytes at `20` and `22` into the one at
`24` by the operation of an opcode. The numbers are `80FF` and `0301`. -/
def twoByteCode (opcode : UInt8) : FlatMemory :=
  let code : List UInt8 :=
    [0xA5, 0x20, opcode, 0x22, 0x85, 0x24, 0xA5, 0x21, opcode, 0x23, 0x85, 0x25]
  (FlatMemory.zero.storeAll ((List.range code.length).map UInt16.ofNat) code).storeAll
    [0x20, 0x21, 0x22, 0x23] [0xFF, 0x80, 0x01, 0x03]

/-- With decimal set, the sum of `80FF` and `0301` with a carry is `8401`, and their difference
without a borrow is `7DFE`. -/
theorem multibyte_arithmetic_two_bytes :
    let columns : List Column := [⟨0x20, 0x22, 0x24⟩, ⟨0x21, 0x23, 0x25⟩]
    let c : Cpu := { Cpu.powerOn with regs.status.carry := true, regs.status.decimal := true }
    let compared : Cpu := { c with regs.a := 0xFF, regs.pc := 2 }
    let results (s : Cpu × FlatMemory) :=
      columns.map fun k => (behindColumns columns s).2.peek k.result
    Chained .adc columns (c, twoByteCode 0x65) ∧ AddsExactly columns (c, twoByteCode 0x65) ∧
      results (c, twoByteCode 0x65) = [0x01, 0x84] ∧
      Chained .sbc columns (c, twoByteCode 0xE5) ∧
      SubtractsExactly columns (c, twoByteCode 0xE5) ∧
      results (c, twoByteCode 0xE5) = [0xFE, 0x7D] ∧
      Compares .cmp Registers.a 0x22 (compared, twoByteCode 0xC5) ∧
      ComparesExactly Registers.a 0x22 (compared, twoByteCode 0xC5) := by
  intro columns c compared results
  obtain ⟨hadds, hsubtracts, hcompares⟩ := multibyte_arithmetic
  have hadc : Chained .adc columns (c, twoByteCode 0x65) :=
    ⟨rfl, by decide, by decide, by decide +kernel⟩
  have hsbc : Chained .sbc columns (c, twoByteCode 0xE5) :=
    ⟨rfl, by decide, by decide, by decide +kernel⟩
  have hcmp : Compares .cmp Registers.a 0x22 (compared, twoByteCode 0xC5) :=
    ⟨rfl, rfl, by decide +kernel⟩
  exact ⟨hadc, hadds _ _ hadc, by decide +kernel, hsbc, hsubtracts _ _ hsbc, by decide +kernel,
    hcmp, hcompares _ _ _ _ hcmp⟩

end NesMachine
