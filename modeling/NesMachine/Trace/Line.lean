import NesMachine.Cpu.Basic
import NesMachine.Disassembly

/-!
# Trace lines

A trace line shows the processor about to execute an instruction: the address and the bytes of the
instruction, its assembly, the registers and the total of cycles. Lines have fixed columns. The
assembly has a column of its own for the star of an undocumented instruction, so other instructions
are shifted by one blank.
-/

set_option autoImplicit false

namespace NesMachine

/-- The state of the processor between two instructions, as a trace shows it. -/
structure TraceLine where
  pc : UInt16
  bytes : List UInt8
  assembly : String
  a : UInt8
  x : UInt8
  y : UInt8
  p : UInt8
  sp : UInt8
  cycles : UInt64
  deriving DecidableEq

namespace TraceLine

/-- A line without content. -/
def blank : TraceLine :=
  ⟨0, [], "", 0, 0, 0, 0, 0, 0⟩

/-- Whether two lines agree on everything but the bytes and the assembly. -/
def sameState (s t : TraceLine) : Bool :=
  s.pc == t.pc && s.a == t.a && s.x == t.x && s.y == t.y && s.p == t.p && s.sp == t.sp &&
    s.cycles == t.cycles

/-- The bytes, two digits each, with a blank between them. -/
def bytesChars (t : TraceLine) : List Char :=
  [' '].intercalate (t.bytes.map Text.Hex.byte)

/-- The assembly behind the column of the star. -/
def assemblyChars (t : TraceLine) : List Char :=
  match t.assembly.toList with
  | '*' :: rest => '*' :: rest
  | text => ' ' :: text

/-- The line in its columns. -/
def chars (t : TraceLine) : List Char :=
  Text.Hex.ofWord t.pc ++ "  ".toList ++
  t.bytesChars.rightpad 8 ' ' ++ " ".toList ++
  t.assemblyChars.rightpad 33 ' ' ++
  "A:".toList ++ Text.Hex.byte t.a ++
  " X:".toList ++ Text.Hex.byte t.x ++
  " Y:".toList ++ Text.Hex.byte t.y ++
  " P:".toList ++ Text.Hex.byte t.p ++
  " SP:".toList ++ Text.Hex.byte t.sp ++
  " CYC:".toList ++ Nat.toDigits 10 t.cycles.toNat

/-- The line in its columns, as text. -/
def render (t : TraceLine) : String :=
  String.ofList t.chars

end TraceLine

/-- The trace line of a processor between two instructions, for a view of its memory. -/
def Cpu.traceLine (c : Cpu) (memory : UInt16 → UInt8) : TraceLine :=
  let d := decodeAt memory c.regs.pc
  { pc := c.regs.pc
    bytes := d.bytes
    assembly := d.assembly
    a := c.regs.a
    x := c.regs.x
    y := c.regs.y
    p := c.regs.status.toByte
    sp := c.regs.sp
    cycles := c.clockCount }

end NesMachine
