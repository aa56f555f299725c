import NesMachine.Text.Blank
import NesMachine.Text.ByteColumn
import NesMachine.Text.Numeral
import NesMachine.Trace.Line

/-!
# Reading trace lines

A reference log holds lines of the layout of `TraceLine.render`, possibly with further columns. The
address, the bytes and the assembly are found by their place in the line; the registers and the
cycles are found by their key, `A:` to `CYC:`, anywhere in the line. A line is read only if it
carries six such entries, counted in a byte, each with a value that fits.
-/

set_option autoImplicit false

namespace NesMachine

/-- An entry of a trace line that is found by its key. -/
inductive TraceKey where
  | a | x | y | p | sp | cycles
  deriving DecidableEq

namespace TraceKey

/-- The entry that a key names. -/
def ofChars? : List Char → Option TraceKey
  | ['A'] => some .a
  | ['X'] => some .x
  | ['Y'] => some .y
  | ['P'] => some .p
  | ['S', 'P'] => some .sp
  | ['C', 'Y', 'C'] => some .cycles
  | _ => none

end TraceKey

namespace TraceLine

/-- A hexadecimal numeral for a byte. -/
def readHexByte? (text : List Char) : Option UInt8 :=
  (Text.readNumeral 16 0xFF text).toOption.map UInt8.ofNat

/-- A hexadecimal numeral for a word. -/
def readHexWord? (text : List Char) : Option UInt16 :=
  (Text.readNumeral 16 0xFFFF text).toOption.map UInt16.ofNat

/-- A decimal numeral for a total of cycles. -/
def readCycles? (text : List Char) : Option UInt64 :=
  (Text.readNumeral 10 0xFFFFFFFFFFFFFFFF text).toOption.map UInt64.ofNat

/-- Put the value of an entry into its place. -/
def setEntry? (t : TraceLine) (value : List Char) : TraceKey → Option TraceLine
  | .a => (readHexByte? value).map fun v => { t with a := v }
  | .x => (readHexByte? value).map fun v => { t with x := v }
  | .y => (readHexByte? value).map fun v => { t with y := v }
  | .p => (readHexByte? value).map fun v => { t with p := v }
  | .sp => (readHexByte? value).map fun v => { t with sp := v }
  | .cycles => (readCycles? value).map fun v => { t with cycles := v }

/-- Read the entries in some words into a line, and count them in a byte, so that 256 entries count as
none. A word is an entry if it has a colon and the text before the first colon is a key; other words
are passed over. -/
def readEntries? (t : TraceLine) (count : UInt8) : List (List Char) → Option (TraceLine × UInt8)
  | [] => some (t, count)
  | token :: rest =>
      match token.span (· ≠ ':') with
      | (_, []) => readEntries? t count rest
      | (key, _ :: value) =>
          match TraceKey.ofChars? key with
          | none => readEntries? t count rest
          | some entry =>
              match t.setEntry? value entry with
              | none => none
              | some t => readEntries? t (count + 1) rest

/-- Read a line given by its characters. -/
def ofChars? (text : List Char) : Option TraceLine := do
  let pc ← readHexWord? (← Text.column 0 4 text)
  let bytes ← (Text.words (← Text.column 6 14 text)).mapM readHexByte?
  let assembly := Text.trim ((Text.column 15 48 text).getD [])
  let start := { blank with pc, bytes, assembly := String.ofList assembly }
  let (t, count) ← start.readEntries? 0 (Text.words text)
  if count = 6 then some t else none

/-- Read a line. -/
def read? (text : String) : Option TraceLine :=
  ofChars? text.toList

end TraceLine

end NesMachine
