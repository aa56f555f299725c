import NesMachine.FileTree
import NesMachine.Listing
import NesMachine.Text.Address
import NesMachine.Trace.Run

/-!
# The command line

Two commands: `trace` runs a cartridge and writes its trace, `disasm` writes a listing. The command
line is read from left to right, and the first thing that is wrong decides the outcome: what is no
command line ends with exit code 2 and the usage, what cannot be read or fails with exit code 1 and
a report. Files are read through a function of the caller, the cartridge's before the options.
-/

set_option autoImplicit false

namespace NesMachine.CommandLine

/-- What the program leaves: its exit code and what it wrote. -/
structure Output where
  exitCode : UInt32
  stdout : String
  stderr : String
  deriving DecidableEq

/-- The usage of the program. -/
def usage : String :=
  "Usage:
  retroboy trace <rom.nes> [--entry ADDR] [--cycles N] [--status P] [--count N]
                           [--compare LOG] [--stop-on-jam]
  retroboy disasm <rom.nes> <start> <end>

Addresses and P are hex (C000, 0xC000 or $C000).
Example (nestest automation mode):
  retroboy trace nestest.nes --entry C000 --status 24 --compare nestest.log"

/-- Why nothing is run. -/
inductive Refusal where
  /-- The arguments are no command line. -/
  | misuse (message : String)
  /-- Something that they name is wrong. -/
  | failure (report : Report)
  deriving DecidableEq

/-- What the program leaves when nothing is run. -/
def Refusal.output : Refusal → Output
  | .misuse message => ⟨2, "", message ++ "\n\n" ++ usage ++ "\n"⟩
  | .failure report => ⟨1, "", report.page⟩

/-- What to run. -/
inductive Command where
  | trace (image : Array UInt8) (settings : TraceSettings)
  | disasm (image : Array UInt8) (first last : UInt16)

section Reading

variable {m : Type → Type} [Monad m] (readFile : String → m (Except FileError ByteArray))

/-- Read a cartridge image. -/
def readImage (path : String) : m (Except Refusal (Array UInt8)) := do
  match ← readFile path with
  | .ok bytes => return .ok bytes.data
  | .error error =>
      return .error (.failure ⟨"failed to read ROM file '" ++ path ++ "'", some error.message⟩)

/-- Read a reference log, which has to be UTF-8. -/
def readLog (path : String) : m (Except Refusal String) := do
  let failed := fun cause =>
    Refusal.failure ⟨"failed to read reference log '" ++ path ++ "'", some cause⟩
  match ← readFile path with
  | .error error => return .error (failed error.message)
  | .ok bytes =>
      match String.fromUTF8? bytes with
      | none => return .error (failed "stream did not contain valid UTF-8")
      | some text => return .ok text

/-- Read a count of at most 64 bits. -/
def readCount (what text : String) : Except Refusal Nat :=
  match Text.readNumeral 10 0xFFFFFFFFFFFFFFFF text.toList with
  | .ok n => .ok n
  | .error cause =>
      .error (.failure ⟨"invalid " ++ what ++ " '" ++ text ++ "'", some cause.message⟩)

/-- Apply an option with a value to some settings. -/
def applyOption (s : TraceSettings) (option value : String) : m (Except Refusal TraceSettings) := do
  match option with
  | "--entry" =>
      match Text.readAddress value with
      | .ok entry => return .ok { s with entry := some entry }
      | .error error => return .error (.failure error.report)
  | "--status" =>
      match Text.readByte value with
      | .ok status => return .ok { s with status := some status }
      | .error error => return .error (.failure error.report)
  | "--cycles" =>
      return (readCount "cycle count" value).map fun n => { s with startCycles := UInt64.ofNat n }
  | "--count" =>
      return (readCount "instruction count" value).map fun n => { s with instructions := n }
  | "--compare" => return (← readLog readFile value).map fun log => { s with reference := some log }
  | other => return .error (.misuse ("unknown option '" ++ other ++ "'"))

/-- Apply options from left to right. All but `--stop-on-jam` take the argument after them, whatever
it looks like. -/
def applyOptions (s : TraceSettings) : List String → m (Except Refusal TraceSettings)
  | [] => return .ok s
  | option :: rest =>
      if option = "--stop-on-jam" then applyOptions { s with stopOnJam := true } rest
      else
        match rest with
        | [] => return .error (.misuse (option ++ " needs a value"))
        | value :: rest => do
            match ← applyOption readFile s option value with
            | .error refusal => return .error refusal
            | .ok s => applyOptions s rest

/-- Read the arguments of `trace`. -/
def readTrace : List String → m (Except Refusal Command)
  | [] => return .error (.misuse "trace: missing ROM path")
  | path :: options => do
      match ← readImage readFile path with
      | .error refusal => return .error refusal
      | .ok image =>
          return (← applyOptions readFile .standard options).map (Command.trace image)

/-- Read the arguments of `disasm`; what follows the range is ignored. -/
def readDisasm : List String → m (Except Refusal Command)
  | path :: first :: last :: _ => do
      match ← readImage readFile path with
      | .error refusal => return .error refusal
      | .ok image =>
          match Text.readAddress first, Text.readAddress last with
          | .ok first, .ok last => return .ok (.disasm image first last)
          | .error error, _ => return .error (.failure error.report)
          | .ok _, .error error => return .error (.failure error.report)
  | _ => return .error (.misuse "disasm: expected <rom.nes> <start> <end>")

/-- Read a command line. -/
def read : List String → m (Except Refusal Command)
  | [] => return .error (.misuse "No command given")
  | "trace" :: rest => readTrace readFile rest
  | "disasm" :: rest => readDisasm readFile rest
  | "disassemble" :: rest => readDisasm readFile rest
  | other :: _ => return .error (.misuse ("Unknown command '" ++ other ++ "'"))

end Reading

/-- Run a command. What a trace writes before it fails is kept. -/
def Command.run : Command → Output
  | .trace image settings =>
      let outcome := settings.run image
      match outcome.result with
      | .ok _ => ⟨0, outcome.text, ""⟩
      | .error error => ⟨1, outcome.text, error.report.page⟩
  | .disasm image first last =>
      match listing image first last with
      | .ok found => ⟨0, listingText found, ""⟩
      | .error error => ⟨1, "", error.report.page⟩

/-- Run the program on its arguments. -/
def run {m : Type → Type} [Monad m] (readFile : String → m (Except FileError ByteArray))
    (args : List String) : m Output := do
  match ← read readFile args with
  | .error refusal => return refusal.output
  | .ok command => return command.run

end NesMachine.CommandLine
