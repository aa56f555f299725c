import NesMachine.CommandLine

/-!
# The program

The command line on the files and the streams of the host.
-/

set_option autoImplicit false

open NesMachine

/-- The number of an error of the host, if it has one. An error of opening a file carries its number
negated. -/
def errorNumber? : IO.Error → Option Nat
  | .noFileOrDirectory _ code _ | .noSuchThing _ code _ | .inappropriateType _ code _
  | .invalidArgument _ code _ | .permissionDenied _ code _ => some (min code (0 - code)).toNat
  | _ => none

/-- Read a file of the host. -/
def readHostFile (path : String) : IO (Except FileError ByteArray) := do
  match ← (IO.FS.readBinFile path).toBaseIO with
  | .ok bytes => return .ok bytes
  | .error error =>
      return .error (((errorNumber? error).bind FileError.ofNumber?).getD (.other (toString error)))

/-- Run the program on the arguments of the host. -/
def main (args : List String) : IO UInt32 := do
  let output ← CommandLine.run readHostFile args
  IO.print output.stdout
  IO.eprint output.stderr
  return output.exitCode
