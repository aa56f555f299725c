import NesMachine.Board
import NesMachine.Wiring

/-!
# Listings of cartridges

The disassembly of a range of addresses as the processor sees it after a reset, on the standard
wiring of a cartridge.
-/

set_option autoImplicit false

namespace NesMachine

/-- Why a listing is refused. -/
inductive ListingError where
  | reversed (first last : UInt16)
  | cartridge (error : ImageError)
  deriving DecidableEq

/-- What is told about a refused listing. -/
def ListingError.report : ListingError → Report
  | .reversed first last =>
      ⟨"start 0x" ++ Text.Hex.wordText first ++ " is past end 0x" ++ Text.Hex.wordText last, none⟩
  | .cartridge error => error.report

/-- The instructions in a range of the cartridge in an image. The range is checked first. -/
def listing (image : Array UInt8) (first last : UInt16) : Except ListingError (List Decoded) :=
  if last < first then .error (.reversed first last)
  else
    match Cartridge.ofImage image with
    | .error error => .error (.cartridge error)
    | .ok c =>
        let board := Board.ofSpace (some c) (.mapped (Wiring.referenceBus c))
        .ok (disassemble board.peek first last)

/-- The events of making a listing. -/
def listingEvents (image : Array UInt8) (first last : UInt16) : List Event :=
  if last < first then []
  else
    Cartridge.imageEvents image ++
      match Cartridge.ofImage image with
      | .error _ => []
      | .ok c => Wiring.referenceEvents c

/-- The text of a listing, one line for each instruction. -/
def listingText (found : List Decoded) : String :=
  String.join (found.map fun d => d.listing ++ "\n")

end NesMachine
