import ChangeTracking.Bytes.Hex
import ChangeTracking.Json.Printer
import ChangeTracking.Scan

/-!
# Pagemaps as text

Two ways to write a list of pagemaps: a line for each, with the path, a tab and the bits in base
sixteen; or a document, an array with a record for each.
-/

namespace ChangeTracking

/-- How pagemaps are written. -/
inductive ReportFormat
  | text
  | json
  deriving DecidableEq

namespace Pagemap

/-- The bits in base sixteen. -/
def hex (p : Pagemap) : List Char := Bytes.toHex p.blocks.toBytes

/-- The line for a pagemap. -/
def line (p : Pagemap) : String := p.path ++ "\t" ++ String.ofList p.hex

/-- The record for a pagemap: the path, the bits, and the number of changed blocks. -/
def record (p : Pagemap) : Json :=
  .record [("path", .text p.path), ("pagemap", .text (String.ofList p.hex)),
    ("blocks", .nat p.blocks.size)]

/-- The pagemap with its bits as numbers. -/
def toJson (p : Pagemap) : Json :=
  .record [("path", .text p.path), ("bits", .array (p.blocks.toBytes.map fun b => .nat b.toNat))]

/-- A list of pagemaps in the given format. -/
def render (format : ReportFormat) (pagemaps : List Pagemap) : String :=
  match format with
  | .text => "\n".intercalate (pagemaps.map line)
  | .json => (Json.array (pagemaps.map record)).pretty

end Pagemap

end ChangeTracking
