import ChangeTracking.Error
import ChangeTracking.Lsn
import ChangeTracking.Text.Blank
import ChangeTracking.Text.Cut
import ChangeTracking.Text.Numeral

/-!
# Log positions as text

A position is written as its two halves in base sixteen with a slash between them, neither padded.
It is read in that form or as one decimal number, with blanks around it; each number may carry a
plus sign and any number of leading zeros, as long as its value fits.
-/

namespace ChangeTracking.Lsn

open Text

/-- The written form: upper half, slash, lower half. -/
def render (l : Lsn) : String :=
  String.ofList (upperHex l.high.toNat ++ '/' :: upperHex l.low.toNat)

/-- One half of a position, in base sixteen. -/
def readHalf? (text : List Char) : Option UInt32 :=
  (readSigned? 16 text).bind fun n => if n < UInt32.size then some (UInt32.ofNat n) else none

/-- A position that stands without blanks around it. -/
def readBare? (text : List Char) : Option Lsn :=
  match cut '/' text with
  | some (high, low) => do return ofHalves (← readHalf? high) (← readHalf? low)
  | none =>
    (readSigned? 10 text).bind fun n => if n < UInt64.size then some ⟨UInt64.ofNat n⟩ else none

/-- Reads a position, in either form and with blanks around it. -/
def read? (text : String) : Option Lsn :=
  readBare? (trim text.toList)

/-- The position that a text names, or an error that shows the text without the blanks around it. -/
def parse (text : String) : Except Error Lsn :=
  match read? text with
  | some l => .ok l
  | none => .error (.invalidLsn (String.ofList (trim text.toList)))

end ChangeTracking.Lsn
