import ChangeTracking.Bytes.LittleEndian
import ChangeTracking.Text.Numeral

/-!
# Bytes in base sixteen

Each byte as two digits with small letters, the upper half first.
-/

namespace ChangeTracking.Bytes

/-- The digit of a number below sixteen. -/
def hexDigit (n : Nat) : Char :=
  if n < 10 then Char.ofNat ('0'.toNat + n) else Char.ofNat ('a'.toNat + (n - 10))

/-- Two digits for each byte. -/
def toHex (bytes : Bytes) : List Char :=
  bytes.flatMap fun b => [hexDigit (b.toNat / 16), hexDigit (b.toNat % 16)]

/-- The bytes that a text of digits stands for; `none` if a digit is left over or none at all. -/
def ofHex? : List Char → Option Bytes
  | [] => some []
  | [_] => none
  | high :: low :: rest => do
    let h ← Text.digitValue? high
    let l ← Text.digitValue? low
    return UInt8.ofNat (16 * h + l) :: (← ofHex? rest)

end ChangeTracking.Bytes
