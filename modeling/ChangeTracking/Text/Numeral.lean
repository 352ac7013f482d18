/-!
# Unsigned numerals

Reading and writing natural numbers in a base up to sixteen.  A reader takes a whole text or
refuses it, and says nothing about size: a bound is put on the value afterwards, so that leading
zeros never count against it.
-/

namespace ChangeTracking.Text

/-- The value of a digit in base sixteen, letters in either case. -/
def digitValue? (c : Char) : Option Nat :=
  if '0' ≤ c ∧ c ≤ '9' then some (c.toNat - '0'.toNat)
  else if 'a' ≤ c ∧ c ≤ 'f' then some (c.toNat - 'a'.toNat + 10)
  else if 'A' ≤ c ∧ c ≤ 'F' then some (c.toNat - 'A'.toNat + 10)
  else none

/-- The value of a digit that the given base has. -/
def digitIn? (base : Nat) (c : Char) : Option Nat :=
  (digitValue? c).filter (· < base)

/-- The number that `digits` continues, where `value` stands for the digits already read. -/
def readFrom? (base value : Nat) : List Char → Option Nat
  | [] => some value
  | c :: rest =>
    match digitIn? base c with
    | some digit => readFrom? base (value * base + digit) rest
    | none => none

/-- The value of one or more digits. -/
def readNumeral? (base : Nat) (digits : List Char) : Option Nat :=
  if digits.isEmpty then none else readFrom? base 0 digits

/-- The value of one or more digits after an optional plus sign. -/
def readSigned? (base : Nat) : List Char → Option Nat
  | '+' :: digits => readNumeral? base digits
  | digits => readNumeral? base digits

/-- Decimal digits, without leading zeros. -/
def decimal (n : Nat) : List Char :=
  Nat.toDigits 10 n

/-- Digits in base sixteen with capital letters, without leading zeros. -/
def upperHex (n : Nat) : List Char :=
  (Nat.toDigits 16 n).map Char.toUpper

/-- Digits in base sixteen with small letters, filled up with zeros to at least `width`. -/
def lowerHex (width n : Nat) : List Char :=
  let digits := Nat.toDigits 16 n
  List.replicate (width - digits.length) '0' ++ digits

end ChangeTracking.Text
