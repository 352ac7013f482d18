import ChangeTracking.Bytes.LittleEndian

/-!
# UTF-8

Bytes as characters, without ever refusing: a byte that is not part of a well-formed sequence
becomes `none`, and reading goes on behind it.  So a text that is damaged in one place can still be
read in all others, and no damaged sequence swallows the character after it.
-/

namespace ChangeTracking.Text

/-- The payload of a continuation byte. -/
def continuation? (b : UInt8) : Option Nat :=
  if 0x80 ≤ b ∧ b ≤ 0xbf then some (b.toNat - 0x80) else none

/-- The character with the given number, if there is one. -/
def charOfNat? (n : Nat) : Option Char :=
  if h : n.isValidChar then some (Char.ofNatAux n h) else none

/-- The character that starts with byte `a`, and how many of the bytes after `a` belong to it.  The
forms of two, three and four bytes each have a least value, so that no character has two forms. -/
def charAt? (a : UInt8) (rest : Bytes) : Option (Char × Nat) :=
  if a < 0x80 then (charOfNat? a.toNat).map (·, 0)
  else if 0xc2 ≤ a ∧ a ≤ 0xdf then
    match rest with
    | b :: _ => do
      let x ← continuation? b
      return (← charOfNat? ((a.toNat - 0xc0) * 64 + x), 1)
    | _ => none
  else if 0xe0 ≤ a ∧ a ≤ 0xef then
    match rest with
    | b :: c :: _ => do
      let x ← continuation? b
      let y ← continuation? c
      let n := (a.toNat - 0xe0) * 4096 + x * 64 + y
      if n < 0x800 then none else return (← charOfNat? n, 2)
    | _ => none
  else if 0xf0 ≤ a ∧ a ≤ 0xf4 then
    match rest with
    | b :: c :: d :: _ => do
      let x ← continuation? b
      let y ← continuation? c
      let z ← continuation? d
      let n := (a.toNat - 0xf0) * 262144 + x * 4096 + y * 64 + z
      if n < 0x10000 then none else return (← charOfNat? n, 3)
    | _ => none
  else none

/-- The characters of `bytes`, in reverse and in front of those already read, where the first `skip`
bytes belong to a character that is already read. -/
def decodeOnto (read : List (Option Char)) : (skip : Nat) → Bytes → List (Option Char)
  | _, [] => read
  | skip + 1, _ :: rest => decodeOnto read skip rest
  | 0, a :: rest =>
    match charAt? a rest with
    | some (c, more) => decodeOnto (some c :: read) more rest
    | none => decodeOnto (none :: read) 0 rest

/-- The characters of a string of bytes, `none` for each byte that belongs to none. -/
def decodeUtf8 (bytes : Bytes) : List (Option Char) :=
  (decodeOnto [] 0 bytes).reverse

/-- The characters of a text: the bytes of a text are all part of characters. -/
def symbols (text : String) : List (Option Char) :=
  text.toList.map some

end ChangeTracking.Text
