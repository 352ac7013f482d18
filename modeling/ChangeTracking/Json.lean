/-!
# Documents

The values of a JSON document.  Objects keep their members in order and may repeat a name.  Whole
numbers without a sign are kept as numbers, all other numerals only as the fact that one stood
there.  A string whose bytes or escapes do not make up a text is kept as `none`: it may stand where
nothing is read, and nowhere else.
-/

namespace ChangeTracking

/-- A value in a document. -/
inductive Json
  | null
  | bool (b : Bool)
  /-- A numeral of digits only. -/
  | nat (n : Nat)
  /-- A numeral with a sign, a fraction or an exponent. -/
  | otherNumber
  | string (text : Option String)
  | array (items : List Json)
  | object (members : List (Option String × Json))

namespace Json

instance : Inhabited Json := ⟨null⟩

/-- A string that is a text. -/
abbrev text (s : String) : Json := string (some s)

/-- An object whose names are texts. -/
def record (members : List (String × Json)) : Json :=
  object (members.map fun (name, value) => (some name, value))

/-- The text of a string. -/
def text? : Json → Option String
  | string s => s
  | _ => none

/-- The value of a numeral below the given bound. -/
def below? (bound : Nat) : Json → Option Nat
  | nat n => if n < bound then some n else none
  | _ => none

/-- The number of a 32-bit word. -/
def word32? (v : Json) : Option UInt32 := (v.below? UInt32.size).map UInt32.ofNat

/-- The number of a 64-bit word. -/
def word64? (v : Json) : Option UInt64 := (v.below? UInt64.size).map UInt64.ofNat

/-- The values that members of the given name have, in order. -/
def valuesOf (name : String) (members : List (Option String × Json)) : List Json :=
  members.filterMap fun (key, value) => if key = some name then some value else none

/-- The fields of a record with the given names, `none` for a field that is not given.  A record is
an object, in which other members are ignored and none of its fields may come twice, or an array of
leading fields in order.  A member's name has to be a text even if the member is ignored. -/
def fields? (names : List String) : Json → Option (List (Option Json))
  | array items =>
    if items.length ≤ names.length then
      some (items.map some ++ List.replicate (names.length - items.length) none)
    else none
  | object members =>
    if members.all (·.1.isSome) then
      names.mapM fun name =>
        match valuesOf name members with
        | [] => some none
        | [value] => some (some value)
        | _ => none
    else none
  | _ => none

end Json

end ChangeTracking
