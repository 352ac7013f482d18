import ChangeTracking.Json
import ChangeTracking.Text.Numeral

/-!
# Writing documents

Two forms of a document: `compact`, without any blanks, and `pretty`, with each item of an array and
each member of an object on a line of its own.  Strings are escaped in the same way in both: the
quote and the backslash, and control characters by a letter where there is one and by number
otherwise.  All other characters stand for themselves.
-/

namespace ChangeTracking.Json

/-- A character inside a string. -/
def escapeChar (c : Char) : List Char :=
  if c = '\x22' then ['\\', '\x22']
  else if c = '\\' then ['\\', '\\']
  else if c = '\x08' then ['\\', 'b']
  else if c = '\x0c' then ['\\', 'f']
  else if c = '\n' then ['\\', 'n']
  else if c = '\r' then ['\\', 'r']
  else if c = '\t' then ['\\', 't']
  else if c.toNat < 0x20 then '\\' :: 'u' :: Text.lowerHex 4 c.toNat
  else [c]

/-- A string in quotes. -/
def printString (text : String) : List Char :=
  '\x22' :: text.toList.flatMap escapeChar ++ ['\x22']

/-- A value that is no array and no object.  What is not kept of a document is written as `null`. -/
def printAtom : Json → List Char
  | bool true => ['t', 'r', 'u', 'e']
  | bool false => ['f', 'a', 'l', 's', 'e']
  | nat n => Text.decimal n
  | string (some text) => printString text
  | _ => ['n', 'u', 'l', 'l']

mutual

/-- The document without blanks. -/
def compactChars : Json → List Char
  | array items => '[' :: compactItems items ++ [']']
  | object members => '\x7b' :: compactMembers members ++ ['\x7d']
  | atom => printAtom atom

/-- The items of an array with commas between them. -/
def compactItems : List Json → List Char
  | [] => []
  | [item] => compactChars item
  | item :: rest => compactChars item ++ ',' :: compactItems rest

/-- The members of an object with commas between them. -/
def compactMembers : List (Option String × Json) → List Char
  | [] => []
  | [(name, value)] => printAtom (string name) ++ ':' :: compactChars value
  | (name, value) :: rest =>
    printAtom (string name) ++ ':' :: compactChars value ++ ',' :: compactMembers rest

end

/-- A new line and the blanks that a line at the given depth starts with, two for each level. -/
def newline (depth : Nat) : List Char :=
  '\n' :: List.replicate (2 * depth) ' '

mutual

/-- The document with lines, where the value stands at the given depth. -/
def prettyChars (depth : Nat) : Json → List Char
  | array [] => ['[', ']']
  | array items => '[' :: prettyItems (depth + 1) items ++ newline depth ++ [']']
  | object [] => ['\x7b', '\x7d']
  | object members => '\x7b' :: prettyMembers (depth + 1) members ++ newline depth ++ ['\x7d']
  | atom => printAtom atom

/-- The items of an array, each on a line of its own. -/
def prettyItems (depth : Nat) : List Json → List Char
  | [] => []
  | [item] => newline depth ++ prettyChars depth item
  | item :: rest => newline depth ++ prettyChars depth item ++ ',' :: prettyItems depth rest

/-- The members of an object, each on a line of its own. -/
def prettyMembers (depth : Nat) : List (Option String × Json) → List Char
  | [] => []
  | [(name, value)] =>
    newline depth ++ printAtom (string name) ++ ':' :: ' ' :: prettyChars depth value
  | (name, value) :: rest =>
    newline depth ++ printAtom (string name) ++ ':' :: ' ' :: prettyChars depth value
      ++ ',' :: prettyMembers depth rest

end

/-- The document without blanks. -/
def compact (document : Json) : String := String.ofList (compactChars document)

/-- The document with lines. -/
def pretty (document : Json) : String := String.ofList (prettyChars 0 document)

end ChangeTracking.Json
