import ChangeTracking.Json
import ChangeTracking.Text.Numeral
import ChangeTracking.Text.Utf8

/-!
# Reading documents

A document is read in two passes, each a machine that is run over a list and has finitely many
kinds of states.  The first turns characters into tokens, the second puts tokens together, with the
arrays and objects that are still open on a stack.  Neither recurses into the document, so values
may nest to any depth.

Reading is strict about the format (no comments, no extra commas, no signs or zeros in front of
numbers, no bare control characters in strings) and lenient about strings that are no text: a
surrogate without its partner, or a byte that belongs to no character, only makes the string's text
`none`.
-/

namespace ChangeTracking.Json

/-! ## Tokens -/

/-- What a document consists of, apart from blanks. -/
inductive Token
  | openArray
  | closeArray
  | openObject
  | closeObject
  | colon
  | comma
  /-- A literal, a numeral or a string. -/
  | atom (value : Json)

/-- A piece of a string: a character, half a surrogate pair or any other code given by an escape, or
a byte that belongs to no character. -/
inductive Piece
  | char (c : Char)
  | unit (code : Nat)
  | stray

/-- The text that pieces make up.  Codes given by escapes are 16 bits wide, and a character beyond
them is given as a high and a low surrogate, one right after the other. -/
def assemble : List Piece → Option (List Char)
  | [] => some []
  | .char c :: rest => (assemble rest).map (c :: ·)
  | .unit high :: .unit low :: rest =>
    if 0xd800 ≤ high ∧ high ≤ 0xdbff then
      if 0xdc00 ≤ low ∧ low ≤ 0xdfff then do
        let c ← Text.charOfNat? ((high - 0xd800) * 1024 + (low - 0xdc00) + 0x10000)
        (assemble rest).map (c :: ·)
      else none
    else do
      let c ← Text.charOfNat? high
      (assemble (.unit low :: rest)).map (c :: ·)
  | .unit code :: rest => do
    let c ← Text.charOfNat? code
    (assemble rest).map (c :: ·)
  | .stray :: _ => none

/-- How far a numeral is read. -/
inductive NumeralState
  /-- After a sign: a digit has to come. -/
  | sign
  /-- After a zero in front: no digit may come. -/
  | zero
  | integer
  /-- After the point: a digit has to come. -/
  | point
  | fraction
  /-- After the letter: a sign or a digit has to come. -/
  | exponent
  /-- After the sign of the exponent: a digit has to come. -/
  | exponentSign
  | exponentDigits

/-- What may have been begun at a place in the text. -/
inductive Lexer
  /-- Nothing: a token may start here. -/
  | between
  /-- The given characters still have to come, and then the literal is complete. -/
  | literal (missing : List Char) (value : Json)
  /-- A numeral; `value` is that of the digits, and `plain` says that there are only digits. -/
  | numeral (state : NumeralState) (plain : Bool) (value : Nat)
  /-- A string, its pieces in reverse. -/
  | string (pieces : List Piece)
  /-- After a backslash in a string. -/
  | escape (pieces : List Piece)
  /-- Within a code given by four digits, of which `missing` still have to come. -/
  | code (pieces : List Piece) (missing value : Nat)

/-- Whether a numeral may end here. -/
def NumeralState.complete : NumeralState → Bool
  | zero | integer | fraction | exponentDigits => true
  | sign | point | exponent | exponentSign => false

/-- The value of a complete numeral. -/
def numeralValue (plain : Bool) (value : Nat) : Json :=
  if plain then .nat value else .otherNumber

/-- Starts a token between others. -/
def begin (tokens : List Token) (c : Char) : Option (Lexer × List Token) :=
  if c = ' ' ∨ c = '\t' ∨ c = '\n' ∨ c = '\r' then some (.between, tokens)
  else if c = '[' then some (.between, .openArray :: tokens)
  else if c = ']' then some (.between, .closeArray :: tokens)
  else if c = '\x7b' then some (.between, .openObject :: tokens)
  else if c = '\x7d' then some (.between, .closeObject :: tokens)
  else if c = ':' then some (.between, .colon :: tokens)
  else if c = ',' then some (.between, .comma :: tokens)
  else if c = '\x22' then some (.string [], tokens)
  else if c = 'n' then some (.literal ['u', 'l', 'l'] .null, tokens)
  else if c = 't' then some (.literal ['r', 'u', 'e'] (.bool true), tokens)
  else if c = 'f' then some (.literal ['a', 'l', 's', 'e'] (.bool false), tokens)
  else if c = '-' then some (.numeral .sign false 0, tokens)
  else if c = '0' then some (.numeral .zero true 0, tokens)
  else (Text.digitIn? 10 c).map fun d => (.numeral .integer true d, tokens)

/-- The character that a backslash and a letter stand for. -/
def escaped? (c : Char) : Option Char :=
  if c = '\x22' ∨ c = '\\' ∨ c = '/' then some c
  else if c = 'b' then some '\x08'
  else if c = 'f' then some '\x0c'
  else if c = 'n' then some '\n'
  else if c = 'r' then some '\r'
  else if c = 't' then some '\t'
  else none

/-- A numeral with one more character, if the character continues it. -/
def continueNumeral? (state : NumeralState) (plain : Bool) (value : Nat) (c : Char) :
    Option Lexer :=
  match state, Text.digitIn? 10 c with
  | .sign, some 0 => some (.numeral .zero plain value)
  | .sign, some d => some (.numeral .integer plain (value * 10 + d))
  | .integer, some d => some (.numeral .integer plain (value * 10 + d))
  | .point, some _ => some (.numeral .fraction false value)
  | .fraction, some _ => some (.numeral .fraction false value)
  | .exponent, some _ => some (.numeral .exponentDigits false value)
  | .exponentSign, some _ => some (.numeral .exponentDigits false value)
  | .exponentDigits, some _ => some (.numeral .exponentDigits false value)
  | .zero, none | .integer, none =>
    if c = '.' then some (.numeral .point false value)
    else if c = 'e' ∨ c = 'E' then some (.numeral .exponent false value)
    else none
  | .fraction, none =>
    if c = 'e' ∨ c = 'E' then some (.numeral .exponent false value) else none
  | .exponent, none =>
    if c = '+' ∨ c = '-' then some (.numeral .exponentSign false value) else none
  | _, _ => none

/-- Reads one character.  A numeral ends with the first character that cannot continue it, which is
then read as the start of another token. -/
def lexChar (state : Lexer) (tokens : List Token) (c : Char) : Option (Lexer × List Token) :=
  match state with
  | .between => begin tokens c
  | .literal (want :: missing) value =>
    if c = want then
      if missing.isEmpty then some (.between, .atom value :: tokens)
      else some (.literal missing value, tokens)
    else none
  | .literal [] _ => none
  | .numeral number plain value =>
    match continueNumeral? number plain value c with
    | some next => some (next, tokens)
    | none =>
      if number.complete then begin (.atom (numeralValue plain value) :: tokens) c else none
  | .string pieces =>
    if c = '\x22' then
      let text := (assemble pieces.reverse).map String.ofList
      some (.between, .atom (.string text) :: tokens)
    else if c = '\\' then some (.escape pieces, tokens)
    else if c.toNat < 0x20 then none
    else some (.string (.char c :: pieces), tokens)
  | .escape pieces =>
    if c = 'u' then some (.code pieces 4 0, tokens)
    else (escaped? c).map fun e => (.string (.char e :: pieces), tokens)
  | .code pieces missing value =>
    match Text.digitValue? c with
    | some d =>
      if missing ≤ 1 then some (.string (.unit (value * 16 + d) :: pieces), tokens)
      else some (.code pieces (missing - 1) (value * 16 + d), tokens)
    | none => none

/-- Reads one character, or a byte that belongs to none and may only stand in a string. -/
def lexSymbol : Lexer × List Token → Option Char → Option (Lexer × List Token)
  | (state, tokens), some c => lexChar state tokens c
  | (.string pieces, tokens), none => some (.string (.stray :: pieces), tokens)
  | _, none => none

/-- The tokens of a text. -/
def tokens? (text : List (Option Char)) : Option (List Token) :=
  match text.foldlM lexSymbol (.between, []) with
  | some (.between, tokens) => some tokens.reverse
  | some (.numeral number plain value, tokens) =>
    if number.complete then some (.atom (numeralValue plain value) :: tokens).reverse else none
  | _ => none

/-! ## Values -/

/-- An array or object that is still open, with the items read so far in reverse; for an object also
the name whose value is being read. -/
inductive Frame
  | array (items : List Json)
  | object (members : List (Option String × Json)) (key : Option String)

/-- What may come next. -/
inductive Builder
  /-- A value. -/
  | value (stack : List Frame)
  /-- The first item of an array, or its end. -/
  | firstItem (stack : List Frame)
  /-- A comma or the end of the array. -/
  | afterItem (items : List Json) (stack : List Frame)
  /-- The first name in an object, or its end. -/
  | firstName (stack : List Frame)
  /-- A name. -/
  | name (members : List (Option String × Json)) (stack : List Frame)
  /-- The colon after a name. -/
  | colon (members : List (Option String × Json)) (key : Option String) (stack : List Frame)
  /-- A comma or the end of the object. -/
  | afterMember (members : List (Option String × Json)) (stack : List Frame)
  /-- Nothing: the document is complete. -/
  | done (document : Json)

/-- The state after a complete value. -/
def Builder.add (v : Json) : List Frame → Builder
  | [] => .done v
  | .array items :: stack => .afterItem (v :: items) stack
  | .object members key :: stack => .afterMember ((key, v) :: members) stack

/-- Starts a value. -/
def Builder.start? (stack : List Frame) : Token → Option Builder
  | .openArray => some (.firstItem stack)
  | .openObject => some (.firstName stack)
  | .atom v => some (.add v stack)
  | _ => none

/-- Takes one token. -/
def Builder.step : Builder → Token → Option Builder
  | .value stack, token => start? stack token
  | .firstItem stack, .closeArray => some (.add (.array []) stack)
  | .firstItem stack, token => start? (.array [] :: stack) token
  | .afterItem items stack, .closeArray => some (.add (.array items.reverse) stack)
  | .afterItem items stack, .comma => some (.value (.array items :: stack))
  | .firstName stack, .closeObject => some (.add (.object []) stack)
  | .firstName stack, .atom (.string key) => some (.colon [] key stack)
  | .name members stack, .atom (.string key) => some (.colon members key stack)
  | .colon members key stack, .colon => some (.value (.object members key :: stack))
  | .afterMember members stack, .closeObject => some (.add (.object members.reverse) stack)
  | .afterMember members stack, .comma => some (.name members stack)
  | _, _ => none

/-- The value that the tokens stand for. -/
def ofTokens? (tokens : List Token) : Option Json :=
  match tokens.foldlM Builder.step (.value []) with
  | some (.done document) => some document
  | _ => none

/-- Reads a document. -/
def parse? (text : List (Option Char)) : Option Json :=
  (tokens? text).bind ofTokens?

end ChangeTracking.Json
