import ChangeTracking.Text.Numeral
import ChangeTracking.Text.Unprintable

/-!
# Quoted text in messages

A message that shows a text given by the user puts it in double quotes.  The quote, the backslash
and the common control characters are escaped by a letter, other characters that cannot be shown by
their number in braces, so that the message has one line and no invisible character.
-/

namespace ChangeTracking.Text

/-- A character inside quotes. -/
def quotedChar (c : Char) : List Char :=
  if c = '\x22' then ['\\', '\x22']
  else if c = '\\' then ['\\', '\\']
  else if c = '\x00' then ['\\', '0']
  else if c = '\t' then ['\\', 't']
  else if c = '\r' then ['\\', 'r']
  else if c = '\n' then ['\\', 'n']
  else if isPrintable c then [c]
  else ['\\', 'u', '\x7b'] ++ lowerHex 1 c.toNat ++ ['\x7d']

/-- The text in double quotes. -/
def quoted (text : String) : String :=
  String.ofList ('\x22' :: text.toList.flatMap quotedChar ++ ['\x22'])

end ChangeTracking.Text
