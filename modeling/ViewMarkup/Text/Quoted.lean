import ViewMarkup.Text.Hexadecimal
import ViewMarkup.Text.Printable

/-!
# Quoted text

A text between double quotes. Backslashes and double quotes are escaped, the usual controls have
their one-letter escapes, and a character that does not print by itself is written by its code
point, so that the written form shows every character.

## Main definitions

* `escaped` — a character as it stands between the quotes.
* `quoted` — a whole text.
-/

namespace ViewMarkup.Text

/-- A character by its code point. -/
def codePoint (c : Char) : List Char :=
  ['\\', 'u', '\x7b'] ++ hexDigits c.toNat ++ ['\x7d']

/-- A character as it stands between double quotes. -/
def escaped (c : Char) : List Char :=
  if c = '\x00' then ['\\', '0']
  else if c = '\t' then ['\\', 't']
  else if c = '\r' then ['\\', 'r']
  else if c = '\n' then ['\\', 'n']
  else if c = '\\' ∨ c = '"' then ['\\', c]
  else if isCombining c ∨ !isPrintable c then codePoint c
  else [c]

/-- A text between double quotes. -/
def quoted (s : String) : String :=
  String.ofList ('"' :: (s.toList.flatMap escaped ++ ['"']))

end ViewMarkup.Text
