/-!
# Why a property value is refused

## Main definitions

* `ValueFault` and its wording `ValueFault.message`.
-/

namespace ViewMarkup

/-- A reason to refuse the text of a property value. Each carries the text at fault. -/
inductive ValueFault where
  /-- Neither a colour name nor hexadecimal digits. -/
  | color (text : String)
  /-- A font size that is no positive number. -/
  | fontSize (text : String)
  /-- An unknown font weight. -/
  | fontWeight (text : String)
  /-- No integer, or one out of range. -/
  | integer (text : String)
  /-- No number. -/
  | number (text : String)
  /-- Neither of the two truth values. -/
  | bool (text : String)
  /-- None of the words that the property may be. -/
  | choice (words : List String) (text : String)
  /-- A part of a list of numbers that is no number. -/
  | part (text : String)
  /-- A list of numbers of the wrong length. -/
  | count (expected actual : Nat)
  /-- A list of insets of a length that has no meaning. -/
  | insetCount (actual : Nat)
  /-- An image without a name. -/
  | emptyImage
deriving Repr, DecidableEq

namespace ValueFault

/-- The wording of a fault. -/
def message : ValueFault → String
  | color text => "expected a color name or #RRGGBB[AA], got: " ++ text
  | fontSize text => "invalid font size: " ++ text
  | fontWeight text => "unknown font weight: " ++ text
  | integer text => "expected an integer, got: " ++ text
  | number text => "expected a number, got: " ++ text
  | bool text => "expected true|false, got: " ++ text
  | choice words text => "expected one of " ++ String.intercalate "|" words ++ ", got: " ++ text
  | part text => "invalid number: " ++ text
  | count expected actual =>
      "expected " ++ Nat.repr expected ++ " comma separated values, got " ++ Nat.repr actual
  | insetCount actual => "expected 1, 2 or 4 values, got " ++ Nat.repr actual
  | emptyImage => "image name must not be empty"

end ValueFault

end ViewMarkup
