/-!
# Lines

A line ends at a line feed, and a carriage return right before the line feed belongs to the end. A
text that ends with a line feed has no further line after it.

## Main definitions

* `Text.lines`.
-/

namespace ViewMarkup.Text

/-- Characters without a carriage return at the end. -/
def dropReturn (cs : List Char) : List Char :=
  if cs.getLast? = some '\r' then cs.dropLast else cs

/-- The lines of the characters that follow the ones of `line`, the first of them with these at its
beginning. -/
def linesFrom (line : List Char) : List Char → List (List Char)
  | [] => if line.isEmpty then [] else [line]
  | c :: cs => if c = '\n' then dropReturn line :: linesFrom [] cs else linesFrom (line ++ [c]) cs

/-- The lines of a text, without their ends. -/
def lines (s : String) : List String := (linesFrom [] s.toList).map String.ofList

end ViewMarkup.Text
