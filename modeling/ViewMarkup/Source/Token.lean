import ViewMarkup.Text.Quoted

/-!
# Emitted text as nested tokens

Emitted text is a sequence of tokens with a blank between any two. Brackets hold a sequence of their
own; round ones hug it, curly ones have a blank inside each end, and only one when they hold
nothing.

## Main definitions

* `SourceToken`, `SourceToken.render`.
* `SourceToken.string` — a string literal.
-/

namespace ViewMarkup

/-- A token of emitted text. -/
inductive SourceToken where
  /-- A word, a sign or a literal. -/
  | atom (text : String)
  /-- Round brackets. -/
  | round (inside : List SourceToken)
  /-- Curly brackets. -/
  | curly (inside : List SourceToken)
deriving Repr

namespace SourceToken

mutual

/-- The text of a token. -/
def text : SourceToken → String
  | atom text => text
  | round inside => "(" ++ render inside ++ ")"
  | curly inside =>
      "\x7b " ++ render inside ++ (if inside.isEmpty then "" else " ") ++ "\x7d"

/-- The text of tokens, with a blank between any two. -/
def render : List SourceToken → String
  | [] => ""
  | [t] => text t
  | t :: u :: rest => text t ++ " " ++ render (u :: rest)

end

/-- A character of a string literal, given the one behind it. The escape of the character of code
zero is longer before a digit that could be taken as part of it. -/
def escapedBefore (c : Char) (next : Option Char) : List Char :=
  if c = '\x00' ∧ next.any fun d => '0' ≤ d ∧ d ≤ '7' then ['\\', 'x', '0', '0']
  else Text.escaped c

/-- The characters of a string literal between its quotes. -/
def literalChars : List Char → List Char
  | [] => []
  | c :: cs => escapedBefore c cs.head? ++ literalChars cs

/-- A string literal. -/
def string (s : String) : SourceToken :=
  atom (String.ofList ('"' :: (literalChars s.toList ++ ['"'])))

end SourceToken

end ViewMarkup
