import ViewMarkup.Text.Blank
import ViewMarkup.Text.NameParts

/-!
# Identifiers of the emitted language

A text is an identifier when it is one name between blanks and comments: a letter or an underscore
followed by letters, digits and underscores, no keyword and not the underscore alone. A mark in
front of the name lets keywords be used as names, except for those that stand for paths.

## Main definitions

* `Identifier`, `Identifier.ofText?`, `Identifier.text`.
* `Identifier.afterBlanks` — skips blanks and comments.
-/

namespace ViewMarkup

/-- An identifier. -/
structure Identifier where
  /-- Whether the mark that admits keywords stands in front. -/
  isRaw : Bool
  /-- The name behind the mark. -/
  name : String
deriving Repr, DecidableEq

namespace Identifier

/-- The mark that admits keywords as names. -/
def rawMark : String := "r#"

/-- An identifier as it is written. -/
def text (i : Identifier) : String := if i.isRaw then rawMark ++ i.name else i.name

/-- The words that are no identifiers without the mark. -/
def keywords : List String :=
  ["_", "abstract", "as", "async", "await", "become", "box", "break", "const", "continue", "crate",
    "do", "dyn", "else", "enum", "extern", "false", "final", "fn", "for", "if", "impl", "in", "let",
    "loop", "macro", "match", "mod", "move", "mut", "override", "priv", "pub", "ref", "return",
    "Self", "self", "static", "struct", "super", "trait", "true", "try", "type", "typeof", "unsafe",
    "unsized", "use", "virtual", "where", "while", "yield"]

/-- The words that are no identifiers even with the mark. -/
def neverNames : List String := ["_", "super", "self", "Self", "crate"]

/-- Blanks between tokens; the marks of writing direction count among them. -/
def isGap (c : Char) : Bool := Text.isBlank c || c == '\u200e' || c == '\u200f'

/-- Whether a name may begin with the character. -/
def isStart (c : Char) : Bool := c == '_' || Text.isNameStart c

/-- The number of characters of a block comment from its opening on; comments nest. `depth` counts
the comments that are open, and nothing is returned when the text ends before they are closed. -/
def blockComment? (depth : Nat) : List Char → Option Nat
  | '/' :: '*' :: cs => (blockComment? (depth + 1) cs).map (· + 2)
  | '*' :: '/' :: cs => if depth ≤ 1 then some 2 else (blockComment? (depth - 1) cs).map (· + 2)
  | _ :: cs => (blockComment? depth cs).map (· + 1)
  | [] => none

/-- Whether characters begin with a word. -/
def begins (word : String) (cs : List Char) : Bool := (Text.after? word.toList cs).isSome

/-- The number of characters of a line comment: up to the end of the line. -/
def lineComment (cs : List Char) : Nat := (cs.takeWhile (· != '\n')).length

/-- The number of characters of the comment that begins here, if one does. Comments that document
an item are not counted as comments. -/
def comment? (cs : List Char) : Option Nat :=
  if begins "//" cs && (!begins "///" cs || begins "////" cs) && !begins "//!" cs then
    some (lineComment cs)
  else if begins "/**/" cs then some 4
  else if begins "/*" cs && (!begins "/**" cs || begins "/***" cs) && !begins "/*!" cs then
    blockComment? 0 cs
  else none

/-- What follows blanks and comments. -/
def afterBlanks : List Char → List Char
  | [] => []
  | c :: cs =>
      match comment? (c :: cs) with
      | some n => afterBlanks (cs.drop (n - 1))
      | none => if isGap c then afterBlanks cs else c :: cs
termination_by cs => cs.length
decreasing_by all_goals (try simp only [List.length_drop, List.length_cons]); omega

/-- A name at the beginning of the characters, and what follows it. -/
def readName? : List Char → Option (String × List Char)
  | [] => none
  | c :: cs =>
      if isStart c then
        some (String.ofList (c :: cs.takeWhile Text.isNamePart), cs.dropWhile Text.isNamePart)
      else none

/-- An identifier at the beginning of the characters, and what follows it. -/
def read? (cs : List Char) : Option (Identifier × List Char) :=
  match Text.after? rawMark.toList cs with
  | some marked =>
      match readName? marked with
      | some (name, rest) =>
          if name ∈ neverNames then none else some (⟨true, name⟩, rest)
      | none => none
  | none =>
      match readName? cs with
      | some (name, rest) => if name ∈ keywords then none else some (⟨false, name⟩, rest)
      | none => none

/-- The identifier that a text is, with blanks and comments around it and possibly a byte order
mark in front of all. -/
def ofText? (text : String) : Option Identifier :=
  let cs :=
    match text.toList with
    | '\ufeff' :: cs => cs
    | cs => cs
  match read? (afterBlanks cs) with
  | some (i, rest) => if (afterBlanks rest).isEmpty then some i else none
  | none => none

end Identifier

end ViewMarkup
