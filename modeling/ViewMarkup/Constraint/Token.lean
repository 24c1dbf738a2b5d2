import ViewMarkup.Constraint.Error
import ViewMarkup.Text.Blank

/-!
# Tokens of the constraint language

A layout attribute is read by longest match: at each position the longest text that is a token is
taken, blanks between tokens are skipped, and a character that begins no token is an error.

## Main definitions

* `TokenKind`, `Token`.
* `TokenKind.longest?` — the longest token at a position.
* `Token.scan` — the tokens of a text.
-/

namespace ViewMarkup

/-- The kinds of token. -/
inductive TokenKind where
  /-- The symbol of equality. -/
  | equalEqual
  /-- The symbol of an upper bound. -/
  | lessEqual
  /-- The symbol of a lower bound. -/
  | greaterEqual
  /-- A reference to an element by its layout id. -/
  | layoutId
  /-- A colon with a word, which names a relation. -/
  | relationKeyword
  /-- A decimal number with an optional minus and an optional fraction. -/
  | number
  /-- A word. -/
  | ident
  /-- The sign that captures a constraint under a name. -/
  | assign
  /-- The point before a target anchor. -/
  | dot
  /-- The sign before a priority. -/
  | atSign
  /-- The bracket before an argument. -/
  | parenOpen
  /-- The bracket after an argument. -/
  | parenClose
  /-- The colon after an argument's label. -/
  | colon
  /-- A comma. -/
  | comma
  /-- The separator of constraints. -/
  | semicolon
deriving Repr, DecidableEq

/-- A token with its text and the byte offset at which it stands. -/
structure Token where
  /-- What the token is. -/
  kind : TokenKind
  /-- The characters of the token. -/
  text : String
  /-- The number of bytes before the token. -/
  offset : Nat
deriving Repr, DecidableEq

namespace TokenKind

/-- The blanks that may stand between tokens. -/
def isSpace (c : Char) : Bool :=
  c == ' ' || c == '\t' || c == '\n' || c == '\r' || c == '\x0c'

/-- The letters of words. -/
def isLetter (c : Char) : Bool := c.isAlpha

/-- The characters that a word may begin with. -/
def isWordStart (c : Char) : Bool := c.isAlpha || c == '_'

/-- The characters that a word may go on with. -/
def isWordPart (c : Char) : Bool := c.isAlphanum || c == '_'

/-- The number of leading characters that satisfy `p`. -/
def span (p : Char → Bool) (cs : List Char) : Nat := (cs.takeWhile p).length

/-- How many characters of `cs` belong to a number of which the first digits have been read: the
digits that follow, and a point with digits if at least one stands behind it. -/
def numberTail (cs : List Char) : Nat :=
  let whole := span Char.isDigit cs
  match cs.drop whole with
  | '.' :: fraction =>
      let places := span Char.isDigit fraction
      if places = 0 then whole else whole + 1 + places
  | _ => whole

/-- The longest token that begins with the character `c` followed by `cs`: its kind and the number
of characters after `c` that belong to it. -/
def longest? (c : Char) (cs : List Char) : Option (TokenKind × Nat) :=
  match c with
  | '=' => if cs.head? = some '=' then some (equalEqual, 1) else some (assign, 0)
  | '<' => if cs.head? = some '=' then some (lessEqual, 1) else none
  | '>' => if cs.head? = some '=' then some (greaterEqual, 1) else none
  | ':' =>
      let letters := span isLetter cs
      if letters = 0 then some (colon, 0) else some (relationKeyword, letters)
  | '.' => some (dot, 0)
  | '@' => some (atSign, 0)
  | '(' => some (parenOpen, 0)
  | ')' => some (parenClose, 0)
  | ',' => some (comma, 0)
  | ';' => some (semicolon, 0)
  | '-' => if span Char.isDigit cs = 0 then none else some (number, numberTail cs)
  | _ =>
      if c.isDigit then some (number, numberTail cs)
      else if isWordStart c then
        let word := span isWordPart cs
        match c, cs with
        | 'i', 'd' :: ':' :: name =>
            if name.head?.any isWordStart then some (layoutId, 2 + span isWordPart name)
            else some (ident, word)
        | _, _ => some (ident, word)
      else none

end TokenKind

namespace Token

/-- The tokens of the characters that stand behind `offset` bytes. -/
def scanFrom (offset : Nat) : List Char → Except LayoutError (List Token)
  | [] => .ok []
  | c :: cs =>
      if TokenKind.isSpace c then scanFrom (offset + c.utf8Size) cs
      else
        match TokenKind.longest? c cs with
        | none => .error (.unexpectedCharacter c offset)
        | some (kind, n) =>
            let lexeme := c :: cs.take n
            match scanFrom (offset + Text.byteLength lexeme) (cs.drop n) with
            | .error e => .error e
            | .ok tokens => .ok (⟨kind, String.ofList lexeme, offset⟩ :: tokens)
termination_by cs => cs.length
decreasing_by
  · simp only [List.length_cons, Nat.lt_succ_self]
  · simp only [List.length_cons, List.length_drop]
    omega

/-- The tokens of a text. -/
def scan (text : String) : Except LayoutError (List Token) := scanFrom 0 text.toList

end Token

end ViewMarkup
