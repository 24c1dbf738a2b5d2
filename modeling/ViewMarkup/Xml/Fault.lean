import ViewMarkup.Text.Quoted

/-!
# Faults of a document as XML

The reader is strict about what it looks at: names of end tags, attributes and the entities in
their values, and the delimiters of everything it skips.

## Main definitions

* `Xml.EntityFault`, `Xml.AttributeFault`, `Xml.Fault`, each with its wording.
-/

namespace ViewMarkup.Xml

/-- A run of bytes, by the offsets of its first byte and of the byte behind it. -/
structure Span where
  /-- The offset of the first byte. -/
  first : Nat
  /-- The offset behind the last byte. -/
  last : Nat
deriving Repr, DecidableEq

namespace Span

/-- The two offsets with two points between them. -/
def text (s : Span) : String := Nat.repr s.first ++ ".." ++ Nat.repr s.last

end Span

/-- What can be wrong with an entity in an attribute value. -/
inductive EntityFault where
  /-- A reference to the character of code zero. -/
  | null (span : Span)
  /-- A name that is no predefined entity. -/
  | unknown (span : Span) (name : String)
  /-- An ampersand without a semicolon before the next one. -/
  | unterminated (span : Span)
  /-- More hexadecimal digits than any code point has. -/
  | tooManyHexDigits
  /-- More decimal digits than any code point has. -/
  | tooManyDigits
  /-- Something else than a hexadecimal digit; the byte is shown. -/
  | notHexDigit (byte : Char)
  /-- Something else than a decimal digit; the byte is shown. -/
  | notDigit (byte : Char)
  /-- A number that is no code point. -/
  | notCodePoint (code : Nat)
deriving Repr, DecidableEq

namespace EntityFault

/-- The wording of a fault. -/
def message : EntityFault → String
  | null span =>
      "Error while escaping character at range " ++ span.text
        ++ ": Null character entity not allowed"
  | unknown span name =>
      "Error while escaping character at range " ++ span.text
        ++ ": Unrecognized escape symbol: " ++ Text.quoted name
  | unterminated span =>
      "Error while escaping character at range " ++ span.text
        ++ ": Cannot find ';' after '&'"
  | tooManyHexDigits => "Cannot convert hexadecimal to utf8"
  | tooManyDigits => "Cannot convert decimal to utf8"
  | notHexDigit byte => "'" ++ byte.toString ++ "' is not a valid hexadecimal character"
  | notDigit byte => "'" ++ byte.toString ++ "' is not a valid decimal character"
  | notCodePoint code => "'" ++ Nat.repr code ++ "' is not a valid codepoint"

end EntityFault

/-- What can be wrong with the attributes of a tag. Positions count the bytes from the first one
of the tag's name. -/
inductive AttributeFault where
  /-- A key without a sign of equality. -/
  | expectedEquals (position : Nat)
  /-- A sign of equality at the end of the tag. -/
  | expectedValue (position : Nat)
  /-- A value without quotes. -/
  | unquotedValue (position : Nat)
  /-- A value without its closing quote. -/
  | expectedQuote (position : Nat) (quote : Char)
  /-- A key that stands twice. -/
  | duplicated (position previous : Nat)
deriving Repr, DecidableEq

namespace AttributeFault

/-- The wording of a fault. -/
def message : AttributeFault → String
  | expectedEquals p =>
      "position " ++ Nat.repr p
        ++ ": attribute key must be directly followed by `=` or space"
  | expectedValue p =>
      "position " ++ Nat.repr p ++ ": `=` must be followed by an attribute value"
  | unquotedValue p =>
      "position " ++ Nat.repr p ++ ": attribute value must be enclosed in `\"` or `'`"
  | expectedQuote p quote =>
      "position " ++ Nat.repr p ++ ": missing closing quote `" ++ quote.toString
        ++ "` in attribute value"
  | duplicated p previous =>
      "position " ++ Nat.repr p ++ ": duplicated attribute, previous declaration at position "
        ++ Nat.repr previous

end AttributeFault

/-- The things that end at their own delimiter and not at the next bracket. -/
inductive Section where
  | bang
  | comment
  | cdata
  | doctype
  | declaration
deriving Repr, DecidableEq

namespace Section

/-- The name of a section in a message. -/
def name : Section → String
  | bang => "Bang"
  | comment => "Comment"
  | cdata => "CData"
  | doctype => "DOCTYPE"
  | declaration => "XmlDecl"

end Section

/-- What can be wrong with a document as XML. -/
inductive Fault where
  /-- A section that does not end as it must. -/
  | unfinished (part : Section)
  /-- An exclamation mark that begins no known section; the byte behind it is shown. -/
  | unknownBang (byte : Char)
  /-- A document type without a name. -/
  | emptyDoctype
  /-- An end tag that does not close the innermost open element. -/
  | mismatch (expected found : String)
  /-- A fault in an attribute value. -/
  | entity (fault : EntityFault)
  /-- A fault in the attributes of a tag. -/
  | attributes (fault : AttributeFault)
deriving Repr, DecidableEq

namespace Fault

/-- The wording of a fault. -/
def message : Fault → String
  | unfinished part => "Unexpected EOF during reading " ++ part.name
  | unknownBang byte =>
      "Only Comment (`--`), CDATA (`[CDATA[`) and DOCTYPE (`DOCTYPE`) nodes can start with a '!', "
        ++ "but symbol `" ++ byte.toString ++ "` found"
  | emptyDoctype => "DOCTYPE declaration must not be empty"
  | mismatch expected found => "Expecting </" ++ expected ++ "> found </" ++ found ++ ">"
  | entity f => f.message
  | attributes f => f.message

end Fault

end ViewMarkup.Xml
