import ViewMarkup.Xml.Attribute

/-!
# A document as a sequence of events

Reading a document yields its tags in order. Text, comments, character data, processing
instructions and the document type are passed over, wherever they stand and whatever they hold.
Every end tag must close the innermost open element. A tag that the input does not finish is still
a tag, and an element that stays open at the end is no fault.

## Main definitions

* `Event` — a tag, something passed over, or the fault that ends the reading.
* `Event.ofText` — the events of a document.
-/

namespace ViewMarkup.Xml

/-- What the reader meets. -/
inductive Event where
  /-- A start tag. -/
  | start (tag : String) (attributes : List Attribute)
  /-- A tag that is an element by itself. -/
  | empty (tag : String) (attributes : List Attribute)
  /-- An end tag that closes the innermost open element. -/
  | stop
  /-- Something that is no element. -/
  | other
  /-- A fault; nothing behind it is read. -/
  | fault (fault : Fault)
deriving Repr, DecidableEq

/-- What a step of the reader yields: an event, the names of the open elements after it with the
innermost first, and how many characters behind the first one it took. -/
abbrev Step := Event × List (List Char) × Nat

/-- The content of a tag: everything up to the first closing bracket that stands in no quotes. -/
def tagContent (quote : Option Char) : List Char → List Char
  | [] => []
  | c :: cs =>
      match quote with
      | none =>
          if c = '>' then []
          else c :: tagContent (if c = '"' ∨ c = '\'' then some c else none) cs
      | some q => c :: tagContent (if c = q then none else some q) cs

/-- The content of a section: everything up to the first closing bracket at which `closes` holds of
the characters before it, which are given with the last one first. -/
def sectionContent (closes : List Char → Bool) (before : List Char) :
    List Char → Option (List Char)
  | [] => none
  | c :: cs =>
      if c = '>' ∧ closes before then some before.reverse
      else sectionContent closes (c :: before) cs

/-- A comment ends behind two hyphens that are not those it begins with. -/
def closesComment (before : List Char) : Bool :=
  before.take 2 == ['-', '-'] && 4 ≤ before.length

/-- Character data ends behind two closing brackets. -/
def closesCData (before : List Char) : Bool := before.take 2 == [']', ']']

/-- A document type ends where all inner brackets are closed. -/
def closesDoctype (before : List Char) : Bool := before.count '<' == before.count '>'

/-- Whether characters begin with a word in any case; the word is given in lower case. -/
def beginsWith (word : List Char) (cs : List Char) : Bool :=
  (cs.take word.length).map Char.toLower == word

/-- What stands behind an exclamation mark. -/
def bangStep (opened : List (List Char)) (cs : List Char) : Step :=
  let section_ := fun part closes (accepts : List Char → Option Fault) =>
    match sectionContent closes [] cs with
    | none => (Event.fault (.unfinished part), opened, 0)
    | some content =>
        match accepts content with
        | some fault => (Event.fault fault, opened, 0)
        | none => (Event.other, opened, content.length + 2)
  match cs.head? with
  | none => (.fault (.unfinished .bang), opened, 0)
  | some c =>
      if c = '-' then
        section_ .comment closesComment fun content =>
          if beginsWith ['-', '-'] content then none else some (.unfinished .comment)
      else if c = '[' then
        section_ .cdata closesCData fun content =>
          if beginsWith "[cdata[".toList content then none else some (.unfinished .cdata)
      else if c = 'D' ∨ c = 'd' then
        section_ .doctype closesDoctype fun content =>
          if beginsWith "doctype".toList content then
            if (content.drop 7).all isSpace then some .emptyDoctype else none
          else some (.unfinished .doctype)
      else (.fault (.unknownBang (firstByte c)), opened, 0)

/-- What stands behind the slash of an end tag. White space behind the name does not count. -/
def endStep (opened : List (List Char)) (cs : List Char) : Step :=
  let content := cs.takeWhile (· != '>')
  let trimmed := Text.dropTrailing isSpace content
  let name := if trimmed.isEmpty then content else trimmed
  match opened with
  | [] => (.fault (.mismatch "" (String.ofList content)), [], 0)
  | expected :: opened =>
      if name = expected then (.stop, opened, content.length + 2)
      else (.fault (.mismatch (String.ofList expected) (String.ofList name)), opened, 0)

/-- What stands behind a question mark: an instruction, which ends with a question mark of its
own. -/
def instructionStep (opened : List (List Char)) (cs : List Char) : Step :=
  let content := cs.takeWhile (· != '>')
  if 2 ≤ content.length ∧ content.getLast? = some '?' then
    (.other, opened, content.length + 2)
  else (.fault (.unfinished .declaration), opened, 0)

/-- A start tag, given what stands behind its bracket. A slash at the end makes it an element by
itself. -/
def startStep (opened : List (List Char)) (cs : List Char) : Step :=
  let content := tagContent none cs
  let isEmpty := content.getLast? == some '/'
  let inner := if isEmpty then content.dropLast else content
  let name := inner.takeWhile fun c => !isSpace c
  let taken := content.length + 1
  match readAttributes [] (Text.byteLength name) (inner.drop name.length) with
  | .error fault => (.fault fault, opened, 0)
  | .ok attributes =>
      if isEmpty then (.empty (String.ofList name) attributes, opened, taken)
      else (.start (String.ofList name) attributes, name :: opened, taken)

/-- What stands behind an opening bracket, if anything does. -/
def tagStep (opened : List (List Char)) : List Char → Option Step
  | [] => none
  | '!' :: cs => some (bangStep opened cs)
  | '/' :: cs => some (endStep opened cs)
  | '?' :: cs => some (instructionStep opened cs)
  | cs => some (startStep opened cs)

namespace Event

/-- The events of characters, given the names of the open elements. -/
def ofChars (opened : List (List Char)) : List Char → List Event
  | [] => []
  | c :: cs =>
      if c = '<' then
        match tagStep opened cs with
        | none => []
        | some (fault f, _, _) => [fault f]
        | some (event, opened, taken) => event :: ofChars opened (cs.drop taken)
      else other :: ofChars opened (cs.drop (cs.takeWhile (· != '<')).length)
termination_by cs => cs.length
decreasing_by all_goals simp only [List.length_drop, List.length_cons]; omega

/-- The events of a document; a byte order mark at its beginning does not count. -/
def ofText (text : String) : List Event :=
  match text.toList with
  | '\ufeff' :: cs => ofChars [] cs
  | cs => ofChars [] cs

/-- The events of a text that is given by its characters. A literal is such a text by definition, so a run
on one need not decode it. -/
theorem ofText_ofList (cs : List Char) :
    ofText (String.ofList cs) = ofChars [] (if cs.head? = some '\ufeff' then cs.tail else cs) := by
  rw [ofText, String.toList_ofList]
  split
  · rfl
  · next hmark =>
    rw [if_neg fun hhead => ?_]
    obtain ⟨cs, rfl⟩ := List.head?_eq_some_iff.1 hhead
    exact hmark cs rfl

end Event

end ViewMarkup.Xml
