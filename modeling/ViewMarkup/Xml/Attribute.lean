import ViewMarkup.Text.Blank
import ViewMarkup.Text.Hexadecimal
import ViewMarkup.Xml.Fault

/-!
# Attributes of a tag

A tag's content is its name followed by attributes; each is a key, a sign of equality and a value
in quotes. Entities in the value are replaced by their characters.

## Main definitions

* `Xml.unescape` — an attribute value with its entities replaced.
* `Xml.readAttributes` — the attributes behind the name of a tag.
-/

namespace ViewMarkup.Xml

/-- White space between the parts of a tag. -/
def isSpace (c : Char) : Bool := c == ' ' || c == '\t' || c == '\n' || c == '\r'

/-- The first byte of a character, as the character with that code. -/
def firstByte (c : Char) : Char :=
  match String.utf8EncodeChar c with
  | b :: _ => Char.ofNat b.toNat
  | [] => c

/-! ### Entities -/

/-- The number that hexadecimal digits continue. -/
def readHex (code : Nat) : List Char → Except EntityFault Nat
  | [] => .ok code
  | c :: cs =>
      match Text.hexValue? c with
      | some d => readHex (16 * code + d) cs
      | none => .error (.notHexDigit (firstByte c))

/-- The number that decimal digits continue. -/
def readDecimal (code : Nat) : List Char → Except EntityFault Nat
  | [] => .ok code
  | c :: cs =>
      if c.isDigit then readDecimal (10 * code + (c.toNat - '0'.toNat)) cs
      else .error (.notDigit (firstByte c))

/-- The code in a numeric entity, without its sharp sign. -/
def readCode : List Char → Except EntityFault Nat
  | 'x' :: digits =>
      if 6 < Text.byteLength digits then .error .tooManyHexDigits else readHex 0 digits
  | digits => if 7 < Text.byteLength digits then .error .tooManyDigits else readDecimal 0 digits

/-- The character with a given code; `span` is where the entity stands. -/
def character (span : Span) (code : Nat) : Except EntityFault Char :=
  if code = 0 then .error (.null span)
  else if code.isValidChar then .ok (Char.ofNat code)
  else .error (.notCodePoint code)

/-- The predefined entities. -/
def entities : List (String × Char) :=
  [("lt", '<'), ("gt", '>'), ("amp", '&'), ("apos", '\''), ("quot", '"')]

/-- The character that an entity stands for, given the text between the ampersand and the
semicolon; `start` is the offset of the ampersand. -/
def resolveEntity (start : Nat) (name : List Char) : Except EntityFault Char :=
  let stop := start + 1 + Text.byteLength name
  match name with
  | '#' :: digits => (readCode digits).bind (character ⟨start, stop⟩)
  | _ =>
      match entities.lookup (String.ofList name) with
      | some c => .ok c
      | none => .error (.unknown ⟨start + 1, stop⟩ (String.ofList name))

/-- Replaces entities in characters that stand behind `offset` bytes of a value of `total` bytes. -/
def unescapeFrom (total offset : Nat) : List Char → Except EntityFault (List Char)
  | [] => .ok []
  | c :: cs =>
      if c = '&' then
        let inside := fun d => d != '&' && d != ';'
        let name := cs.takeWhile inside
        match _h : cs.dropWhile inside with
        | [] => .error (.unterminated ⟨offset, total⟩)
        | d :: rest =>
            if d = ';' then
              match resolveEntity offset name with
              | .error e => .error e
              | .ok value =>
                  (unescapeFrom total (offset + 2 + Text.byteLength name) rest).map (value :: ·)
            else .error (.unterminated ⟨offset, total⟩)
      else (unescapeFrom total (offset + c.utf8Size) cs).map (c :: ·)
termination_by cs => cs.length
decreasing_by
  · have := (List.dropWhile_sublist (l := cs) inside).length_le
    rw [_h] at this
    simp only [List.length_cons] at this ⊢
    omega
  · simp

/-- An attribute value with its entities replaced by characters. -/
def unescape (raw : List Char) : Except EntityFault (List Char) :=
  unescapeFrom (Text.byteLength raw) 0 raw

/-! ### Attributes -/

/-- An attribute with its value unescaped. -/
abbrev Attribute := String × String

/-- An attribute as it stands in a tag, with what follows it. -/
structure RawAttribute (cs : List Char) where
  /-- The key. -/
  key : List Char
  /-- The offset of the key. -/
  position : Nat
  /-- The value between the quotes. -/
  raw : List Char
  /-- The offset behind the closing quote. -/
  offset : Nat
  /-- The characters behind the closing quote. -/
  rest : List Char
  /-- At least one character was read. -/
  shorter : rest.length < cs.length

/-- Reads a value with its quotes behind a sign of equality. -/
def readValue (offset : Nat) (cs : List Char) :
    Except AttributeFault (List Char × Nat × { rest : List Char // rest.length ≤ cs.length }) :=
  let start := offset + (cs.takeWhile isSpace).length
  match h : cs.dropWhile isSpace with
  | [] => .error (.expectedValue start)
  | quote :: r =>
      if quote = '"' ∨ quote = '\'' then
        let raw := r.takeWhile (· != quote)
        let stop := start + 1 + Text.byteLength raw
        match h' : r.dropWhile (· != quote) with
        | [] => .error (.expectedQuote stop quote)
        | _ :: rest =>
            .ok (raw, stop + 1, ⟨rest, by
              have h₁ := (List.dropWhile_sublist (l := cs) isSpace).length_le
              have h₂ := (List.dropWhile_sublist (l := r) (· != quote)).length_le
              rw [h] at h₁
              rw [h'] at h₂
              simp only [List.length_cons] at h₁ h₂
              omega⟩)
      else .error (.unquotedValue start)

/-- Skips to the sign of equality that must follow a key, and returns what stands behind it. -/
def readEquals (offset : Nat) (cs : List Char) :
    Except AttributeFault (Nat × { rest : List Char // rest.length ≤ cs.length }) :=
  let start := offset + (cs.takeWhile isSpace).length
  match h : cs.dropWhile isSpace with
  | [] => .error (.expectedEquals start)
  | c :: rest =>
      if c = '=' then
        .ok (start + 1, ⟨rest, by
          have := (List.dropWhile_sublist (l := cs) isSpace).length_le
          rw [h] at this
          simp only [List.length_cons] at this
          omega⟩)
      else .error (.expectedEquals start)

/-- Reads the next attribute, if there is one. A key runs up to a sign of equality or white space,
and its first character may be anything else than white space. The key must differ from those in
`seen`, which is judged before the value. -/
def nextAttribute (seen : List (List Char × Nat)) (offset : Nat) (cs : List Char) :
    Except AttributeFault (Option (RawAttribute cs)) :=
  let position := offset + (cs.takeWhile isSpace).length
  match h : cs.dropWhile isSpace with
  | [] => .ok none
  | first :: more =>
      let inKey := fun c => c != '=' && !isSpace c
      let key := first :: more.takeWhile inKey
      match readEquals (position + Text.byteLength key) (more.dropWhile inKey) with
      | .error e => .error e
      | .ok (offset, behind) =>
          match seen.lookup key with
          | some previous => .error (.duplicated position previous)
          | none =>
              match readValue offset behind.val with
              | .error e => .error e
              | .ok (raw, offset, rest) =>
                  .ok (some ⟨key, position, raw, offset, rest.val, by
                    have h₁ := (List.dropWhile_sublist (l := cs) isSpace).length_le
                    have h₂ := (List.dropWhile_sublist (l := more) inKey).length_le
                    have h₃ := behind.property
                    have h₄ := rest.property
                    rw [h] at h₁
                    simp only [List.length_cons] at h₁
                    omega⟩)

/-- The attributes in the characters that stand behind `offset` bytes of a tag's content. They are
read and unescaped one by one, so the first fault is the one reported. -/
def readAttributes (seen : List (List Char × Nat)) (offset : Nat) (cs : List Char) :
    Except Fault (List Attribute) :=
  match nextAttribute seen offset cs with
  | .error e => .error (.attributes e)
  | .ok none => .ok []
  | .ok (some a) =>
      match unescape a.raw with
      | .error e => .error (.entity e)
      | .ok value =>
          (readAttributes (seen ++ [(a.key, a.position)]) a.offset a.rest).map
            ((String.ofList a.key, String.ofList value) :: ·)
termination_by cs.length
decreasing_by exact a.shorter

end ViewMarkup.Xml
