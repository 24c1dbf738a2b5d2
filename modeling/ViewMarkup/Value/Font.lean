import ViewMarkup.Number.Text
import ViewMarkup.Text.Blank
import ViewMarkup.Value.Fault

/-!
# Fonts

A font is the system font in some weight, or a font by name, in a positive size. Markup writes the
size alone, or a face and a size with an at sign between them; a face that begins with a colon is a
weight of the system font.

## Main definitions

* `FontWeight`, `Font`.
* `Font.ofText`, `Font.text` — reading and writing.
-/

namespace ViewMarkup

/-- The weights of the system font. -/
inductive FontWeight where
  | ultraLight
  | thin
  | light
  | regular
  | medium
  | semibold
  | bold
  | heavy
  | black
deriving Repr, DecidableEq

namespace FontWeight

/-- The word for a weight in markup. -/
def keyword : FontWeight → String
  | ultraLight => "ultraLight"
  | thin => "thin"
  | light => "light"
  | regular => "regular"
  | medium => "medium"
  | semibold => "semibold"
  | bold => "bold"
  | heavy => "heavy"
  | black => "black"

/-- Every weight once, from the lightest to the heaviest. -/
def all : List FontWeight :=
  [ultraLight, thin, light, regular, medium, semibold, bold, heavy, black]

/-- The weight with a given word. -/
def ofKeyword? (word : String) : Option FontWeight := all.find? fun w => w.keyword = word

end FontWeight

/-- A font with its size. -/
inductive Font where
  /-- The system font. -/
  | system (weight : FontWeight) (size : Float)
  /-- A font by its name. -/
  | named (name : String) (size : Float)
deriving Repr, BEq

namespace Font

/-- A size: a positive number, possibly infinite, with blanks around it. -/
def readSize (text : String) : Except ValueFault Float :=
  match Number.ofText? (Text.trim text) with
  | some size => if 0.0 < size then .ok size else .error (.fontSize text)
  | none => .error (.fontSize text)

/-- The face of a font: nothing stands for the regular system font, a colon with a word for a
weight of it, and anything else for a name. -/
def ofFace (face : List Char) (size : Float) : Except ValueFault Font :=
  match face with
  | [] => .ok (.system .regular size)
  | ':' :: weight =>
      match FontWeight.ofKeyword? (String.ofList weight) with
      | some w => .ok (.system w size)
      | none => .error (.fontWeight (String.ofList weight))
  | face => .ok (.named (String.ofList face) size)

/-- Reads a font. The first at sign ends the face, and the size is judged before the face. -/
def ofText (text : String) : Except ValueFault Font :=
  let cs := Text.trimChars text.toList
  match Text.cutAt? '@' cs with
  | none => (readSize (String.ofList cs)).map fun size => .system .regular size
  | some (face, size) =>
      match readSize (String.ofList size) with
      | .error e => .error e
      | .ok size => ofFace face size

/-- A font with its face written out. -/
def text : Font → String
  | system weight size => ":" ++ weight.keyword ++ "@" ++ Number.text size
  | named name size => name ++ "@" ++ Number.text size

end Font

end ViewMarkup
