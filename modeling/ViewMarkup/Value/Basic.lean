import ViewMarkup.Value.Choice
import ViewMarkup.Value.Color
import ViewMarkup.Value.Font
import ViewMarkup.Value.Geometry

/-!
# Property values

Every property has a declared type, which says how its text is read. Reading a value and writing it
back are inverse up to the spellings that a type admits.

## Main definitions

* `ValueType`, `Value`, `Value.type`.
* `ValueType.read`, `Value.text` — reading and writing.
* `Property` — a value with the name of the property that it is for.
-/

namespace ViewMarkup

/-- The types of property values. -/
inductive ValueType where
  | color
  | string
  | font
  | integer
  /-- A 32-bit number. -/
  | float
  /-- A 64-bit number. -/
  | double
  | bool
  /-- A word out of a fixed list. -/
  | choice (family : ChoiceFamily)
  | point
  | size
  | rect
  | edgeInsets
  | image
deriving Repr, DecidableEq

/-- A property value. -/
inductive Value where
  | color (c : Color)
  | string (s : String)
  | font (f : Font)
  | integer (n : Int)
  | float (x : Float32)
  | double (x : Float)
  | bool (b : Bool)
  | choice (c : Choice)
  | point (p : Point)
  | size (s : Size)
  | rect (r : Rect)
  | edgeInsets (e : EdgeInsets)
  | image (name : String)
deriving Repr, BEq

namespace ValueType

/-- The name of a type. -/
def name : ValueType → String
  | color => "color"
  | string => "string"
  | font => "font"
  | integer => "integer"
  | float => "float"
  | double => "double"
  | bool => "bool"
  | choice family => family.name
  | point => "point"
  | size => "size"
  | rect => "rect"
  | edgeInsets => "edgeInsets"
  | image => "image"

/-- Every type once. -/
def all : List ValueType :=
  [color, string, font, integer, float, double, bool] ++ ChoiceFamily.all.map choice
    ++ [point, size, rect, edgeInsets, image]

/-- The type of a given name. -/
def ofName? (word : String) : Option ValueType := all.find? fun t => t.name = word

/-- Reads the text of a value. Blanks around it are dropped, except from a string. -/
def read (t : ValueType) (text : String) : Except ValueFault Value :=
  let word := Text.trim text
  match t with
  | color =>
      match Color.ofText? word with
      | some c => .ok (.color c)
      | none => .error (.color word)
  | string => .ok (.string text)
  | font => (Font.ofText text).map .font
  | integer =>
      match Number.integerOfText? word with
      | some n => .ok (.integer n)
      | none => .error (.integer text)
  | float =>
      match Number.singleOfText? word with
      | some x => .ok (.float x)
      | none => .error (.number text)
  | double =>
      match Number.ofText? word with
      | some x => .ok (.double x)
      | none => .error (.number text)
  | bool =>
      if word = "true" ∨ word = "yes" then .ok (.bool true)
      else if word = "false" ∨ word = "no" then .ok (.bool false)
      else .error (.bool word)
  | choice family => (Choice.ofText family text).map .choice
  | point => do .ok (.point (← Point.ofNumbers (← Geometry.readNumbers text)))
  | size => do .ok (.size (← Size.ofNumbers (← Geometry.readNumbers text)))
  | rect => do .ok (.rect (← Rect.ofNumbers (← Geometry.readNumbers text)))
  | edgeInsets => do .ok (.edgeInsets (← EdgeInsets.ofNumbers (← Geometry.readNumbers text)))
  | image => if word.isEmpty then .error .emptyImage else .ok (.image word)

end ValueType

namespace Value

/-- The type of a value. -/
def type : Value → ValueType
  | color _ => .color
  | string _ => .string
  | font _ => .font
  | integer _ => .integer
  | float _ => .float
  | double _ => .double
  | bool _ => .bool
  | choice c => .choice c.family
  | point _ => .point
  | size _ => .size
  | rect _ => .rect
  | edgeInsets _ => .edgeInsets
  | image _ => .image

/-- A value as markup writes it. -/
def text : Value → String
  | color c => c.hex
  | string s => s
  | font f => f.text
  | integer n => Int.repr n
  | float x => Number.singleText x
  | double x => Number.text x
  | bool b => if b then "true" else "false"
  | choice c => c.word
  | point p => Geometry.text p.numbers
  | size s => Geometry.text s.numbers
  | rect r => Geometry.text r.numbers
  | edgeInsets e => Geometry.text e.numbers
  | image name => name

end Value

/-- A value for a named property. -/
structure Property where
  /-- The name of the property. -/
  name : String
  /-- Its value. -/
  value : Value
deriving Repr, BEq

end ViewMarkup
