import ViewMarkup.Number.Text
import ViewMarkup.Text.Blank
import ViewMarkup.Value.Fault

/-!
# Points, sizes, rectangles and insets

Geometric values are lists of numbers with commas between them.

## Main definitions

* `Point`, `Size`, `Rect`, `EdgeInsets`, each with `ofNumbers` and `numbers`.
* `Geometry.readNumbers`, `Geometry.text` — a list of numbers read and written.
-/

namespace ViewMarkup

namespace Geometry

/-- The numbers of a list, read from left to right; the first part that is no number is the
fault. -/
def readParts : List (List Char) → Except ValueFault (List Float)
  | [] => .ok []
  | part :: parts =>
      let word := String.ofList (Text.trimChars part)
      match Number.ofText? word with
      | none => .error (.part word)
      | some x => (readParts parts).map (x :: ·)

/-- The numbers that a text lists with commas between them. -/
def readNumbers (text : String) : Except ValueFault (List Float) :=
  readParts (Text.pieces (· = ',') text.toList)

/-- Numbers with commas between them. -/
def text (xs : List Float) : String := Text.join ", " (xs.map Number.text)

end Geometry

/-- A point of the plane. -/
structure Point where
  /-- The horizontal coordinate. -/
  x : Float
  /-- The vertical coordinate. -/
  y : Float
deriving Repr, BEq

/-- The coordinates of a point. -/
def Point.numbers (p : Point) : List Float := [p.x, p.y]

/-- The point with the given coordinates. -/
def Point.ofNumbers : List Float → Except ValueFault Point
  | [x, y] => .ok ⟨x, y⟩
  | xs => .error (.count 2 xs.length)

/-- The extent of a rectangle. -/
structure Size where
  /-- The horizontal extent. -/
  width : Float
  /-- The vertical extent. -/
  height : Float
deriving Repr, BEq

/-- The two extents. -/
def Size.numbers (s : Size) : List Float := [s.width, s.height]

/-- The size with the given extents. -/
def Size.ofNumbers : List Float → Except ValueFault Size
  | [width, height] => .ok ⟨width, height⟩
  | xs => .error (.count 2 xs.length)

/-- A rectangle. -/
structure Rect where
  /-- The corner from which it extends. -/
  origin : Point
  /-- Its extent. -/
  size : Size
deriving Repr, BEq

/-- The coordinates of the corner, then the extents. -/
def Rect.numbers (r : Rect) : List Float := r.origin.numbers ++ r.size.numbers

/-- The rectangle with the given corner and extents. -/
def Rect.ofNumbers : List Float → Except ValueFault Rect
  | [x, y, width, height] => .ok ⟨⟨x, y⟩, ⟨width, height⟩⟩
  | xs => .error (.count 4 xs.length)

/-- Distances from the four sides of a rectangle. -/
structure EdgeInsets where
  /-- From the upper side. -/
  top : Float
  /-- From the left side. -/
  left : Float
  /-- From the lower side. -/
  bottom : Float
  /-- From the right side. -/
  right : Float
deriving Repr, BEq

/-- The four distances in the order in which markup lists them. -/
def EdgeInsets.numbers (e : EdgeInsets) : List Float := [e.top, e.left, e.bottom, e.right]

/-- One number stands for all four sides, two for the horizontal and then the vertical pair of
sides, four for each side. -/
def EdgeInsets.ofNumbers : List Float → Except ValueFault EdgeInsets
  | [x] => .ok ⟨x, x, x, x⟩
  | [upDown, leftRight] => .ok ⟨upDown, leftRight, upDown, leftRight⟩
  | [top, left, bottom, right] => .ok ⟨top, left, bottom, right⟩
  | xs => .error (.insetCount xs.length)

end ViewMarkup
