import ViewMarkup.Text.Hexadecimal

/-!
# Colours

A colour has four components between 0 and 1. Markup writes it as a name or as a sharp sign with
three, six or eight hexadecimal digits; it is always written back with eight.

## Main definitions

* `Color`, `Color.named?`, `Color.ofHex?`, `Color.ofText?`.
* `Color.hex` — the written form.
-/

namespace ViewMarkup

/-- A colour by its red, green and blue components and its opacity. -/
structure Color where
  /-- The red component. -/
  red : Float
  /-- The green component. -/
  green : Float
  /-- The blue component. -/
  blue : Float
  /-- The opacity. -/
  alpha : Float
deriving Repr, BEq

namespace Color

/-- An opaque colour. -/
def solid (red green blue : Float) : Color := ⟨red, green, blue, 1.0⟩

/-- A colour from four channels that run from 0 to 255. -/
def ofChannels (red green blue alpha : Nat) : Color :=
  ⟨red.toFloat / 255.0, green.toFloat / 255.0, blue.toFloat / 255.0, alpha.toFloat / 255.0⟩

/-- The colours that have a name. -/
def names : List (String × Color) :=
  [("black", solid 0 0 0),
    ("darkGray", solid (1.0 / 3.0) (1.0 / 3.0) (1.0 / 3.0)),
    ("lightGray", solid (2.0 / 3.0) (2.0 / 3.0) (2.0 / 3.0)),
    ("white", solid 1 1 1),
    ("gray", solid 0.5 0.5 0.5),
    ("red", solid 1 0 0),
    ("green", solid 0 1 0),
    ("blue", solid 0 0 1),
    ("cyan", solid 0 1 1),
    ("yellow", solid 1 1 0),
    ("magenta", solid 1 0 1),
    ("orange", solid 1 0.5 0),
    ("purple", solid 0.5 0 0.5),
    ("brown", solid 0.6 0.4 0.2),
    ("clear", ⟨0, 0, 0, 0⟩)]

/-- The colour with a given name. -/
def named? (name : String) : Option Color := names.lookup name

/-- The colour of hexadecimal digits behind a sharp sign: one digit per channel, which counts
twice, or two digits per channel; without an opacity the colour is opaque. -/
def ofHex? (text : String) : Option Color :=
  match text.toList with
  | '#' :: digits =>
      match digits.mapM Text.hexValue? with
      | some [r, g, b] => some (ofChannels (17 * r) (17 * g) (17 * b) 255)
      | some [r, r', g, g', b, b'] =>
          some (ofChannels (16 * r + r') (16 * g + g') (16 * b + b') 255)
      | some [r, r', g, g', b, b', a, a'] =>
          some (ofChannels (16 * r + r') (16 * g + g') (16 * b + b') (16 * a + a'))
      | _ => none
  | _ => none

/-- The colour that a text names or spells out. -/
def ofText? (text : String) : Option Color := (named? text).or (ofHex? text)

/-- The channel of a component: the component is brought between 0 and 1 and rounded to the
nearest of 256 steps, half a step upwards. What is no number gives 0. -/
def channel (x : Float) : Nat :=
  let low := if x < 0.0 then 0.0 else x
  let clamped := if 1.0 < low then 1.0 else low
  let steps := clamped * 255.0
  let whole := steps.toUInt8
  if 0.5 ≤ steps - whole.toFloat then whole.toNat + 1 else whole.toNat

/-- A digit below 16 in upper case. -/
def hexDigit (n : Nat) : Char := if n < 10 then Char.ofNat (48 + n) else Char.ofNat (55 + n)

/-- A channel as two hexadecimal digits. -/
def hexPair (n : Nat) : List Char := [hexDigit (n / 16), hexDigit (n % 16)]

/-- The eight digits of a colour behind a sharp sign. -/
def hex (c : Color) : String :=
  String.ofList ('#' :: (hexPair (channel c.red) ++ hexPair (channel c.green)
    ++ hexPair (channel c.blue) ++ hexPair (channel c.alpha)))

end Color

end ViewMarkup
