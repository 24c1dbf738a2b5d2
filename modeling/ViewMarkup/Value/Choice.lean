import ViewMarkup.Text.Blank
import ViewMarkup.Value.Fault

/-!
# Choices

A choice is one word out of a fixed list, such as a text alignment.

## Main definitions

* `ChoiceFamily` with its `name` and its `words`.
* `Choice` — a family together with one of its words.
-/

namespace ViewMarkup

/-- The lists of words from which properties choose. -/
inductive ChoiceFamily where
  /-- Horizontal alignment of text. -/
  | textAlignment
  /-- How an image fills its bounds. -/
  | contentMode
  /-- The look of a bar. -/
  | barStyle
  /-- How text is wrapped or cut. -/
  | lineBreakMode
  /-- The direction of a stack. -/
  | axis
  /-- How a stack shares out its length. -/
  | distribution
  /-- How a stack places its children across its axis. -/
  | alignment
  /-- The look of an activity indicator. -/
  | activityIndicatorStyle
deriving Repr, DecidableEq

namespace ChoiceFamily

/-- The name of a family. -/
def name : ChoiceFamily → String
  | textAlignment => "textAlignment"
  | contentMode => "contentMode"
  | barStyle => "barStyle"
  | lineBreakMode => "lineBreakMode"
  | axis => "axis"
  | distribution => "distribution"
  | alignment => "alignment"
  | activityIndicatorStyle => "activityIndicatorStyle"

/-- Every family once. -/
def all : List ChoiceFamily :=
  [textAlignment, contentMode, barStyle, lineBreakMode, axis, distribution, alignment,
    activityIndicatorStyle]

/-- The words of a family, in the order in which a report lists them. -/
def words : ChoiceFamily → List String
  | textAlignment => ["left", "center", "right", "justified", "natural"]
  | contentMode =>
      ["scaleToFill", "scaleAspectFit", "scaleAspectFill", "redraw", "center", "top", "bottom",
        "left", "right", "topLeft", "topRight", "bottomLeft", "bottomRight"]
  | barStyle => ["default", "black"]
  | lineBreakMode =>
      ["byWordWrapping", "byCharWrapping", "byClipping", "byTruncatingHead", "byTruncatingTail",
        "byTruncatingMiddle"]
  | axis => ["horizontal", "vertical"]
  | distribution =>
      ["fill", "fillEqually", "fillProportionally", "equalSpacing", "equalCentering"]
  | alignment => ["fill", "leading", "firstBaseline", "center", "trailing", "lastBaseline"]
  | activityIndicatorStyle => ["whiteLarge", "white", "gray"]

end ChoiceFamily

/-- One word of a family. -/
structure Choice where
  /-- The family. -/
  family : ChoiceFamily
  /-- The word. -/
  word : String
  /-- The word belongs to the family. -/
  word_mem : word ∈ family.words
deriving Repr, DecidableEq

namespace Choice

/-- Reads a word of a family, with blanks around it. -/
def ofText (family : ChoiceFamily) (text : String) : Except ValueFault Choice :=
  let word := Text.trim text
  if h : word ∈ family.words then .ok ⟨family, word, h⟩
  else .error (.choice family.words text)

end Choice

end ViewMarkup
