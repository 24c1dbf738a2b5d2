/-!
# Anchors, relations and anchor keywords

A constraint relates one anchor of an element to an anchor of its target. A layout attribute names
its anchors by a keyword: the twelve anchors name themselves, the other keywords stand for several
anchors at once or for an anchor whose target has a different default anchor.

## Main definitions

* `Anchor`, with its markup keyword and the sign of an inset.
* `Relation`, with its symbol.
* `AnchorKeyword.expansion` — the anchors that a keyword stands for, each with the default anchor
  of the target.
-/

namespace ViewMarkup

/-- An edge, a dimension or an alignment line of an element. -/
inductive Anchor where
  | top
  | bottom
  | leading
  | trailing
  | left
  | right
  | width
  | height
  | centerX
  | centerY
  | firstBaseline
  | lastBaseline
deriving Repr, DecidableEq

namespace Anchor

/-- The keyword of an anchor in markup. -/
def keyword : Anchor → String
  | top => "top"
  | bottom => "bottom"
  | leading => "leading"
  | trailing => "trailing"
  | left => "left"
  | right => "right"
  | width => "width"
  | height => "height"
  | centerX => "centerX"
  | centerY => "centerY"
  | firstBaseline => "firstBaseline"
  | lastBaseline => "lastBaseline"

/-- Every anchor once. -/
def all : List Anchor :=
  [top, bottom, leading, trailing, left, right, width, height, centerX, centerY, firstBaseline,
    lastBaseline]

/-- The anchor with a given keyword. -/
def ofKeyword? (word : String) : Option Anchor := all.find? fun a => a.keyword = word

/-- Dimensions are the anchors that may be compared with a number. -/
def isDimension : Anchor → Bool
  | width | height => true
  | _ => false

/-- Whether an inset adds to the constant of this anchor. An inset always shrinks the element, so
it adds at the leading side and subtracts at the trailing side and from a dimension. -/
def insetAdds : Anchor → Bool
  | top | leading | left | centerX | centerY | firstBaseline => true
  | bottom | trailing | right | width | height | lastBaseline => false

/-- The factor by which an inset enters the constant of this anchor. -/
def insetSign (a : Anchor) : Float := if a.insetAdds then 1.0 else -1.0

end Anchor

/-- How an anchor relates to its target. -/
inductive Relation where
  | equal
  | atMost
  | atLeast
deriving Repr, DecidableEq

namespace Relation

/-- The symbol of a relation. -/
def symbol : Relation → String
  | equal => "=="
  | atMost => "<="
  | atLeast => ">="

/-- The relation written by a symbol or by a keyword with its colon. -/
def ofText? (text : String) : Option Relation :=
  if text = "==" ∨ text = ":eq" then some equal
  else if text = "<=" ∨ text = ":lt" ∨ text = ":lte" then some atMost
  else if text = ">=" ∨ text = ":gt" ∨ text = ":gte" then some atLeast
  else none

end Relation

/-- What a layout attribute names: one anchor, a group of anchors, or an anchor placed against the
opposite side of its target. -/
inductive AnchorKeyword where
  | single (anchor : Anchor)
  | size
  | center
  | edges
  | fillHorizontally
  | fillVertically
  | before
  | after
  | above
  | below
deriving Repr, DecidableEq

namespace AnchorKeyword

/-- The keyword of a layout attribute. -/
def ofName? (name : String) : Option AnchorKeyword :=
  match Anchor.ofKeyword? name with
  | some anchor => some (single anchor)
  | none =>
      [("size", size), ("center", center), ("edges", edges),
        ("fillHorizontally", fillHorizontally), ("fillVertically", fillVertically),
        ("before", before), ("after", after), ("above", above), ("below", below)].lookup name

/-- The anchors that a keyword stands for, in order, each with the anchor of the target that is
meant when none is written. -/
def expansion : AnchorKeyword → List (Anchor × Anchor)
  | single a => [(a, a)]
  | size => [(.width, .width), (.height, .height)]
  | center => [(.centerX, .centerX), (.centerY, .centerY)]
  | edges => [(.left, .left), (.right, .right), (.top, .top), (.bottom, .bottom)]
  | fillHorizontally => [(.left, .left), (.right, .right)]
  | fillVertically => [(.top, .top), (.bottom, .bottom)]
  | before => [(.trailing, .leading)]
  | after => [(.leading, .trailing)]
  | above => [(.bottom, .top)]
  | below => [(.top, .bottom)]

end AnchorKeyword

end ViewMarkup
