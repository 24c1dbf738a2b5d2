/-!
# Kinds of element

The closed list of elements that markup can place, each with its tag.

## Main definitions

* `Kind`, with `Kind.tag` and `Kind.ofTag?`.
* `Kind.acceptsChildren`, `Kind.arrangesChildren`.
-/

namespace ViewMarkup

/-- The kinds of element. -/
inductive Kind where
  /-- A plain view that holds others. -/
  | container
  | label
  | textField
  | button
  | imageView
  | scrollView
  /-- A view that lines up its children. -/
  | stackView
  | activityIndicator
  | textView
  | listView
  | switch
  | slider
  | stepper
  | segmentedControl
  | pageControl
  | searchBar
  /-- A reference to a component, declared elsewhere or in place. -/
  | component
deriving Repr, DecidableEq

namespace Kind

/-- The tag of a kind in markup. -/
def tag : Kind → String
  | container => "View"
  | label => "Label"
  | textField => "TextField"
  | button => "Button"
  | imageView => "ImageView"
  | scrollView => "ScrollView"
  | stackView => "StackView"
  | activityIndicator => "ActivityIndicator"
  | textView => "TextView"
  | listView => "ListView"
  | switch => "Switch"
  | slider => "Slider"
  | stepper => "Stepper"
  | segmentedControl => "SegmentedControl"
  | pageControl => "PageControl"
  | searchBar => "SearchBar"
  | component => "Component"

/-- Every kind once. -/
def all : List Kind :=
  [container, label, textField, button, imageView, scrollView, stackView, activityIndicator,
    textView, listView, switch, slider, stepper, segmentedControl, pageControl, searchBar,
    component]

/-- The kind with a given tag. A plain view may also be written as a container. -/
def ofTag? (word : String) : Option Kind :=
  if word = "Container" then some container else all.find? fun k => k.tag = word

/-- Whether markup may nest elements in this kind. -/
def acceptsChildren : Kind → Bool
  | container | scrollView | stackView => true
  | _ => false

/-- Whether the kind lines up its children itself. -/
def arrangesChildren : Kind → Bool
  | stackView => true
  | _ => false

end Kind

end ViewMarkup
