import ViewMarkup.Element.Kind
import ViewMarkup.Value.Basic

/-!
# The catalogue of properties

Each kind accepts the properties of a fixed sequence of layers, the most general first: every
element is a view, some are controls, and then come the properties of the kind itself. A name in a
later layer hides the same name in an earlier one.

## Main definitions

* `Catalogue.layers` — the layers of a kind.
* `Catalogue.properties` — all properties of a kind, each name once.
* `Catalogue.lookup?` — the type of a property.
-/

namespace ViewMarkup.Catalogue

/-- A property name with the type of its values. -/
abbrev Entry := String × ValueType

/-- What every element accepts. -/
def view : List Entry :=
  [("backgroundColor", .color), ("tintColor", .color), ("alpha", .double), ("hidden", .bool),
    ("clipsToBounds", .bool), ("userInteractionEnabled", .bool), ("cornerRadius", .double),
    ("borderWidth", .double), ("borderColor", .color), ("frame", .rect),
    ("layoutMargins", .edgeInsets), ("tag", .integer), ("accessibilityIdentifier", .string),
    ("accessibilityLabel", .string)]

/-- What every control accepts. -/
def control : List Entry := [("enabled", .bool), ("selected", .bool), ("highlighted", .bool)]

/-- What every element that shows text accepts. -/
def text : List Entry :=
  [("text", .string), ("textColor", .color), ("font", .font),
    ("textAlignment", .choice .textAlignment)]

/-- The properties of labels. -/
def label : List Entry :=
  [("numberOfLines", .integer), ("lineBreakMode", .choice .lineBreakMode),
    ("adjustsFontSizeToFitWidth", .bool), ("minimumScaleFactor", .double)]

/-- The properties of text fields. -/
def textField : List Entry :=
  [("placeholder", .string), ("secureTextEntry", .bool), ("clearsOnBeginEditing", .bool)]

/-- The properties of buttons. -/
def button : List Entry :=
  [("title", .string), ("titleColor", .color), ("font", .font), ("image", .image),
    ("backgroundImage", .image), ("contentEdgeInsets", .edgeInsets)]

/-- The properties of image views. -/
def imageView : List Entry :=
  [("image", .image), ("highlightedImage", .image), ("contentMode", .choice .contentMode)]

/-- What every element that scrolls accepts. -/
def scrollView : List Entry :=
  [("contentSize", .size), ("contentOffset", .point), ("contentInset", .edgeInsets),
    ("bounces", .bool), ("pagingEnabled", .bool), ("scrollEnabled", .bool),
    ("showsHorizontalScrollIndicator", .bool), ("showsVerticalScrollIndicator", .bool)]

/-- The properties of text views. -/
def textView : List Entry := [("editable", .bool), ("selectable", .bool)]

/-- The properties of list views. -/
def listView : List Entry :=
  [("rowHeight", .double), ("estimatedRowHeight", .double), ("separatorColor", .color),
    ("allowsSelection", .bool)]

/-- The properties of stacks. -/
def stackView : List Entry :=
  [("axis", .choice .axis), ("distribution", .choice .distribution),
    ("alignment", .choice .alignment), ("spacing", .double),
    ("layoutMarginsRelativeArrangement", .bool)]

/-- The properties of activity indicators. -/
def activityIndicator : List Entry :=
  [("activityIndicatorViewStyle", .choice .activityIndicatorStyle), ("color", .color),
    ("hidesWhenStopped", .bool), ("animating", .bool)]

/-- The properties of switches. -/
def switch : List Entry := [("on", .bool), ("onTintColor", .color), ("thumbTintColor", .color)]

/-- The properties of sliders. -/
def slider : List Entry :=
  [("value", .float), ("minimumValue", .float), ("maximumValue", .float), ("continuous", .bool),
    ("minimumTrackTintColor", .color), ("maximumTrackTintColor", .color)]

/-- The properties of steppers. -/
def stepper : List Entry :=
  [("value", .double), ("minimumValue", .double), ("maximumValue", .double),
    ("stepValue", .double), ("wraps", .bool), ("autorepeat", .bool)]

/-- The properties of segmented controls. -/
def segmentedControl : List Entry := [("selectedSegmentIndex", .integer), ("momentary", .bool)]

/-- The properties of page controls. -/
def pageControl : List Entry :=
  [("numberOfPages", .integer), ("currentPage", .integer), ("hidesForSinglePage", .bool),
    ("pageIndicatorTintColor", .color), ("currentPageIndicatorTintColor", .color)]

/-- The properties of search bars. -/
def searchBar : List Entry :=
  [("text", .string), ("placeholder", .string), ("prompt", .string),
    ("barStyle", .choice .barStyle), ("barTintColor", .color), ("showsCancelButton", .bool)]

/-- The layers of a kind, the most general first. -/
def layers : Kind → List (List Entry)
  | .container | .component => [view]
  | .label => [view, text, label]
  | .textField => [view, control, text, textField]
  | .button => [view, control, button]
  | .imageView => [view, imageView]
  | .scrollView => [view, scrollView]
  | .textView => [view, scrollView, text, textView]
  | .listView => [view, scrollView, listView]
  | .stackView => [view, stackView]
  | .activityIndicator => [view, activityIndicator]
  | .switch => [view, control, switch]
  | .slider => [view, control, slider]
  | .stepper => [view, control, stepper]
  | .segmentedControl => [view, control, segmentedControl]
  | .pageControl => [view, control, pageControl]
  | .searchBar => [view, searchBar]

/-- Adds an entry at the end, or in the place of the entry with the same name. -/
def place (entries : List Entry) (entry : Entry) : List Entry :=
  if entries.any fun e => e.1 = entry.1 then
    entries.map fun e => if e.1 = entry.1 then entry else e
  else entries ++ [entry]

/-- Every property of a kind once, in the order of first appearance, with the type of the last
appearance. -/
def properties (kind : Kind) : List Entry := (layers kind).flatten.foldl place []

/-- The type of a property of a kind: that of the last layer that names it. -/
def lookup? (kind : Kind) (name : String) : Option ValueType :=
  (layers kind).reverse.findSome? fun layer => layer.lookup name

end ViewMarkup.Catalogue
