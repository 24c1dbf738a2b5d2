import ViewMarkup.Xml.Event

/-!
# The element tree of a document

The events of a document are put together into the tree of its single root element.

## Main definitions

* `Node`, `Node.ofEvents`, `Node.ofText`.
* `TreeError` — why a document has no tree.
-/

namespace ViewMarkup.Xml

/-- An element with its attributes and the elements in it, both in document order. -/
structure Node where
  /-- The name of the tag. -/
  tag : String
  /-- The attributes. -/
  attributes : List Attribute
  /-- The elements inside. -/
  children : List Node
deriving Repr

/-- Why a document has no element tree. -/
inductive TreeError where
  /-- The document cannot be read. -/
  | fault (fault : Fault)
  /-- No element was completed at the top. -/
  | empty
  /-- A second element was completed at the top. -/
  | secondRoot (tag : String)
deriving Repr, DecidableEq

namespace TreeError

/-- The wording of an error. -/
def message : TreeError → String
  | fault f => f.message
  | empty => "document has no root element"
  | secondRoot tag => "unexpected second root element <" ++ tag ++ ">"

end TreeError

namespace Node

/-- The value of the first attribute with a given name. -/
def get? (n : Node) (name : String) : Option String := n.attributes.lookup name

/-- The node with a further child at the end. -/
def append (n child : Node) : Node := { n with children := n.children ++ [child] }

/-- The state of the tree builder: the open elements, innermost first, and the root once it is
complete. -/
structure Progress where
  /-- The open elements. -/
  opened : List Node := []
  /-- The completed root. -/
  root : Option Node := none

/-- A completed element goes into the innermost open one, or becomes the root. -/
def Progress.complete (p : Progress) (n : Node) : Except TreeError Progress :=
  match p.opened, p.root with
  | parent :: opened, _ => .ok { p with opened := parent.append n :: opened }
  | [], none => .ok { p with root := some n }
  | [], some _ => .error (.secondRoot n.tag)

/-- The effect of one event. -/
def Progress.step (p : Progress) : Event → Except TreeError Progress
  | .start tag attributes => .ok { p with opened := ⟨tag, attributes, []⟩ :: p.opened }
  | .empty tag attributes => p.complete ⟨tag, attributes, []⟩
  | .stop =>
      match p.opened with
      | n :: opened => Progress.complete { p with opened } n
      | [] => .ok p
  | .other => .ok p
  | .fault f => .error (.fault f)

/-- The root that a sequence of events completes. Elements that stay open never become the root. -/
def ofEvents (events : List Event) : Except TreeError Node :=
  match events.foldlM Progress.step {} with
  | .error e => .error e
  | .ok p =>
      match p.root with
      | some n => .ok n
      | none => .error .empty

/-- The element tree of a document. -/
def ofText (text : String) : Except TreeError Node := ofEvents (Event.ofText text)

end Node

end ViewMarkup.Xml
