import ViewMarkup.Constraint.Layout
import ViewMarkup.Element.Property

/-!
# Live views

A live view is a node of a tree that exists beside the markup. It holds a visual element, which is
either one that merely records its properties or a widget of the host program, and it carries the
constraints and priorities that markup gave it.

## Main definitions

* `Widget` — what a host's own widgets must offer.
* `VisualElement`, `GenericElement`.
* `NodeId`, `LiveTarget`, `LiveConstraint`, `ViewNode`.
-/

namespace ViewMarkup

/-- The widgets of a host program. -/
class Widget (H : Type) where
  /-- The name of a widget's type. -/
  typeName : H → String

/-- A host without widgets of its own. -/
instance : Widget Empty := ⟨Empty.elim⟩

/-- An element that records the properties assigned to it. -/
structure GenericElement where
  /-- The name of its type. -/
  typeName : String
  /-- The kind that it stands for; none for the wrapper of a component. -/
  kind : Option Kind
  /-- The properties, each name once. -/
  properties : List Property := []
deriving Repr, BEq

namespace GenericElement

/-- An element of a kind. -/
def ofKind (kind : Kind) : GenericElement := { typeName := kind.tag, kind := some kind }

/-- A wrapper for a component of the given type. -/
def wrapper (typeName : String) : GenericElement := { typeName, kind := none }

/-- The element with a property assigned. -/
def set (e : GenericElement) (name : String) (value : Value) : GenericElement :=
  { e with properties := Property.assign ⟨name, value⟩ e.properties }

/-- The value of a property. -/
def get? (e : GenericElement) (name : String) : Option Value := Property.find? name e.properties

end GenericElement

/-- A visual element. -/
inductive VisualElement (H : Type) where
  /-- One that records its properties. -/
  | generic (element : GenericElement)
  /-- A widget of the host. -/
  | host (widget : H)
deriving Repr, BEq

/-- The name of an element's type. -/
def VisualElement.typeName {H : Type} [Widget H] : VisualElement H → String
  | generic e => e.typeName
  | host w => Widget.typeName w

/-- The identity of a node. Identities are numbered in the order in which nodes come into being and
are never used again. -/
structure NodeId where
  /-- The number. -/
  index : Nat
deriving Repr, DecidableEq

/-- What an active constraint relates to. -/
inductive LiveTarget where
  | node (id : NodeId)
  | constant (value : Float)
deriving Repr, BEq

/-- A constraint in force: the constraint as declared, with what its target turned out to be. -/
structure LiveConstraint where
  /-- The constraint as declared. -/
  declared : Constraint
  /-- What it relates to. -/
  target : LiveTarget
deriving Repr, BEq

/-- A priority for each axis. -/
structure AxisPair where
  /-- The priority along the horizontal axis. -/
  horizontal : Priority
  /-- The priority along the vertical axis. -/
  vertical : Priority
deriving Repr, BEq

namespace AxisPair

/-- The same priority for both axes. -/
def both (p : Priority) : AxisPair := ⟨p, p⟩

/-- How much a view resists compression by default. -/
def defaultCompression : AxisPair := both .high

/-- How closely a view hugs its content by default. -/
def defaultHugging : AxisPair := both .low

/-- A pair with the declared priorities in place of its own. -/
def overriddenBy (p : AxisPair) (declared : AxisPriorities) : AxisPair :=
  ⟨declared.horizontal.getD p.horizontal, declared.vertical.getD p.vertical⟩

end AxisPair

/-- What a node of the live tree holds, apart from its place in the tree. -/
structure ViewNode (H : Type) where
  /-- The visual element. -/
  element : VisualElement H
  /-- The name of the markup element behind the node. -/
  name : Option String := none
  /-- The constraints in force. -/
  constraints : List LiveConstraint := []
  /-- The resistance to compression. -/
  compression : AxisPair := .defaultCompression
  /-- The hugging of the content. -/
  hugging : AxisPair := .defaultHugging
deriving Repr, BEq

end ViewMarkup
