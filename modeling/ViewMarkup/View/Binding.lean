import ViewMarkup.Table
import ViewMarkup.View.Tree

/-!
# Bindings of components to live views

A binding ties a component to the node under which its markup is applied. It knows the nodes that
the component holds as fields, which outlive every application, and the constraints that the last
application captured under a name.

## Main definitions

* `ConstraintHandle`, `Binding`, `Binding.captured?`.
-/

namespace ViewMarkup

/-- Where a captured constraint is found: a node and a position among its constraints. -/
structure ConstraintHandle where
  /-- The node. -/
  node : NodeId
  /-- The position. -/
  index : Nat
deriving Repr, DecidableEq

/-- A component that markup is applied to. -/
structure Binding where
  /-- The node under which markup is applied. -/
  node : NodeId
  /-- The type of the component. -/
  typeName : String
  /-- Whether missing fields are created instead of being an error. -/
  adopts : Bool
  /-- The nodes that the component holds, by field. -/
  fields : Table String NodeId := {}
  /-- The constraints captured by the last application, by name. -/
  captured : Table String ConstraintHandle := {}
deriving Repr, DecidableEq

namespace Binding

/-- A binding whose fields must all be there. -/
def strict (node : NodeId) (typeName : String) : Binding := { node, typeName, adopts := false }

/-- A binding that creates its fields when they are first needed. -/
def adopting (node : NodeId) (typeName : String) : Binding := { node, typeName, adopts := true }

/-- The constraint captured under a name, if its node is still there. -/
def captured? {H : Type} (b : Binding) (t : ViewTree H) (name : String) : Option LiveConstraint :=
  (b.captured.get? name).bind fun h => (t.get? h.node).bind fun n => n.constraints[h.index]?

end Binding

end ViewMarkup
