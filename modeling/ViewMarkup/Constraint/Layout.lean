import ViewMarkup.Constraint.Basic

/-!
# The layout of an element

What an element's layout attributes declare together: a layout id, constraints, and priorities for
its resistance to compression and for its hugging of the content.

## Main definitions

* `Layout` and `Layout.set` — the effect of one attribute.
-/

namespace ViewMarkup

/-- What the layout attributes of an element declare. -/
structure Layout where
  /-- The name by which targets refer to the element. -/
  id : Option String := none
  /-- The constraints in the order declared. -/
  constraints : List Constraint := []
  /-- The resistance to compression per axis. -/
  compression : AxisPriorities := {}
  /-- The hugging of the content per axis. -/
  hugging : AxisPriorities := {}
deriving Repr, BEq

namespace Layout

/-- The effect of one layout attribute. A priority attribute replaces earlier ones for its axes, an
id replaces an earlier id, and constraints accumulate. -/
def set (l : Layout) (name value : String) : Except LayoutError Layout :=
  let priority := Priority.ofText (Text.trim value)
  match name with
  | "id" => .ok { l with id := some (Text.trim value) }
  | "compressionPriority" => priority.map fun p => { l with compression := .both p }
  | "horizontalCompressionPriority" =>
      priority.map fun p => { l with compression := { l.compression with horizontal := some p } }
  | "verticalCompressionPriority" =>
      priority.map fun p => { l with compression := { l.compression with vertical := some p } }
  | "huggingPriority" => priority.map fun p => { l with hugging := .both p }
  | "horizontalHuggingPriority" =>
      priority.map fun p => { l with hugging := { l.hugging with horizontal := some p } }
  | "verticalHuggingPriority" =>
      priority.map fun p => { l with hugging := { l.hugging with vertical := some p } }
  | _ =>
      (Constraint.ofText name value).map fun cs => { l with constraints := l.constraints ++ cs }

end Layout

end ViewMarkup
