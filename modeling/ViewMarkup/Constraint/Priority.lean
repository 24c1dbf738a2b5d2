import ViewMarkup.Constraint.Error

/-!
# Priorities

The weight of a constraint, and of an element's resistance to being compressed or stretched, on a
scale from 0 to 1000 with four named steps.

## Main definitions

* `Priority`, its `value` on the scale and its reader `Priority.ofText`.
* `AxisPriorities` — what an element declares for its two axes.
-/

namespace ViewMarkup

/-- A priority: one of the named steps, or a number. -/
inductive Priority where
  | required
  | high
  | medium
  | low
  | custom (value : Float32)
deriving Repr, BEq

namespace Priority

/-- The place of a priority on the scale. -/
def value : Priority → Float32
  | required => 1000
  | high => 750
  | medium => 500
  | low => 250
  | custom v => v

/-- Whether a number lies on the scale; the undefined number does not. -/
def onScale (v : Float32) : Bool := 0 ≤ v && v ≤ 1000

/-- Reads the name of a step or a number on the scale. A number is kept as a number, also where it
equals a named step. -/
def ofText (text : String) : Except LayoutError Priority :=
  match [("required", required), ("high", high), ("medium", medium), ("low", low)].lookup text with
  | some p => .ok p
  | none =>
      match Number.singleOfText? text with
      | some v => if onScale v then .ok (custom v) else .error (.unknownPriority text)
      | none => .error (.unknownPriority text)

end Priority

/-- Priorities declared per axis; an axis without one keeps its default. -/
structure AxisPriorities where
  /-- The priority along the horizontal axis. -/
  horizontal : Option Priority := none
  /-- The priority along the vertical axis. -/
  vertical : Option Priority := none
deriving Repr, BEq

namespace AxisPriorities

/-- One priority for both axes. -/
def both (p : Priority) : AxisPriorities := ⟨some p, some p⟩

/-- Whether no axis has a priority. -/
def isEmpty (a : AxisPriorities) : Bool := a.horizontal.isNone && a.vertical.isNone

end AxisPriorities

end ViewMarkup
