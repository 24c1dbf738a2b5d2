import ViewMarkup.Constraint.Clause

/-!
# Constraints

A layout attribute holds clauses separated by semicolons; each clause yields one constraint for
every anchor that the attribute's keyword stands for. An attribute without any clause means one
empty clause, which relates the anchors to the parent's.

## Main definitions

* `Constraint` — one relation between two anchors, with the modifiers worked out.
* `Clause.expand` — the constraints of a clause under a keyword.
* `Constraint.ofText` — the constraints of an attribute.
-/

namespace ViewMarkup

/-- A relation of an anchor with a target: `anchor relation target * multiplier + constant`. -/
structure Constraint where
  /-- The name under which the constraint is captured. -/
  captureName : Option String := none
  /-- The anchor that is constrained. -/
  anchor : Anchor
  /-- The target. -/
  target : Target := .parent
  /-- The anchor of the target; a number has none. -/
  targetAnchor : Option Anchor
  /-- How the two sides compare. -/
  relation : Relation := .equal
  /-- The factor of the target. -/
  multiplier : Float := 1.0
  /-- What is added to the target. -/
  constant : Float := 0.0
  /-- The weight of the constraint. -/
  priority : Priority := .required
deriving Repr, BEq

namespace Constraint

/-- The anchor equals the same anchor of the parent. -/
def toParent (a : Anchor) : Constraint := { anchor := a, targetAnchor := some a }

end Constraint

namespace Modifier

/-- The multiplier after a modifier. -/
def onMultiplier (m : Modifier) (multiplier : Float) : Float :=
  match m.kind with
  | .multiplied => multiplier * m.amount
  | .divided => multiplier / m.amount
  | .offset | .inset => multiplier

/-- The constant after a modifier; an inset is signed by the anchor. -/
def onConstant (a : Anchor) (m : Modifier) (constant : Float) : Float :=
  match m.kind with
  | .offset => constant + m.amount
  | .inset => constant + m.amount * a.insetSign
  | .multiplied | .divided => constant

end Modifier

namespace Clause

/-- The constraint of a clause for one anchor, given the target anchor that is meant when none is
written. -/
def forAnchor (c : Clause) (a default : Anchor) : Constraint where
  captureName := c.captureName
  anchor := a
  target := c.target
  targetAnchor := if c.target.isConstant then none else some (c.targetAnchor.getD default)
  relation := c.relation
  multiplier := c.modifiers.foldl (fun x m => m.onMultiplier x) 1.0
  constant := c.modifiers.foldl (fun x m => m.onConstant a x) 0.0
  priority := c.priority

/-- The constraints of a clause under a keyword. A target anchor can be written only where the
keyword stands for one anchor, a number only where every anchor is a dimension. -/
def expand (name : String) (keyword : AnchorKeyword) (c : Clause) :
    Except LayoutError (List Constraint) :=
  let anchors := keyword.expansion
  match c.targetAnchor, c.target with
  | some a, target =>
      if 1 < anchors.length then .error (.ambiguousTargetAnchor name a.keyword)
      else numeric anchors target
  | none, target => numeric anchors target
where
  /-- The constraints, unless a number meets an anchor that is no dimension. -/
  numeric (anchors : List (Anchor × Anchor)) (target : Target) :
      Except LayoutError (List Constraint) :=
    match target with
    | .constant v =>
        if anchors.all fun (a, _) => a.isDimension then
          .ok (anchors.map fun (a, default) => c.forAnchor a default)
        else .error (.numericTargetNotAllowed name v)
    | _ => .ok (anchors.map fun (a, default) => c.forAnchor a default)

end Clause

namespace Constraint

/-- The runs of tokens between semicolons that are not empty; a single empty run when there is no
other. -/
def segments (ts : List Token) : List (List Token) :=
  match (Text.pieces (fun t : Token => t.kind = .semicolon) ts).filter fun s => !s.isEmpty with
  | [] => [[]]
  | segments => segments

/-- The constraints of the segments in order; the first fault ends the reading. -/
def ofSegments (name : String) (keyword : AnchorKeyword) :
    List (List Token) → Except LayoutError (List Constraint)
  | [] => .ok []
  | segment :: segments => do
      let clause ← Clause.ofTokens segment
      let first ← clause.expand name keyword
      let others ← ofSegments name keyword segments
      .ok (first ++ others)

/-- The constraints of the attribute `name` with the given text. -/
def ofText (name text : String) : Except LayoutError (List Constraint) :=
  match AnchorKeyword.ofName? name with
  | none => .error (.unknownAttribute name)
  | some keyword => do
      let tokens ← Token.scan text
      ofSegments name keyword (segments tokens)

end Constraint

end ViewMarkup
