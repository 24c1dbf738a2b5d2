import ViewMarkup.Constraint.Anchor
import ViewMarkup.Number.Text

/-!
# What can be wrong with a layout attribute

Every cause carries the offending fragment of the attribute, so that a report can point at it.

## Main definitions

* `LayoutError` and its wording `LayoutError.message`.
-/

namespace ViewMarkup

/-- A reason to refuse a layout attribute. -/
inductive LayoutError where
  /-- The attribute is no anchor keyword. -/
  | unknownAttribute (name : String)
  /-- A colon with a word that is no relation. -/
  | unknownRelation (text : String)
  /-- A point after the target without an anchor behind it. -/
  | unknownTargetAnchor (text : String)
  /-- A call of something that is no modifier. -/
  | unknownModifier (name : String)
  /-- A modifier with an unusable argument. -/
  | invalidModifier (modifier fragment : String)
  /-- A priority that is neither a name nor a number between 0 and 1000. -/
  | unknownPriority (text : String)
  /-- A written target anchor on a keyword that stands for several anchors. -/
  | ambiguousTargetAnchor (keyword targetAnchor : String)
  /-- A number as the target of an anchor that is no dimension. -/
  | numericTargetNotAllowed (keyword : String) (value : Float)
  /-- A character that begins no token. -/
  | unexpectedCharacter (fragment : Char) (position : Nat)
  /-- A token where the constraint should have gone on differently or ended. -/
  | unexpectedToken (text : String)
  /-- The constraint ends too early. -/
  | unexpectedEnd (missing : String)
deriving Repr

namespace LayoutError

/-- The wording of an error. -/
def message : LayoutError → String
  | unknownAttribute name => "unknown layout attribute `" ++ name ++ "`"
  | unknownRelation text => "unknown relation `" ++ text ++ "`"
  | unknownTargetAnchor text => "unknown target anchor `" ++ text ++ "`"
  | unknownModifier name => "unknown modifier `" ++ name ++ "`"
  | invalidModifier modifier fragment =>
      "invalid argument for modifier `" ++ modifier ++ "`: `" ++ fragment ++ "`"
  | unknownPriority text => "unknown priority `" ++ text ++ "`"
  | ambiguousTargetAnchor keyword targetAnchor =>
      "`" ++ keyword ++ "` expands to several anchors and cannot take the explicit target anchor `"
        ++ targetAnchor ++ "`"
  | numericTargetNotAllowed keyword value =>
      "numeric target `" ++ Number.text value
        ++ "` is only valid for width, height or size, not `" ++ keyword ++ "`"
  | unexpectedCharacter fragment position =>
      "unexpected character `" ++ fragment.toString ++ "` at offset " ++ Nat.repr position
  | unexpectedToken text => "unexpected `" ++ text ++ "` in constraint"
  | unexpectedEnd missing => "unexpected end of constraint: " ++ missing

end LayoutError

end ViewMarkup
