import ViewMarkup.Document.Basic
import ViewMarkup.Style.Cascade

/-!
# The properties of a definition's elements

## Main definitions

* `StyleSheets.resolve`, `StyleSheets.resolveRoot` — the cascade for an element of a definition, and
  for the definition's own root, which is a plain container and calls no styles.
-/

namespace ViewMarkup.StyleSheets

/-- The properties of an element of a definition. -/
def resolve (s : StyleSheets) (d : Definition) (e : Element) : Resolved :=
  s.cascade e.kind e.styles e.properties d.styles

/-- The properties of a definition's own root. -/
def resolveRoot (s : StyleSheets) (d : Definition) : Resolved :=
  s.cascade .container [] d.properties d.styles

end ViewMarkup.StyleSheets
