import ViewMarkup.Element.Kind
import ViewMarkup.Text.Blank

/-!
# Styles

A style is a named bundle of property texts, which may extend other styles. Styles are declared
within a document or in shared groups. Their texts are read only when a style is applied, because
every kind of element has its own types.

## Main definitions

* `Style`, `StyleGroup`, `StyleReference`.
* `StyleReference.ofText`, `StyleReference.listOfText`.
-/

namespace ViewMarkup

/-- A named bundle of property texts. -/
structure Style where
  /-- The name. -/
  name : String
  /-- The kind that the declaring tag names. -/
  kind : Kind
  /-- The references to the styles that are applied before this one, in order. -/
  parents : List String := []
  /-- The property names with their texts, in the order declared. -/
  entries : List (String × String) := []
deriving Repr, DecidableEq

/-- The styles of one shared sheet. -/
structure StyleGroup where
  /-- The name by which references call the group. -/
  name : String
  /-- The styles in the order declared. -/
  styles : List Style
deriving Repr, DecidableEq

/-- The first style of a group with a given name. -/
def StyleGroup.find? (g : StyleGroup) (name : String) : Option Style :=
  g.styles.find? fun s => s.name = name

/-- A reference to a style. -/
inductive StyleReference where
  /-- A style of a named group. -/
  | shared (group name : String)
  /-- A style by its name alone. -/
  | plain (name : String)
deriving Repr, DecidableEq

namespace StyleReference

/-- Reads one reference: a colon stands between a group and a name. -/
def ofText (text : String) : StyleReference :=
  match Text.cutAt? ':' text.toList with
  | some (group, name) =>
      shared (String.ofList (Text.trimChars group)) (String.ofList (Text.trimChars name))
  | none => plain (Text.trim text)

/-- Commas and blanks stand between the references of a list. -/
def isSeparator (c : Char) : Bool := c == ',' || Text.isBlank c

/-- Reads a list of references. -/
def listOfText (text : String) : List StyleReference :=
  (Text.words isSeparator text).map ofText

/-- A reference as markup writes it. -/
def text : StyleReference → String
  | shared group name => group ++ ":" ++ name
  | plain name => name

/-- The name without the group. -/
def name : StyleReference → String
  | shared _ name => name
  | plain name => name

/-- Whether a reference names a group. -/
def isShared : StyleReference → Bool
  | shared _ _ => true
  | plain _ => false

end StyleReference

end ViewMarkup
