import ViewMarkup.Document.Error
import ViewMarkup.Style.Basic

/-!
# Styles in documents

A style is declared by a tag that names a kind of element followed by the word for a style. Its
attributes are its name, the styles that it extends, and the texts of its properties. Styles stand
in the blocks of a component's document, at any depth, or in a sheet of their own.

## Main definitions

* `Style.ofNode` — the style that a tag declares.
* `Xml.Node.styles` — the styles of all blocks of a document.
* `StyleGroup.ofText` — a sheet.
-/

namespace ViewMarkup

/-- The tag of a block of styles. -/
def stylesTag : String := "styles"

/-- The tag of a sheet. -/
def sheetTag : String := "styleGroup"

namespace Style

/-- The style after one of its attributes. -/
def add (s : Style) (attribute_ : String × String) : Style :=
  match attribute_ with
  | ("name", _) => s
  | ("extend", text) =>
      { s with parents := s.parents ++ Text.words StyleReference.isSeparator text }
  | entry => { s with entries := s.entries ++ [entry] }

/-- The kind that the tag of a style names. -/
def kindOfTag? (tag : String) : Option Kind := (Text.before? "Style" tag).bind Kind.ofTag?

/-- The style that a tag declares. -/
def ofNode (n : Xml.Node) : Except DocumentError Style :=
  match kindOfTag? n.tag with
  | none => .error (.unknownStyleTag n.tag)
  | some kind => (n.require "name").map fun name => n.attributes.foldl add { name, kind }

/-- The styles that tags declare, in order; the first fault ends the reading. -/
def ofNodes : List Xml.Node → Except DocumentError (List Style)
  | [] => .ok []
  | n :: ns => do
      let style ← ofNode n
      let styles ← ofNodes ns
      .ok (style :: styles)

end Style

namespace Xml.Node

mutual

/-- The tags inside all blocks of styles of an element, in document order. -/
def styleTags : Node → List Node
  | ⟨_, _, children⟩ => styleTagsOf children

/-- The tags inside the blocks among elements and inside them. -/
def styleTagsOf : List Node → List Node
  | [] => []
  | n :: ns => (if n.tag = stylesTag then n.children else styleTags n) ++ styleTagsOf ns

end

mutual

/-- An element without the blocks of styles inside it. -/
def withoutStyles : Node → Node
  | ⟨tag, attributes, children⟩ => ⟨tag, attributes, withoutStylesAll children⟩

/-- Elements without blocks of styles among and inside them. -/
def withoutStylesAll : List Node → List Node
  | [] => []
  | n :: ns =>
      if n.tag = stylesTag then withoutStylesAll ns
      else withoutStyles n :: withoutStylesAll ns

end

/-- The styles of all blocks of a document. -/
def styles (root : Node) : Except DocumentError (List Style) := Style.ofNodes root.styleTags

end Xml.Node

/-- Reads a sheet of styles. -/
def StyleGroup.ofText (text : String) : Except DocumentError StyleGroup := do
  let root ← Xml.Node.read text
  if root.tag ≠ sheetTag then .error (.unexpectedRoot sheetTag root.tag)
  else
    let name ← root.require "name"
    let styles ← Style.ofNodes root.children
    .ok ⟨name, styles⟩

/-- The sheet in a text that is given by its characters. -/
theorem StyleGroup.ofText_ofList (cs : List Char) :
    ofText (String.ofList cs) = ((Xml.Node.ofEvents (Xml.Event.ofChars []
      (if cs.head? = some '\ufeff' then cs.tail else cs))).mapError .tree).bind fun root =>
        if root.tag ≠ sheetTag then .error (.unexpectedRoot sheetTag root.tag)
        else (root.require "name").bind fun name =>
          (Style.ofNodes root.children).bind fun styles => .ok ⟨name, styles⟩ := by
  rw [ofText, Xml.Node.read_ofList]
  rfl

end ViewMarkup
