import ViewMarkup.Document.Basic
import ViewMarkup.Document.Names
import ViewMarkup.Document.Styles

/-!
# Definitions in documents

The root of a document declares the type of a component and the properties of its root view; the
tags inside are its elements. Property attributes that the catalogue does not know or cannot read
are left out, and a document is not refused for them; faults in layout attributes and in the
structure are errors.

## Main definitions

* `Declared.ofAttributes` — what the attributes of an element declare.
* `Definition.ofText` — reads a document.
* `Xml.Node.notices` — the property attributes that are left out.
-/

namespace ViewMarkup

/-- The tag of a component. -/
def componentTag : String := "Component"

/-- The tag of a list's row. -/
def cellTag : String := "cell"

/-- What an attribute of an element is for. -/
inductive AttributeRole where
  /-- A layout attribute of the given name. -/
  | layout (name : String)
  /-- The field that holds the element. -/
  | field
  /-- The references to styles. -/
  | style
  /-- Nothing on the element itself. -/
  | ignored
  /-- A property. -/
  | property
deriving Repr, DecidableEq

/-- What an attribute of an element is for, by its key. -/
def AttributeRole.ofKey (key : String) : AttributeRole :=
  match Text.after? "layout:".toList key.toList with
  | some name => .layout (String.ofList name)
  | none =>
      if key = "field" then .field
      else if key = "style" then .style
      else if key = "type" ∨ key = "cell" ∨ Text.startsWith "xmlns" key then .ignored
      else .property

/-- What the attributes of an element declare. -/
structure Declared where
  /-- The field that holds the element. -/
  field : Option String := none
  /-- The layout. -/
  layout : Layout := {}
  /-- The properties that can be read. -/
  properties : List Property := []
  /-- The references to styles. -/
  styles : List StyleReference := []

namespace Declared

/-- What is declared after one more attribute. -/
def add (kind : Kind) (tag : String) (d : Declared) (entry : Xml.Attribute) :
    Except DocumentError Declared :=
  match AttributeRole.ofKey entry.1 with
  | .layout name =>
      match d.layout.set name entry.2 with
      | .ok layout => .ok { d with layout }
      | .error e => .error (.layout tag e)
  | .field => .ok { d with field := some (Text.trim entry.2) }
  | .style => .ok { d with styles := StyleReference.listOfText entry.2 }
  | .ignored => .ok d
  | .property =>
      match Catalogue.read kind entry.1 entry.2 with
      | .ok p => .ok { d with properties := d.properties ++ [p] }
      | .error _ => .ok d

/-- What the attributes of an element declare. -/
def ofAttributes (kind : Kind) (tag : String) (attributes : List Xml.Attribute) :
    Except DocumentError Declared :=
  attributes.foldlM (add kind tag) {}

/-- Takes a name in the scope of a type. -/
def declare (typeName : String) (names : Names) (name : String) : Except DocumentError Names :=
  match names.declare? name with
  | some names => .ok names
  | none => .error (.duplicateName name typeName)

/-- Takes the field and the layout id in a scope; a field and an id that are equal count once. -/
def takeNames (d : Declared) (typeName : String) (names : Names) : Except DocumentError Names := do
  let names ←
    match d.field with
    | some field => declare typeName names field
    | none => .ok names
  match d.layout.id with
  | some id => if d.field = some id then .ok names else declare typeName names id
  | none => .ok names

/-- The name of an element and the names taken with it. -/
def name (d : Declared) (typeName tag : String) (names : Names) :
    Except DocumentError (String × Names) := do
  let names ← d.takeNames typeName names
  match d.field.or d.layout.id with
  | some name => .ok (name, names)
  | none => .ok (names.makeUp tag)

end Declared

/-- What a nested definition takes over from its surroundings. -/
structure Surroundings where
  /-- The styles of the document. -/
  styles : List Style
  /-- The type whose scope the elements belong to. -/
  typeName : String

/-- The definition in place of an element: it has the type that is written, or one made up from the
type around it and the name of the element. -/
def Surroundings.inline (around : Surroundings) (written : Option String) (name : String)
    (children : List Element) : Definition where
  typeName := written.getD (around.typeName ++ "_" ++ name)
  isRoot := false
  isAnonymous := written.isNone
  styles := around.styles
  properties := []
  children := children

/-- The reference of an element to a component: to a definition in place if it has elements, else
to the type that is written. -/
def Surroundings.reference (around : Surroundings) (written : Option String) (name : String) :
    List Element → Option TypeReference
  | [] => written.map .named
  | children => some (.inline (around.inline written name children))

/-- The surroundings inside a definition in place. -/
def Surroundings.inside (around : Surroundings) (written : Option String) (name : String) :
    Surroundings :=
  { around with typeName := (around.inline written name []).typeName }

mutual

/-- The element of a tag without blocks of styles, and the names taken after it. -/
def Element.ofNode (around : Surroundings) (names : Names) :
    Xml.Node → Except DocumentError (Element × Names)
  | ⟨tag, attributes, children⟩ => do
      match Kind.ofTag? tag with
      | none => .error (.unknownElement tag)
      | some kind =>
          let d ← Declared.ofAttributes kind tag attributes
          let (name, names) ← d.name around.typeName tag names
          let element : Element :=
            ⟨kind, d.field, d.layout, d.properties, d.styles, [], none, name⟩
          if kind.acceptsChildren then
            let (children, names) ← Element.ofNodes around names children
            .ok ({ element with children }, names)
          else
            match kind, children with
            | .component, children =>
                let written := attributes.lookup "type"
                let (inner, _) ← Element.ofNodes (around.inside written name) {} children
                match around.reference written name inner with
                | some r => .ok ({ element with reference := some r }, names)
                | none => .error (.missingAttribute tag "type")
            | .listView, [] =>
                .ok ({ element with reference := (attributes.lookup "cell").map .named }, names)
            | .listView, [⟨childTag, childAttributes, rows⟩] =>
                if childTag = cellTag then
                  let written := childAttributes.lookup "type"
                  let (inner, _) ← Element.ofNodes (around.inside written name) {} rows
                  .ok ({ element with reference := around.reference written name inner }, names)
                else .error (.unexpectedChildren tag)
            | _, [] => .ok (element, names)
            | _, _ :: _ => .error (.unexpectedChildren tag)

/-- The elements of tags in order, and the names taken after them. -/
def Element.ofNodes (around : Surroundings) (names : Names) :
    List Xml.Node → Except DocumentError (List Element × Names)
  | [] => .ok ([], names)
  | n :: ns => do
      let (element, names) ← Element.ofNode around names n
      let (elements, names) ← Element.ofNodes around names ns
      .ok (element :: elements, names)

end

namespace Definition

/-- Whether an attribute of the root is a property of the component's root view. -/
def isRootProperty (key : String) : Bool :=
  key ≠ "type" && key ≠ "rootView" && !Text.startsWith "xmlns" key
    && !Text.startsWith "layout:" key

/-- The properties among the attributes of the root. -/
def rootProperties (attributes : List Xml.Attribute) : List Property :=
  attributes.filterMap fun (key, value) =>
    if isRootProperty key then (Catalogue.read .container key value).toOption else none

/-- The definition that the root of a document declares. -/
def ofRoot (root : Xml.Node) : Except DocumentError Definition := do
  if root.tag ≠ componentTag then .error (.unexpectedRoot componentTag root.tag)
  else
    let typeName ← root.require "type"
    let styles ← root.styles
    let (children, _) ← Element.ofNodes ⟨styles, typeName⟩ {} root.withoutStyles.children
    .ok {
      typeName
      isRoot := (root.get? "rootView").any fun value => Text.trim value = "true"
      isAnonymous := false
      styles
      properties := rootProperties root.attributes
      children }

/-- Reads a document that defines a component. -/
def ofText (text : String) : Except DocumentError Definition := do ofRoot (← Xml.Node.read text)

/-- The definition in a text that is given by its characters. -/
theorem ofText_ofList (cs : List Char) :
    ofText (String.ofList cs) = ((Xml.Node.ofEvents (Xml.Event.ofChars []
      (if cs.head? = some '\ufeff' then cs.tail else cs))).mapError .tree).bind ofRoot := by
  rw [ofText, Xml.Node.read_ofList]
  rfl

end Definition

/-- A property attribute that is left out. -/
structure Notice where
  /-- The kind of element. -/
  kind : Kind
  /-- The key of the attribute. -/
  property : String
  /-- Why it is left out. -/
  error : PropertyError
deriving Repr, DecidableEq

namespace Notice

/-- The notice of an attribute that is to be a property of the given kind. -/
def ofAttribute? (kind : Kind) (entry : Xml.Attribute) : Option Notice :=
  match Catalogue.read kind entry.1 entry.2 with
  | .ok _ => none
  | .error e => some ⟨kind, entry.1, e⟩

end Notice

namespace Xml.Node

mutual

/-- The notices of an element and of the elements inside it, in document order. -/
def notices : Node → List Notice
  | ⟨tag, attributes, children⟩ =>
      (match Kind.ofTag? tag with
        | some kind =>
            (attributes.filter fun a => AttributeRole.ofKey a.1 = .property).filterMap
              (Notice.ofAttribute? kind)
        | none => [])
      ++ noticesOf children

/-- The notices of elements, one after the other. -/
def noticesOf : List Node → List Notice
  | [] => []
  | n :: ns => notices n ++ noticesOf ns

end

/-- The notices of a document: those of its elements, and then those of its root. -/
def documentNotices (root : Node) : List Notice :=
  noticesOf root.withoutStyles.children
    ++ (root.attributes.filter fun a => Definition.isRootProperty a.1).filterMap
      (Notice.ofAttribute? .container)

end Xml.Node

end ViewMarkup
