import ViewMarkup.Constraint.Layout
import ViewMarkup.Element.Property
import ViewMarkup.Style.Basic

/-!
# Component definitions

A document defines a component: the properties of its root, and the tree of elements inside. An
element may refer to a further component; the reference names its type, or carries the definition
in place. A definition in place is a scope of its own: the names in it are not those of the
definition around it.

## Main definitions

* `Element`, `TypeReference`, `Definition`.
* `Definition.elements` — the elements of a definition's own scope.
* `Definition.definitions` — a definition and all those in place inside it.
* `Definition.referencedTypes` — the types that it refers to at any depth.
-/

namespace ViewMarkup

mutual

/-- An element of a definition. -/
structure Element where
  /-- The kind of element. -/
  kind : Kind
  /-- The name under which the defined component holds the element. -/
  field : Option String
  /-- What the layout attributes declare. -/
  layout : Layout
  /-- The properties from the element's own attributes. -/
  properties : List Property
  /-- The references to styles. -/
  styles : List StyleReference
  /-- The elements inside. -/
  children : List Element
  /-- The component that the element stands for, or that makes up a list's rows. -/
  reference : Option TypeReference
  /-- The name within the scope: the field, else the layout id, else a name made up. -/
  name : String

/-- A reference to a component. A definition in place stands for its own name: the reader gives the
reference and the definition one name, so there is no second field that could differ from it, and
that the two agree holds by the shape of this type. -/
inductive TypeReference where
  /-- By the name of its type. -/
  | named (typeName : String)
  /-- By a definition in place. -/
  | inline (definition : Definition)

/-- The definition of a component. -/
structure Definition where
  /-- The name of the type. -/
  typeName : String
  /-- Whether the component is declared as the root of a screen. -/
  isRoot : Bool
  /-- Whether the name of the type is made up. -/
  isAnonymous : Bool
  /-- The styles of the document. -/
  styles : List Style
  /-- The properties of the component's own root. -/
  properties : List Property
  /-- The elements at the top. -/
  children : List Element

end

deriving instance Repr for Element, TypeReference, Definition
deriving instance BEq for Element, TypeReference, Definition

/-! ### Sizes of parts -/

/-- The elements inside are smaller than the element. -/
theorem Element.sizeOf_children_lt (e : Element) : sizeOf e.children < sizeOf e := by
  cases e
  simp +arith

/-- So is what it refers to. -/
theorem Element.sizeOf_reference_lt (e : Element) : sizeOf e.reference < sizeOf e := by
  cases e
  simp +arith

/-- The elements of a definition are smaller than the definition. -/
theorem Definition.sizeOf_children_lt (d : Definition) : sizeOf d.children < sizeOf d := by
  cases d
  simp +arith

namespace TypeReference

/-- The name of the type that is referred to. -/
def typeName : TypeReference → String
  | named typeName => typeName
  | inline definition => definition.typeName

/-- The definition in place. -/
def definition? : TypeReference → Option Definition
  | named _ => none
  | inline definition => some definition

/-- Whether the name of the type is made up. -/
def isAnonymous : TypeReference → Bool
  | named _ => false
  | inline definition => definition.isAnonymous

end TypeReference

namespace Element

/-- Whether the name within the scope is made up. -/
def hasMadeUpName (e : Element) : Bool := e.field.isNone && e.layout.id.isNone

/-- The definition in place that an element carries. -/
def inline? (e : Element) : Option Definition := e.reference.bind (·.definition?)

mutual

/-- An element and the elements inside, each before those inside it. Definitions in place are not
entered. -/
def walk (e : Element) : List Element :=
  match e with
  | ⟨_, _, _, _, _, children, _, _⟩ => e :: walkAll children

/-- The walks of elements, one after the other. -/
def walkAll : List Element → List Element
  | [] => []
  | e :: es => walk e ++ walkAll es

end

end Element

mutual

/-- The definitions in place inside an element, in document order. -/
def Element.definitions : Element → List Definition
  | ⟨_, _, _, _, _, children, reference, _⟩ =>
      (match reference with
        | some (.inline d) => Definition.definitions d
        | _ => [])
      ++ Element.definitionsAll children

/-- The definitions in place inside elements, one after the other. -/
def Element.definitionsAll : List Element → List Definition
  | [] => []
  | e :: es => e.definitions ++ Element.definitionsAll es

/-- A definition and all those in place inside it, each before those inside it. -/
def Definition.definitions (d : Definition) : List Definition :=
  match d with
  | ⟨_, _, _, _, _, children⟩ => d :: Element.definitionsAll children

end

mutual

/-- The names of the types that an element and what is inside it refer to, in document order and
with repetitions; a reference comes before what its definition in place refers to. -/
def Element.references : Element → List String
  | ⟨_, _, _, _, _, children, reference, _⟩ =>
      (match reference with
        | some (.inline d) => d.typeName :: Definition.references d
        | some (.named typeName) => [typeName]
        | none => [])
      ++ Element.referencesAll children

/-- The references of elements, one after the other. -/
def Element.referencesAll : List Element → List String
  | [] => []
  | e :: es => e.references ++ Element.referencesAll es

/-- The references of everything inside a definition. -/
def Definition.references : Definition → List String
  | ⟨_, _, _, _, _, children⟩ => Element.referencesAll children

end

namespace Definition

/-- The elements of a definition's own scope, each before those inside it. -/
def elements (d : Definition) : List Element := Element.walkAll d.children

/-- The first element of the scope with a given name. -/
def element? (d : Definition) (name : String) : Option Element :=
  d.elements.find? fun e => e.name = name

/-- The fields of the scope, in document order. -/
def fields (d : Definition) : List String := d.elements.filterMap (·.field)

/-- The names of the types that a definition refers to at any depth, each once, in the order of
first appearance. -/
def referencedTypes (d : Definition) : List String := d.references.eraseDups

end Definition

end ViewMarkup
