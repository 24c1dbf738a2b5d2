import ViewMarkup.Table
import ViewMarkup.Text.Blank
import ViewMarkup.Text.Quoted
import ViewMarkup.View.Basic

/-!
# Capabilities of a host

A host says which properties of which kinds it can set and which elements it can create. What is
not registered is not guessed.

## Main definitions

* `SetOutcome`, `Setter`.
* `Capabilities`, `Capabilities.builtin`, `Capabilities.create?`, `Capabilities.set`.
-/

namespace ViewMarkup

/-- The outcome of setting a property. -/
inductive SetOutcome (H : Type) where
  /-- The element with the property set. -/
  | applied (element : VisualElement H)
  /-- The element has no such property. -/
  | unsupported
  /-- The property does not take the value. -/
  | rejected (message : String)

/-- Sets one property of an element. -/
abbrev Setter (H : Type) := VisualElement H → Value → SetOutcome H

/-- A setter for elements that record their properties; it works on no other element. -/
def Setter.onGeneric {H : Type} (f : GenericElement → Value → GenericElement) : Setter H
  | .generic e, v => .applied (.generic (f e v))
  | .host _, _ => .unsupported

/-- A setter for the widgets of the host; it works on no other element. -/
def Setter.onHost {H : Type} (f : H → Value → Except String H) : Setter H
  | .host w, v =>
      match f w v with
      | .ok w => .applied (.host w)
      | .error message => .rejected message
  | .generic _, _ => .unsupported

/-- What a host can set and create. -/
structure Capabilities (H : Type) where
  /-- The setters, by kind and property. -/
  setters : Table (Kind × String) (Setter H) := {}
  /-- A fresh element for each type that the host registers. -/
  factories : Table String (VisualElement H) := {}
  /-- A fresh element for each kind without one of the host's own. -/
  builtins : Table Kind (VisualElement H) := {}

namespace Capabilities

variable {H : Type}

/-- The capabilities with a setter added or replaced. -/
def addSetter (c : Capabilities H) (kind : Kind) (property : String) (setter : Setter H) :
    Capabilities H :=
  { c with setters := c.setters.insert (kind, property) setter }

/-- The capabilities with the element of a type added or replaced. -/
def addFactory (c : Capabilities H) (typeName : String) (element : VisualElement H) :
    Capabilities H :=
  { c with factories := c.factories.insert typeName element }

/-- The capabilities with the element of a kind added or replaced. -/
def addBuiltin (c : Capabilities H) (kind : Kind) (element : VisualElement H) : Capabilities H :=
  { c with builtins := c.builtins.insert kind element }

/-- A setter that records the value under the property's name. -/
def storing (property : String) : Setter H := .onGeneric fun e v => e.set property v

/-- A recording element for every kind but components, and a recording setter for every property of
the catalogue. -/
def builtin : Capabilities H where
  setters :=
    Kind.all.foldl (fun t kind => (Catalogue.properties kind).foldl
      (fun t entry => t.insert (kind, entry.1) (storing entry.1)) t) {}
  builtins :=
    (Kind.all.filter (· ≠ .component)).foldl
      (fun t kind => t.insert kind (.generic (.ofKind kind))) {}

/-- The registered types, in order of name. -/
def typeNames (c : Capabilities H) : List String :=
  c.factories.keys.mergeSort fun a b => decide (a ≤ b)

/-- A fresh element of a registered type. -/
def create? (c : Capabilities H) (typeName : String) : Option (VisualElement H) :=
  c.factories.get? typeName

/-- A fresh element of a kind; a type registered under the kind's tag comes first. -/
def createPrimitive? (c : Capabilities H) (kind : Kind) : Option (VisualElement H) :=
  (c.create? kind.tag).or (c.builtins.get? kind)

/-- Sets a property of an element that stands for the given kind. -/
def set (c : Capabilities H) (kind : Kind) (element : VisualElement H) (property : Property) :
    SetOutcome H :=
  match c.setters.get? (kind, property.name) with
  | some setter => setter element property.value
  | none => .unsupported

/-- One line about what is registered: how many setters, which types in order, how many kinds. -/
def summary (c : Capabilities H) : String :=
  "CapabilityRegistry \x7b setters: " ++ toString c.setters.size ++ ", factories: ["
    ++ Text.join ", " (c.typeNames.map Text.quoted) ++ "], builtins: " ++ toString c.builtins.size
    ++ " \x7d"

end Capabilities

end ViewMarkup
