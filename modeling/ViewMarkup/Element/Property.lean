import ViewMarkup.Element.Catalogue

/-!
# Properties of an element

The text of a property is read by the type that the catalogue of the element's kind declares for
the property's name.

## Main definitions

* `PropertyError` and its wording.
* `Catalogue.read` — a property of a kind from its text.
* `Property.assign` — a property among others, each name once.
-/

namespace ViewMarkup

/-- Why a property or a style cannot be used. -/
inductive PropertyError where
  /-- The kind has no property of that name. -/
  | unknownProperty (name : String) (kind : Kind)
  /-- The text is no value for the property. -/
  | invalidValue (name : String) (fault : ValueFault)
  /-- No style is known under the reference. -/
  | unknownStyle (reference : String)
  /-- The style leads back to itself. -/
  | cyclicStyle (key : String)
deriving Repr, DecidableEq

namespace PropertyError

/-- The wording of an error. -/
def message : PropertyError → String
  | unknownProperty name kind => "unknown property `" ++ name ++ "` for <" ++ kind.tag ++ ">"
  | invalidValue name fault => "invalid value for " ++ name ++ ": " ++ fault.message
  | unknownStyle reference => "unknown style `" ++ reference ++ "`"
  | cyclicStyle key => "style `" ++ key ++ "` extends itself"

end PropertyError

/-- Reads the text of a named property by its type; a fault is reported under the name. -/
def ValueType.readProperty (t : ValueType) (name text : String) : Except PropertyError Property :=
  match t.read text with
  | .ok value => .ok ⟨name, value⟩
  | .error fault => .error (.invalidValue name fault)

/-- Reads a property of an element of the given kind. -/
def Catalogue.read (kind : Kind) (name text : String) : Except PropertyError Property :=
  match lookup? kind name with
  | some t => t.readProperty name text
  | none => .error (.unknownProperty name kind)

namespace Property

/-- Gives a property a value: in its place if it is among the properties, else at the end. -/
def assign (p : Property) : List Property → List Property
  | [] => [p]
  | q :: qs => if q.name = p.name then p :: qs else q :: assign p qs

/-- The value of a named property. -/
def find? (name : String) (ps : List Property) : Option Value :=
  (ps.find? fun p => p.name = name).map (·.value)

/-- An assignment gives its property the value and leaves all others alone. -/
@[simp]
theorem find?_assign (p : Property) (ps : List Property) (name : String) :
    find? name (p.assign ps) = if p.name = name then some p.value else find? name ps := by
  induction ps with
  | nil => by_cases h : p.name = name <;> simp [assign, find?, h]
  | cons q qs ih =>
      simp only [assign]
      split
      · next hq => by_cases h : p.name = name <;> simp [find?, hq, h]
      · next hq =>
          by_cases h : q.name = name
          · have : p.name ≠ name := fun hp => hq (h.trans hp.symm)
            simp [find?, h, this]
          · simp only [find?, List.find?_cons, h, decide_false] at ih ⊢
            exact ih

end Property

end ViewMarkup
