import ViewMarkup.Constraint.Error
import ViewMarkup.Xml.Node

/-!
# Why a document is refused

## Main definitions

* `DocumentError` and its wording.
-/

namespace ViewMarkup

/-- A reason to refuse a document. -/
inductive DocumentError where
  /-- The document has no element tree. -/
  | tree (error : Xml.TreeError)
  /-- The root has another tag than the document needs. -/
  | unexpectedRoot (expected found : String)
  /-- A tag that no kind of element has. -/
  | unknownElement (tag : String)
  /-- A tag in a style sheet that names no kind of element. -/
  | unknownStyleTag (tag : String)
  /-- A tag without an attribute that it needs. -/
  | missingAttribute (tag name : String)
  /-- Elements inside a tag that takes none, or not these. -/
  | unexpectedChildren (tag : String)
  /-- A name that two elements of a scope declare. -/
  | duplicateName (name typeName : String)
  /-- A faulty layout attribute. -/
  | layout (tag : String) (error : LayoutError)
deriving Repr

namespace DocumentError

/-- The wording of an error. -/
def message : DocumentError → String
  | tree error => error.message
  | unexpectedRoot expected found =>
      "expected root <" ++ expected ++ ">, found <" ++ found ++ ">"
  | unknownElement tag => "unknown element <" ++ tag ++ ">"
  | unknownStyleTag tag => "unknown style tag <" ++ tag ++ ">"
  | missingAttribute tag name => "<" ++ tag ++ "> is missing required attribute `" ++ name ++ "`"
  | unexpectedChildren tag => "<" ++ tag ++ "> cannot contain child elements"
  | duplicateName name typeName => "duplicate element name `" ++ name ++ "` in " ++ typeName
  | layout tag error => "<" ++ tag ++ ">: " ++ error.message

end DocumentError

/-- The element tree of a document's text. -/
def Xml.Node.read (text : String) : Except DocumentError Xml.Node :=
  match Xml.Node.ofText text with
  | .ok n => .ok n
  | .error e => .error (.tree e)

/-- The element tree of a text that is given by its characters. -/
theorem Xml.Node.read_ofList (cs : List Char) :
    read (String.ofList cs) = (ofEvents (Event.ofChars []
      (if cs.head? = some '\ufeff' then cs.tail else cs))).mapError .tree := by
  rw [read, ofText, Event.ofText_ofList]
  generalize ofEvents _ = tree
  cases tree <;> rfl

/-- The value of an attribute that a tag must have. -/
def Xml.Node.require (n : Xml.Node) (name : String) : Except DocumentError String :=
  match n.get? name with
  | some value => .ok value
  | none => .error (.missingAttribute n.tag name)

end ViewMarkup
