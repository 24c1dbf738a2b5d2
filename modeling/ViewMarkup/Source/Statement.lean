import ViewMarkup.Constraint.Basic
import ViewMarkup.Element.Property
import ViewMarkup.Source.Identifier
import ViewMarkup.Source.Token

/-!
# Statements of a build routine

The routine that builds a component creates its elements, gives them their properties, attaches
them, and then activates constraints. A routine is a list of statements; how a statement is written
is a function of its own.

## Main definitions

* `Statement`, `Routine`.
* `BuiltConstraint.modifiers` — the modifiers of a constraint that are written.
* `Statement.tokens`, `Routine.tokens` — their written forms.
-/

namespace ViewMarkup

/-- What a statement acts on: the component itself, or an element by its local name. -/
inductive Holder where
  | component
  | element (name : Identifier)
deriving Repr, DecidableEq

/-- How a local name gets its element. -/
inductive Construction where
  /-- From a field of the component. -/
  | field (name : Identifier)
  /-- As a new component without a declared type. -/
  | anonymous (typeName : String)
  /-- As a new component of a declared type. -/
  | component (type : Identifier)
  /-- As a new element of a kind. -/
  | primitive (kind : Kind)
deriving Repr, DecidableEq

/-- What a built constraint relates to. -/
inductive BuiltTarget where
  /-- A number. -/
  | constant (value : Float)
  /-- An anchor of the component or of an element. -/
  | anchor (holder : Holder) (anchor : Anchor)
deriving Repr, BEq

/-- A constraint of a routine. -/
structure BuiltConstraint where
  /-- The field of the component that keeps the constraint. -/
  capture : Option Identifier
  /-- The constrained element. -/
  element : Identifier
  /-- The constrained anchor. -/
  anchor : Anchor
  /-- How the two sides compare. -/
  relation : Relation
  /-- The other side. -/
  target : BuiltTarget
  /-- The factor of the other side. -/
  multiplier : Float
  /-- What is added to the other side. -/
  constant : Float
  /-- The weight. -/
  priority : Priority
deriving Repr, BEq

/-- A call that modifies a constraint. -/
inductive BuiltModifier where
  /-- The other side is multiplied. -/
  | multipliedBy (factor : Float)
  /-- Something is added to the other side. -/
  | offset (amount : Float)
  /-- The constraint gets a weight. -/
  | priority (weight : Priority)
deriving Repr, BEq

namespace BuiltConstraint

/-- The modifier for the factor; none is written for a factor of one. -/
def writtenFactor (c : BuiltConstraint) : List BuiltModifier :=
  if c.multiplier != 1.0 then [.multipliedBy c.multiplier] else []

/-- The modifier for the offset; none is written for an offset of zero. -/
def writtenOffset (c : BuiltConstraint) : List BuiltModifier :=
  if c.constant != 0.0 then [.offset c.constant] else []

/-- The modifier for the priority; none is written for the highest. -/
def writtenPriority (c : BuiltConstraint) : List BuiltModifier :=
  match c.priority with
  | .required => []
  | p => [.priority p]

/-- The modifiers of a constraint that are written, in order. -/
def modifiers (c : BuiltConstraint) : List BuiltModifier :=
  c.writtenFactor ++ c.writtenOffset ++ c.writtenPriority

end BuiltConstraint

/-- A statement of a routine. -/
inductive Statement where
  /-- A new local name. -/
  | create (name : Identifier) (construction : Construction)
  /-- A property is given a value. -/
  | assign (holder : Holder) (property : Property)
  /-- A list gets an anonymous component for its rows. -/
  | useTemplate (list : Identifier) (typeName : String)
  /-- A list gets a declared component for its rows. -/
  | useCell (list type : Identifier)
  /-- An element becomes the last child of another. -/
  | attach (parent : Holder) (child : Identifier) (arranged : Bool)
  /-- A constraint is activated. -/
  | constrain (constraint : BuiltConstraint)
deriving Repr, BEq

/-- The routine that builds a component. -/
structure Routine where
  /-- The type of the component. -/
  typeName : Identifier
  /-- The statements in order. -/
  statements : List Statement
deriving Repr, BEq

/-! ### Written forms -/

namespace SourceToken

/-- A word. -/
def word (i : Identifier) : SourceToken := atom i.text

/-- Several words and signs, given with blanks between them. -/
def words (text : String) : List SourceToken := (Text.words (· = ' ') text).map atom

/-- A list with commas. -/
def commas : List (List SourceToken) → List SourceToken
  | [] => []
  | [ts] => ts
  | ts :: rest => ts ++ atom "," :: commas rest

/-- A call of a function of a type. -/
def call (path : String) (arguments : List (List SourceToken)) : List SourceToken :=
  words path ++ [round (commas arguments)]

/-- A call of a method. -/
def method (receiver : List SourceToken) (name : String) (arguments : List (List SourceToken)) :
    List SourceToken :=
  receiver ++ [atom ".", atom name, round (commas arguments)]

/-- A number with at least one decimal; a minus stands apart. -/
def number (isNegative : Bool) (magnitude : String) : List SourceToken :=
  let digits := if magnitude.toList.contains '.' then magnitude else magnitude ++ ".0"
  if isNegative then [atom "-", atom digits] else [atom digits]

/-- A 64-bit number; a negative zero has no minus. -/
def float (x : Float) : List SourceToken := number (x < 0.0) (Number.text x.abs)

/-- A 32-bit number. -/
def single (x : Float32) : List SourceToken := number (x < 0.0) (Number.singleText x.abs)

/-- An integer; a minus stands apart. -/
def integer (n : Int) : List SourceToken :=
  if n < 0 then [atom "-", atom (Nat.repr n.natAbs)] else [atom (Nat.repr n.natAbs)]

/-- A word with its first letter in upper case. -/
def capitalized (word : String) : String :=
  match word.toList with
  | [] => ""
  | c :: cs => String.ofList (c.toUpper :: cs)

/-- A case of an enumerated type. -/
def variant (type word : String) : List SourceToken :=
  words (type ++ " :: " ++ capitalized word)

/-- The name of a property with its words set apart by underscores. -/
def snakeCase (name : String) : String :=
  String.ofList (go true name.toList)
where
  /-- Puts an underscore before every upper-case letter but the first of all. -/
  go (isFirst : Bool) : List Char → List Char
    | [] => []
    | c :: cs =>
        (if c.isUpper then (if isFirst then [c.toLower] else ['_', c.toLower]) else [c])
          ++ go false cs

/-- A font. -/
def font : Font → List SourceToken
  | .system weight size =>
      call "Font :: system" [variant "FontWeight" weight.keyword, float size]
  | .named name size => call "Font :: named" [[string name], float size]

/-- A property value. -/
def value : Value → List SourceToken
  | .color c => call "Color :: rgba" [float c.red, float c.green, float c.blue, float c.alpha]
  | .string s => [string s]
  | .font f => font f
  | .integer n => integer n
  | .float x => single x
  | .double x => float x
  | .bool b => [atom (if b then "true" else "false")]
  | .choice c => variant (capitalized c.family.name) c.word
  | .point p => call "Point :: new" (p.numbers.map float)
  | .size s => call "Size :: new" (s.numbers.map float)
  | .rect r => call "Rect :: new" (r.numbers.map float)
  | .edgeInsets e => call "EdgeInsets :: new" (e.numbers.map float)
  | .image name => call "Image :: named" [[string name]]

/-- An anchor. -/
def anchor (a : Anchor) : List SourceToken := variant "Anchor" a.keyword

/-- A priority. -/
def priority : Priority → List SourceToken
  | .required => variant "Priority" "required"
  | .high => variant "Priority" "high"
  | .medium => variant "Priority" "medium"
  | .low => variant "Priority" "low"
  | .custom v => call "Priority :: Custom" [single v]

end SourceToken

open SourceToken

/-- The name of the method that sets a property. -/
def Property.setter (p : Property) : String := "set_" ++ snakeCase p.name

namespace Holder

/-- A holder as the receiver of a call. -/
def receiver : Holder → List SourceToken
  | component => [atom "self"]
  | element name => [word name]

/-- A holder as an argument. -/
def reference : Holder → List SourceToken
  | component => words "& * self"
  | element name => [atom "&", word name]

end Holder

namespace Construction

/-- The written form of a construction. -/
def tokens : Construction → List SourceToken
  | field name => method [atom "self", atom ".", word name] "clone" []
  | anonymous typeName => call "AnonymousComponent :: new" [[string typeName]]
  | component type => [word type, atom "::", atom "new", round []]
  | primitive kind => call (kind.tag ++ " :: new") []

end Construction

/-- The written form of a modifier of a constraint. -/
def BuiltModifier.tokens (receiver : List SourceToken) : BuiltModifier → List SourceToken
  | multipliedBy x => method receiver "multiplied_by" [float x]
  | offset x => method receiver "offset" [float x]
  | priority p => method receiver "priority" [SourceToken.priority p]

namespace BuiltConstraint

/-- The name of the method that states a relation. -/
def relationName : Relation → String
  | .equal => "equal_to"
  | .atMost => "less_than_or_equal_to"
  | .atLeast => "greater_than_or_equal_to"

/-- A constraint before its modifiers. -/
def stem (c : BuiltConstraint) : List SourceToken :=
  let start := method [word c.element] "constrain" [SourceToken.anchor c.anchor]
  match c.target with
  | .constant v => method start (relationName c.relation ++ "_constant") [float v]
  | .anchor holder a =>
      method start (relationName c.relation) [holder.reference, SourceToken.anchor a]

/-- A constraint with its modifiers. -/
def chain (c : BuiltConstraint) : List SourceToken :=
  c.modifiers.foldl BuiltModifier.tokens c.stem

/-- The statement that activates a constraint, and keeps it if it is captured. -/
def tokens (c : BuiltConstraint) : List SourceToken :=
  let activated := method c.chain "activate" []
  match c.capture with
  | some field => [atom "self", atom ".", word field, atom "="] ++ activated
  | none => activated

end BuiltConstraint

namespace Statement

/-- The written form of a statement. -/
def tokens (s : Statement) : List SourceToken :=
  body s ++ [atom ";"]
where
  /-- The statement without its end. -/
  body : Statement → List SourceToken
    | create name construction => [atom "let", word name, atom "="] ++ construction.tokens
    | assign holder p => method holder.receiver p.setter [SourceToken.value p.value]
    | useTemplate list typeName => method [word list] "register_cell_template" [[string typeName]]
    | useCell list type =>
        [word list, atom ".", atom "register_cell", atom "::", atom "<", word type, atom ">",
          round []]
    | attach parent child arranged =>
        method parent.receiver (if arranged then "add_arranged_subview" else "add_subview")
          [[atom "&", word child]]
    | constrain c => c.tokens

end Statement

namespace Routine

/-- The written form of a routine. -/
def tokens (r : Routine) : List SourceToken :=
  [atom "impl", word r.typeName,
    curly (words "pub fn build_layout"
      ++ [round (words "& mut self"), curly (r.statements.flatMap Statement.tokens)])]

/-- The text of routines, one after the other. -/
def render (rs : List Routine) : String := SourceToken.render (rs.flatMap tokens)

end Routine

end ViewMarkup
