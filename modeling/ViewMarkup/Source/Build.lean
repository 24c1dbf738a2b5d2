import ViewMarkup.Document.Names
import ViewMarkup.Document.Resolve
import ViewMarkup.Source.Statement

/-!
# The build routine of a definition

Every definition of a document with a declared type gets a routine. The routine first creates,
fills and attaches every element in document order, and then states the constraints, so that a
constraint may refer to an element that stands behind its own. The elements of an anonymous
component are built in place, in a scope of their own and under names that begin with the name of
the component's element.

## Main definitions

* `BuildError` and its wording.
* `Placed` — an element with its local name and its surroundings.
* `Routine.ofDefinition`, `Routine.ofDocument`.
* `BuildReport` — what the cascade left out on the way.
-/

namespace ViewMarkup

/-- Why no routine can be written. -/
inductive BuildError where
  /-- A constraint relates to something that its scope does not have. -/
  | unresolvedTarget (target : Target) (element typeName : String)
  /-- A name that has to be an identifier is none. -/
  | invalidIdentifier (text : String)
  /-- An infinite or undefined number; its text is kept. -/
  | nonFiniteNumber (text : String)
deriving Repr

namespace BuildError

/-- The wording of an error. -/
def message : BuildError → String
  | unresolvedTarget target element typeName =>
      "unresolved constraint target `" ++ target.text ++ "` on `" ++ element ++ "` in " ++ typeName
  | invalidIdentifier text => "`" ++ text ++ "` is not a valid Rust identifier"
  | nonFiniteNumber text => "non-finite number `" ++ text ++ "` cannot be emitted"

end BuildError

/-- The identifier that a text is. -/
def Identifier.ofText (text : String) : Except BuildError Identifier :=
  match ofText? text with
  | some i => .ok i
  | none => .error (.invalidIdentifier text)

/-- Refuses a number that has no literal. -/
def checkFinite (x : Float) : Except BuildError Unit :=
  if x.isFinite then .ok () else .error (.nonFiniteNumber (Number.text x))

/-- Refuses a 32-bit number that has no literal. -/
def checkSingle (x : Float32) : Except BuildError Unit :=
  if x.isFinite then .ok () else .error (.nonFiniteNumber (Number.singleText x))

/-- Refuses the first number that has no literal. -/
def checkAll : List Float → Except BuildError Unit
  | [] => .ok ()
  | x :: xs => do checkFinite x; checkAll xs

/-- Refuses a value that has no literal. -/
def Value.check : Value → Except BuildError Unit
  | .color c => checkAll [c.red, c.green, c.blue, c.alpha]
  | .font (.system _ x) | .font (.named _ x) => checkFinite x
  | .float x => checkSingle x
  | .double x => checkFinite x
  | .point p => checkAll p.numbers
  | .size s => checkAll s.numbers
  | .rect r => checkAll r.numbers
  | .edgeInsets e => checkAll e.numbers
  | .string _ | .integer _ | .bool _ | .choice _ | .image _ => .ok ()

/-- An element that a routine builds. -/
structure Placed where
  /-- The element. -/
  element : Element
  /-- Its local name. -/
  name : Identifier
  /-- What it is attached to. -/
  parent : Holder
  /-- The scope that it belongs to; the definition's own is the first. -/
  scope : Nat
  /-- The styles of the definition whose scope it is. -/
  styles : List Style

/-- What surrounds the elements that are being placed. -/
structure Place where
  /-- What they are attached to. -/
  parent : Holder
  /-- Whether the parent lines them up. -/
  arranged : Bool
  /-- The scope that they belong to. -/
  scope : Nat
  /-- What their local names begin with. -/
  stem : Option String
  /-- The styles of their definition. -/
  styles : List Style

/-- A routine in the making. -/
structure Draft where
  /-- The local names given out, as texts. -/
  used : List String := []
  /-- The number of scopes. -/
  scopes : Nat := 1
  /-- The elements placed, in order. -/
  placed : List Placed := []
  /-- The statements, in order. -/
  statements : List Statement := []

namespace Draft

/-- A draft with more statements. -/
def add (d : Draft) (statements : List Statement) : Draft :=
  { d with statements := d.statements ++ statements }

/-- The text of a numbered local name. -/
def numbered (base : String) (n : Nat) : String := base ++ "_" ++ Nat.repr n

/-- A text for a local name that is not given out yet: the base, or the base with the lowest free
number from two on. -/
def freshText (used : List String) (base : String) : String :=
  if base ∈ used then numbered base (firstFree (numbered base) used 2) else base

/-- A fresh local name for an element. -/
def localName (d : Draft) (stem : Option String) (name : String) :
    Except BuildError (Identifier × Draft) := do
  let _ ← Identifier.ofText name
  let base :=
    match stem with
    | some stem => stem ++ "_" ++ name
    | none => name
  let text := freshText d.used base
  let i ← Identifier.ofText text
  .ok (i, { d with used := text :: d.used })

/-- How an element is constructed. A field of the component holds it in the first scope only. -/
def construction (e : Element) (scope : Nat) : Except BuildError Construction :=
  match e.field, scope, e.kind, e.reference with
  | some field, 0, _, _ => (Identifier.ofText field).map .field
  | _, _, .component, some r =>
      if r.isAnonymous then .ok (.anonymous r.typeName)
      else (Identifier.ofText r.typeName).map .component
  | _, _, kind, _ => .ok (.primitive kind)

/-- The statements that give a holder its properties. -/
def assignments (holder : Holder) : List Property → Except BuildError (List Statement)
  | [] => .ok []
  | p :: ps => do
      p.value.check
      let rest ← assignments holder ps
      .ok (.assign holder p :: rest)

/-- The statement that gives a list its rows. -/
def cell (e : Element) (name : Identifier) : Except BuildError (List Statement) :=
  match e.kind, e.reference with
  | .listView, some r =>
      if r.isAnonymous then .ok [.useTemplate name r.typeName]
      else (Identifier.ofText r.typeName).map fun type => [.useCell name type]
  | _, _ => .ok []

/-- Places an element without what is inside it; its local name is returned. -/
def placeOne (sheets : StyleSheets) (at_ : Place) (d : Draft) (e : Element) :
    Except BuildError (Identifier × Draft) := do
  let (name, d) ← d.localName at_.stem e.name
  let construction ← construction e at_.scope
  let properties ← assignments (.element name)
    (sheets.cascade e.kind e.styles e.properties at_.styles).properties
  let cell ← cell e name
  let d := d.add
    ([.create name construction] ++ properties ++ cell ++ [.attach at_.parent name at_.arranged])
  .ok (name, { d with placed := d.placed ++ [⟨e, name, at_.parent, at_.scope, at_.styles⟩] })

mutual

/-- Places an element and what is inside it. -/
def place (sheets : StyleSheets) (at_ : Place) (d : Draft) (e : Element) :
    Except BuildError Draft :=
  match e with
  | ⟨kind, field, layout, properties, styles, children, reference, elementName⟩ => do
      let (name, d) ← d.placeOne sheets at_
        ⟨kind, field, layout, properties, styles, children, reference, elementName⟩
      if kind.acceptsChildren then
        placeAll sheets
          { at_ with parent := .element name, arranged := kind.arrangesChildren } d children
      else placeInline sheets kind name d reference

/-- Places elements in order. -/
def placeAll (sheets : StyleSheets) (at_ : Place) (d : Draft) :
    List Element → Except BuildError Draft
  | [] => .ok d
  | e :: es => do placeAll sheets at_ (← place sheets at_ d e) es

/-- Places what is inside an anonymous component, as a scope of its own. -/
def placeInline (sheets : StyleSheets) (kind : Kind) (name : Identifier) (d : Draft) :
    Option TypeReference → Except BuildError Draft
  | some (.inline ⟨_, _, isAnonymous, styles, _, children⟩) =>
      if isAnonymous ∧ kind = .component then
        placeAll sheets ⟨.element name, false, d.scopes, some name.text, styles⟩
          { d with scopes := d.scopes + 1 } children
      else .ok d
  | _ => .ok d

end

/-- The last placed element of a scope that satisfies a test. -/
def findPlaced? (d : Draft) (scope : Nat) (test : Element → Bool) : Option Identifier :=
  (d.placed.reverse.find? fun p => p.scope = scope && test p.element).map (·.name)

/-- What a target means for a placed element. A field name that no element of the scope has may be
a layout id. -/
def target? (d : Draft) (p : Placed) : Target → Option Holder
  | .parent => some p.parent
  | .field name =>
      ((d.findPlaced? p.scope fun e => e.field = some name).or
        (d.findPlaced? p.scope fun e => e.layout.id = some name)).map .element
  | .id name => (d.findPlaced? p.scope fun e => e.layout.id = some name).map .element
  | .constant _ => none

/-- The other side of a constraint. -/
def builtTarget (d : Draft) (typeName : String) (p : Placed) (c : Constraint) :
    Except BuildError BuiltTarget :=
  match c.target with
  | .constant v => do checkFinite v; .ok (.constant v)
  | target =>
      match d.target? p target with
      | some holder => .ok (.anchor holder (c.targetAnchor.getD c.anchor))
      | none => .error (.unresolvedTarget target p.element.name typeName)

/-- Refuses a priority that has no literal. -/
def checkPriority : Priority → Except BuildError Unit
  | .custom v => checkSingle v
  | _ => .ok ()

/-- The statement of a constraint of a placed element. -/
def constrain (d : Draft) (typeName : String) (p : Placed) (c : Constraint) :
    Except BuildError Statement := do
  let target ← d.builtTarget typeName p c
  if c.multiplier != 1.0 then checkFinite c.multiplier
  if c.constant != 0.0 then checkFinite c.constant
  checkPriority c.priority
  let capture ←
    match c.captureName with
    | some field => (Identifier.ofText field).map some
    | none => .ok none
  .ok (.constrain ⟨capture, p.name, c.anchor, c.relation, target, c.multiplier, c.constant,
    c.priority⟩)

/-- The statements of all constraints, in the order of their elements. -/
def constraints (d : Draft) (typeName : String) : Except BuildError (List Statement) :=
  (d.placed.flatMap fun p => p.element.layout.constraints.map fun c => (p, c)).mapM
    fun (p, c) => d.constrain typeName p c

end Draft

/-- What the cascade left out for one element of a routine. -/
structure BuildReport where
  /-- The type that the routine builds. -/
  typeName : String
  /-- The name of the element, or the word for the component itself. -/
  element : String
  /-- The kind of element. -/
  kind : Kind
  /-- What was left out. -/
  skipped : List Skipped
deriving Repr

namespace BuildReport

/-- The report on a definition's own root. -/
def ofRoot (sheets : StyleSheets) (d : Definition) : BuildReport :=
  ⟨d.typeName, "self", .container, (sheets.resolveRoot d).skipped⟩

/-- The report on a placed element. -/
def ofPlaced (sheets : StyleSheets) (typeName : String) (p : Placed) : BuildReport :=
  let e := p.element
  ⟨typeName, e.name, e.kind, (sheets.cascade e.kind e.styles e.properties p.styles).skipped⟩

end BuildReport

namespace Routine

/-- The draft with every element of a definition placed. -/
def draft (sheets : StyleSheets) (d : Definition) : Except BuildError Draft := do
  let root ← Draft.assignments .component (sheets.resolveRoot d).properties
  Draft.placeAll sheets ⟨.component, false, 0, none, d.styles⟩ { statements := root } d.children

/-- The routine of a definition, and the reports on its elements. -/
def ofDefinition (sheets : StyleSheets) (d : Definition) :
    Except BuildError (Routine × List BuildReport) := do
  let type ← Identifier.ofText d.typeName
  let draft ← draft sheets d
  let constraints ← draft.constraints d.typeName
  .ok (⟨type, draft.statements ++ constraints⟩,
    .ofRoot sheets d :: draft.placed.map (.ofPlaced sheets d.typeName))

/-- The routines of a document: one for every definition with a declared type, in document
order. -/
def ofDocument (sheets : StyleSheets) (d : Definition) :
    Except BuildError (List (Routine × List BuildReport)) :=
  (d.definitions.filter fun d => !d.isAnonymous).mapM (ofDefinition sheets)

end Routine

end ViewMarkup
