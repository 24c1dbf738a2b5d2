import ViewMarkup.Document.Resolve
import ViewMarkup.View.Binding
import ViewMarkup.View.Capability

/-!
# Applying a definition to live views

Applying a definition makes the views below a component's node match it. First everything below the
node is taken apart; nodes that the component holds as fields are kept, all others are destroyed.
Then the elements are placed in document order: each takes its field's node or a new one, is given
its name, priorities and properties, and goes below its parent. Last, when all elements of the
scope have their nodes, every constraint is tied to the nodes that its target means.

A component inside is a scope of its own, which is applied in full as soon as its element is
placed. A component that contains itself, directly or not, is not entered again.

## Main definitions

* `ApplyError`, `ApplyWarning`, `ApplyReport`.
* `Applier` — what an application needs besides the tree.
* `Applier.apply` — one application. A failed one leaves the tree as far as it came.
-/

namespace ViewMarkup

/-- Why an application stops. -/
inductive ApplyError where
  /-- The node of the component is gone. -/
  | missingRoot (typeName : String)
  /-- The component has no such field and creates none. -/
  | unresolvedField (field typeName : String)
  /-- Nothing creates elements of the type. -/
  | unresolvedType (typeName : String)
  /-- A constraint relates to something that its scope does not have. -/
  | unresolvedTarget (target : Target) (element typeName : String)
deriving Repr

namespace ApplyError

/-- The wording of an error. -/
def message : ApplyError → String
  | missingRoot typeName => "root node for `" ++ typeName ++ "` is no longer in the tree"
  | unresolvedField field typeName => "`" ++ typeName ++ "` has no field `" ++ field ++ "`"
  | unresolvedType typeName => "no factory or definition for type `" ++ typeName ++ "`"
  | unresolvedTarget target element typeName =>
      "unresolved constraint target `" ++ target.text ++ "` on `" ++ element ++ "` in " ++ typeName

end ApplyError

/-- Something that an application could not do, and went on without. -/
structure ApplyWarning where
  /-- The type whose definition was applied. -/
  typeName : String
  /-- The element. -/
  element : String
  /-- The property, if it is about one. -/
  property : Option String
  /-- What was wrong. -/
  message : String
deriving Repr, DecidableEq

/-- A warning in one line. -/
def ApplyWarning.text (w : ApplyWarning) : String :=
  w.typeName ++ "." ++ w.element
    ++ (match w.property with
      | some p => "." ++ p
      | none => "")
    ++ ": " ++ w.message

/-- What a successful application did. -/
structure ApplyReport where
  /-- The nodes of the component's own scope, by the names of their elements. -/
  named : Table String NodeId
  /-- The warnings, in order. -/
  warnings : List ApplyWarning
  /-- The types whose definitions were applied, in order, the component's own first. -/
  definitions : List String
deriving Repr, DecidableEq

/-- What an application needs besides the tree. -/
structure Applier (H : Type) where
  /-- What the host can set and create. -/
  capabilities : Capabilities H
  /-- The shared styles. -/
  sheets : StyleSheets
  /-- The definitions that references by name find. -/
  library : Table String Definition := {}

/-- An element with the node that it got and the node it went below. -/
structure PlacedView where
  /-- The element. -/
  element : Element
  /-- Its node. -/
  node : NodeId
  /-- The node of its parent. -/
  parent : NodeId

/-- The state of an application. -/
structure Run (H : Type) where
  /-- The tree. -/
  tree : ViewTree H
  /-- The fields of the component whose scope is applied. -/
  fields : Table String NodeId := {}
  /-- The elements of the scope placed so far. -/
  placed : List PlacedView := []
  /-- The warnings so far. -/
  warnings : List ApplyWarning := []
  /-- The types applied so far. -/
  definitions : List String := []

/-- A step of an application: it may fail, and then keeps the state that it reached. -/
abbrev Live (H : Type) := EStateM ApplyError (Run H)

/-- The component whose scope is applied. -/
structure ScopeRoot where
  /-- The node under which the scope is applied. -/
  node : NodeId
  /-- The type of the component. -/
  typeName : String
  /-- Whether missing fields are created. -/
  adopts : Bool

namespace Applier

variable {H : Type}

/-! ### Taking apart -/

/-- The tree with everything below a node taken apart; the nodes to keep stand by themselves, all
others are gone. -/
def clear (t : ViewTree H) (root : NodeId) (keep : List NodeId) : ViewTree H :=
  let below := t.descendants root
  (below.filter fun id => !keep.contains id).foldl (fun t id => (t.remove id).2)
    (below.foldl ViewTree.detach t)

/-! ### Elements and their properties -/

/-- A fresh visual element for an element of markup. -/
def create (a : Applier H) (e : Element) : Except ApplyError (VisualElement H) :=
  match e.kind, e.reference with
  | .component, some r =>
      match a.capabilities.create? r.typeName with
      | some created => .ok created
      | none =>
          if r.definition?.isSome || a.library.contains r.typeName then
            .ok (.generic (.wrapper r.typeName))
          else .error (.unresolvedType r.typeName)
  | kind, _ =>
      match a.capabilities.createPrimitive? kind with
      | some created => .ok created
      | none => .error (.unresolvedType kind.tag)

/-- Notes a warning. -/
def warn (w : ApplyWarning) : Live H Unit :=
  modify fun s => { s with warnings := s.warnings ++ [w] }

/-- Puts a new node for an element of markup into the tree. -/
def insertNew (a : Applier H) (e : Element) : Live H NodeId := fun s =>
  match a.create e with
  | .error error => .error error s
  | .ok element =>
      let (id, tree) := s.tree.insert { element }
      .ok id { s with tree }

/-- The node of an element: its field's, if that is alive, or else a new one, which then becomes
the field's if the component creates its fields. -/
def nodeFor (a : Applier H) (root : ScopeRoot) (e : Element) : Live H NodeId := do
  match e.field with
  | none => a.insertNew e
  | some field =>
      let s ← get
      match (s.fields.get? field).filter s.tree.contains with
      | some id => pure id
      | none =>
          if root.adopts then
            let id ← a.insertNew e
            modify fun s => { s with fields := s.fields.insert field id }
            pure id
          else throw (.unresolvedField field root.typeName)

/-- The element after one property, and a warning if it could not be set. -/
def setOne [Widget H] (a : Applier H) (kind : Kind) (typeName element : String)
    (acc : VisualElement H × List ApplyWarning) (p : Property) :
    VisualElement H × List ApplyWarning :=
  match a.capabilities.set kind acc.1 p with
  | .applied v => (v, acc.2)
  | .unsupported =>
      (acc.1, acc.2 ++ [⟨typeName, element, some p.name, "unsupported on " ++ acc.1.typeName⟩])
  | .rejected message => (acc.1, acc.2 ++ [⟨typeName, element, some p.name, message⟩])

/-- The warnings about what the cascade left out. -/
def skippedWarnings (typeName element : String) (r : Resolved) : List ApplyWarning :=
  r.skipped.map fun s =>
    ⟨typeName, element, none, "style `" ++ s.reference.text ++ "`: " ++ s.error.message⟩

/-- Gives a node its properties. -/
def assign [Widget H] (a : Applier H) (id : NodeId) (kind : Kind) (typeName element : String)
    (r : Resolved) : Live H Unit :=
  modify fun s =>
    let s := { s with warnings := s.warnings ++ skippedWarnings typeName element r }
    match s.tree.get? id with
    | none => s
    | some n =>
        let (v, warnings) := r.properties.foldl (a.setOne kind typeName element) (n.element, [])
        { s with
          tree := s.tree.modify id fun n => { n with element := v }
          warnings := s.warnings ++ warnings }

/-- A node with the name and the priorities of an element, and without constraints. -/
def prepare (e : Element) (n : ViewNode H) : ViewNode H :=
  { n with
    name := some e.name
    constraints := []
    compression := AxisPair.defaultCompression.overriddenBy e.layout.compression
    hugging := AxisPair.defaultHugging.overriddenBy e.layout.hugging }

/-- Places one element, without what is inside it. A node that may not go below its parent stays
where it is. -/
def placeOne [Widget H] (a : Applier H) (root : ScopeRoot) (d : Definition) (parent : NodeId)
    (parentKind : Kind) (e : Element) : Live H NodeId := do
  let id ← a.nodeFor root e
  modify fun s => { s with tree := s.tree.modify id (prepare e) }
  a.assign id e.kind d.typeName e.name (a.sheets.resolve d e)
  modify fun s =>
    { s with
      tree := (s.tree.attach? id parent parentKind.arrangesChildren).getD s.tree
      placed := s.placed ++ [⟨e, id, parent⟩] }
  pure id

/-! ### Constraints -/

/-- The node of the last placed element that satisfies a test. -/
def findPlaced? (placed : List PlacedView) (test : Element → Bool) : Option NodeId :=
  (placed.reverse.find? fun p => test p.element).map (·.node)

/-- What a target means for a placed element. A field name that no element of the scope has may be
a layout id. -/
def target? (placed : List PlacedView) (p : PlacedView) : Target → Option LiveTarget
  | .parent => some (.node p.parent)
  | .field name =>
      ((findPlaced? placed fun e => e.field = some name).or
        (findPlaced? placed fun e => e.layout.id = some name)).map .node
  | .id name => (findPlaced? placed fun e => e.layout.id = some name).map .node
  | .constant v => some (.constant v)

/-- The constraints of a placed element with their targets. -/
def liveConstraints (typeName : String) (placed : List PlacedView) (p : PlacedView) :
    Except ApplyError (List LiveConstraint) :=
  p.element.layout.constraints.mapM fun c =>
    match target? placed p c.target with
    | some target => .ok ⟨c, target⟩
    | none => .error (.unresolvedTarget c.target p.element.name typeName)

/-- The nodes of a scope with their constraints. -/
def allConstraints (typeName : String) (placed : List PlacedView) :
    Except ApplyError (List (NodeId × List LiveConstraint)) :=
  placed.mapM fun p => (liveConstraints typeName placed p).map fun cs => (p.node, cs)

/-- The captured constraints, by name; of several with one name the last counts. -/
def capturedOf (rebuilt : List (NodeId × List LiveConstraint)) : Table String ConstraintHandle :=
  (rebuilt.flatMap fun (node, cs) =>
    cs.zipIdx.filterMap fun (c, index) =>
      c.declared.captureName.map fun name => (name, (⟨node, index⟩ : ConstraintHandle))).foldl
    (fun t (name, handle) => t.insert name handle) {}

/-- Gives every node of the scope its constraints, once the targets of all are known. -/
def constrain (typeName : String) : Live H (Table String ConstraintHandle) := fun s =>
  match allConstraints typeName s.placed with
  | .error e => .error e s
  | .ok rebuilt =>
      let tree := rebuilt.foldl
        (fun t (id, cs) => t.modify id fun n => { n with constraints := cs }) s.tree
      .ok (capturedOf rebuilt) { s with tree }

/-! ### Scopes -/

/-- Runs a step in a scope of its own, which begins without fields; afterwards, also after a
failure, the scope around it goes on. -/
def inNewScope {α : Type} (step : Live H α) : Live H α := fun s =>
  match step { s with fields := {}, placed := [] } with
  | .ok x s' => .ok x { s' with fields := s.fields, placed := s.placed }
  | .error e s' => .error e { s' with fields := s.fields, placed := s.placed }

/-- Begins a scope: the node must be alive, what is below it is taken apart, and it gets the
properties of the definition's root. -/
def beginScope [Widget H] (a : Applier H) (root : ScopeRoot) (d : Definition) : Live H Unit := do
  let s ← get
  if s.tree.contains root.node then
    set { s with
      tree := clear s.tree root.node s.fields.values
      definitions := s.definitions ++ [d.typeName] }
    a.assign root.node .container d.typeName "self" (a.sheets.resolveRoot d)
  else throw (.missingRoot root.typeName)

/-- The definitions of the library that can still be entered. -/
def enterable (a : Applier H) (active : List String) : Nat :=
  a.library.values.countP fun d => d.typeName ∉ active

/-- No more definitions can be entered when one has been. -/
theorem enterable_cons_le (a : Applier H) (active : List String) (name : String) :
    a.enterable (name :: active) ≤ a.enterable active :=
  List.countP_mono_left fun d _ hd => by
    simp only [List.mem_cons, not_or, decide_eq_true_eq] at hd ⊢
    exact hd.2

/-- Fewer can be entered when one that could be has been. -/
theorem enterable_cons_lt (a : Applier H) {active : List String} {key : String} {d : Definition}
    (h : a.library.get? key = some d) (hd : d.typeName ∉ active) :
    a.enterable (d.typeName :: active) < a.enterable active := by
  have hm : d ∈ a.library.values := by
    simp only [Table.get?, Option.map_eq_some_iff] at h
    obtain ⟨e, he, rfl⟩ := h
    exact List.mem_map.2 ⟨e, List.mem_of_find?_eq_some he, rfl⟩
  unfold enterable
  generalize a.library.values = ds at hm
  induction ds with
  | nil => cases hm
  | cons x xs ih =>
      have mono : (xs.countP fun d' => d'.typeName ∉ d.typeName :: active)
          ≤ xs.countP fun d' => d'.typeName ∉ active :=
        List.countP_mono_left fun d' _ h' => by
          simp only [List.mem_cons, not_or, decide_eq_true_eq] at h' ⊢
          exact h'.2
      rcases List.mem_cons.1 hm with rfl | hm
      · rw [List.countP_cons_of_neg (by simp), List.countP_cons_of_pos (by simpa using hd)]
        omega
      · have := ih hm
        by_cases hx : x.typeName ∈ active
        · rw [List.countP_cons_of_neg (by simp [hx]), List.countP_cons_of_neg (by simp [hx])]
          exact this
        · simp only [List.countP_cons, hx, not_false_eq_true, decide_true, ↓reduceIte]
          split <;> omega

/-- The warning about a component that contains itself. -/
def selfContained (typeName element nested : String) : ApplyWarning :=
  ⟨typeName, element, none, "`" ++ nested ++ "` contains itself; nested content skipped"⟩

mutual

/-- Applies a definition in the current scope. `active` are the types that are being applied, the
definition's own among them. The constraints captured in the scope are returned. -/
def applyScope [Widget H] (a : Applier H) (active : List String) (root : ScopeRoot)
    (d : Definition) : Live H (Table String ConstraintHandle) := do
  a.beginScope root d
  placeAll a active root d root.node .container d.children
  constrain d.typeName
termination_by (a.enterable active, sizeOf d)
decreasing_by exact Prod.Lex.right _ d.sizeOf_children_lt

/-- Places elements in order. -/
def placeAll [Widget H] (a : Applier H) (active : List String) (root : ScopeRoot) (d : Definition)
    (parent : NodeId) (parentKind : Kind) (es : List Element) : Live H Unit :=
  match es with
  | [] => pure ()
  | e :: es => do
      place a active root d parent parentKind e
      placeAll a active root d parent parentKind es
termination_by (a.enterable active, sizeOf es)
decreasing_by all_goals apply Prod.Lex.right; simp +arith

/-- Places an element and what is inside it. -/
def place [Widget H] (a : Applier H) (active : List String) (root : ScopeRoot) (d : Definition)
    (parent : NodeId) (parentKind : Kind) (e : Element) : Live H Unit := do
  let id ← a.placeOne root d parent parentKind e
  if e.kind.acceptsChildren then placeAll a active root d id e.kind e.children
  if e.kind = .component then applyReference a active d.typeName e.name id e.reference
termination_by (a.enterable active, sizeOf e)
decreasing_by
  · exact Prod.Lex.right _ e.sizeOf_reference_lt
  · exact Prod.Lex.right _ e.sizeOf_children_lt

/-- Applies the component that an element refers to, if its definition is known and is not being
applied already. -/
def applyReference [Widget H] (a : Applier H) (active : List String) (typeName element : String)
    (id : NodeId) (r : Option TypeReference) : Live H Unit :=
  match r with
  | none => pure ()
  | some (.inline nested) =>
      if nested.typeName ∈ active then warn (selfContained typeName element nested.typeName)
      else
        inNewScope do
          let _ ← applyScope a (nested.typeName :: active) ⟨id, nested.typeName, true⟩ nested
  | some (.named name) =>
      match _h : a.library.get? name with
      | none => pure ()
      | some nested =>
          if _hn : nested.typeName ∈ active then
            warn (selfContained typeName element nested.typeName)
          else
            inNewScope do
              let _ ← applyScope a (nested.typeName :: active) ⟨id, nested.typeName, true⟩ nested
termination_by (a.enterable active, sizeOf r)
decreasing_by
  · rcases Nat.lt_or_eq_of_le (a.enterable_cons_le active nested.typeName) with h | h
    · exact Prod.Lex.left _ _ h
    · rw [h]
      apply Prod.Lex.right
      simp +arith
  · exact Prod.Lex.left _ _ (a.enterable_cons_lt _h _hn)

end

/-- Applies a definition to a component. The tree and the binding are returned as the application
leaves them; a failed one keeps the constraints captured before. -/
def apply [Widget H] (a : Applier H) (t : ViewTree H) (b : Binding) (d : Definition) :
    Except ApplyError ApplyReport × ViewTree H × Binding :=
  match a.applyScope [d.typeName] ⟨b.node, b.typeName, b.adopts⟩ d { tree := t, fields := b.fields }
  with
  | .ok captured s =>
      let named := s.placed.foldl (fun t p => t.insert p.element.name p.node) {}
      (.ok ⟨named, s.warnings, s.definitions⟩, s.tree, { b with fields := s.fields, captured })
  | .error e s => (.error e, s.tree, { b with fields := s.fields })

end Applier

end ViewMarkup
