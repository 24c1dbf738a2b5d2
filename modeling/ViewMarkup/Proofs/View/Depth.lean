import ViewMarkup.Proofs.Table
import ViewMarkup.View.Apply

/-!
# How deep an application goes

An application enters components inside components: those defined in place, and those that the
library defines, which may refer to each other and to themselves in any way. The types that are
being applied form a stack, and a type on the stack is not entered again. So on any way down each
definition of the library is entered at most once, and the application comes to an end.

Here the application is followed with its stack written out, pushed and popped as it goes, and with
a bound on the depth of calls in place of the reason why they end. Up to the bound the two agree.

## Main definitions

* `Definition.height` — how deep the calls are that a definition needs by itself.
* `Applier.depthBound` — how deep they are at most with a given library.
* `Applier.Follows` — a step with a stack does what the step without does.
* `Applier.applyWithin` — an application with its stack, for calls of a given depth.

## Main statements

* `Applier.followsWithin` — calls that are deep enough follow an application.
* `Applier.applyWithin_eq` — calls up to the bound are enough, and no stack holds a type twice.
-/

namespace ViewMarkup

mutual

/-- How deep the calls are that placing an element needs, apart from the library. -/
def Element.height : Element → Nat
  | ⟨_, _, _, _, _, children, reference, _⟩ =>
      max (Element.heightAll children)
        (match reference with
          | some (.inline d) => Definition.height d + 1
          | some (.named _) => 1
          | none => 1) + 1

/-- How deep they are for the deepest of some elements. -/
def Element.heightAll : List Element → Nat
  | [] => 0
  | e :: es => max e.height (Element.heightAll es)

/-- How deep they are for a definition. -/
def Definition.height : Definition → Nat
  | ⟨_, _, _, _, _, children⟩ => Element.heightAll children + 1

end

namespace Applier

variable {H : Type}

/-! ### Applications with a stack -/

/-- Why an application of bounded depth stops. -/
inductive Halt where
  /-- It fails as any application does. -/
  | failed (e : ApplyError)
  /-- A call would be too deep. -/
  | tooDeep

/-- The state of an application with its stack. -/
structure Stacked (H : Type) where
  /-- The state without the stack. -/
  run : Run H
  /-- The types that are being applied, the innermost first. -/
  active : List String := []
  /-- All stacks so far, the present one first. -/
  history : List (List String) := []

/-- A step of an application with its stack. -/
abbrev Bounded (H : Type) := EStateM Halt (Stacked H)

/-- A step that has nothing to do with the stack. -/
def onRun {α : Type} (step : Live H α) : Bounded H α := fun s =>
  match step s.run with
  | .ok x run => .ok x { s with run }
  | .error e run => .error (.failed e) { s with run }

/-- The definition that a reference means, in place or from the library. -/
def referenced? (a : Applier H) : Option TypeReference → Option Definition
  | none => none
  | some (.inline nested) => some nested
  | some (.named name) => a.library.get? name

/-- The types that are being applied. -/
def activeTypes : Bounded H (List String) := fun s => .ok s.active s

/-- Puts the stack in place of the one before. -/
def restack (change : List String → List String) : Bounded H Unit :=
  modify fun s => { s with active := change s.active, history := change s.active :: s.history }

/-- Runs a step in a scope of its own. -/
def inNewScopeWithin {α : Type} (step : Bounded H α) : Bounded H α := fun s =>
  match step { s with run := { s.run with fields := {}, placed := [] } } with
  | .ok x s' => .ok x { s' with run := { s'.run with fields := s.run.fields, placed := s.run.placed } }
  | .error e s' =>
      .error e { s' with run := { s'.run with fields := s.run.fields, placed := s.run.placed } }

mutual

/-- Applies a definition in the current scope, with its type on the stack meanwhile. -/
def scopeWithin [Widget H] (a : Applier H) (depth : Nat) (root : ScopeRoot) (d : Definition) :
    Bounded H (Table String ConstraintHandle) :=
  match depth with
  | 0 => throw .tooDeep
  | depth + 1 => do
      onRun (a.beginScope root d)
      restack (d.typeName :: ·)
      d.children.forM (placeWithin a depth root d root.node .container)
      let captured ← onRun (constrain d.typeName)
      restack List.tail
      pure captured

/-- Places an element and what is inside it. -/
def placeWithin [Widget H] (a : Applier H) (depth : Nat) (root : ScopeRoot) (d : Definition)
    (parent : NodeId) (parentKind : Kind) (e : Element) : Bounded H Unit :=
  match depth with
  | 0 => throw .tooDeep
  | depth + 1 => do
      let id ← onRun (a.placeOne root d parent parentKind e)
      if e.kind.acceptsChildren then e.children.forM (placeWithin a depth root d id e.kind)
      if e.kind = .component then referenceWithin a depth e.name id e.reference

/-- Applies the component that an element refers to, unless its type is on the stack. A warning
names the type on top of the stack. -/
def referenceWithin [Widget H] (a : Applier H) (depth : Nat) (element : String) (id : NodeId)
    (r : Option TypeReference) : Bounded H Unit :=
  match depth with
  | 0 => throw .tooDeep
  | depth + 1 =>
      match a.referenced? r with
      | none => pure ()
      | some nested => do
          let active ← activeTypes
          if nested.typeName ∈ active then
            onRun (warn (selfContained (active.head?.getD "") element nested.typeName))
          else
            inNewScopeWithin do
              let _ ← scopeWithin a depth ⟨id, nested.typeName, true⟩ nested

end

/-- The deepest calls that a definition of the library needs by itself. -/
def tallest (a : Applier H) : Nat := a.library.values.foldr (fun d h => max d.height h) 0

/-- **How deep the calls of an application are at most**: each definition of the library whose type
is another one can be entered once on the way. -/
def depthBound (a : Applier H) (d : Definition) : Nat :=
  a.enterable [d.typeName] * a.tallest + d.height

/-- An application with its stack, for calls of a given depth; nothing if that is not enough. -/
def applyWithin [Widget H] (a : Applier H) (depth : Nat) (t : ViewTree H) (b : Binding)
    (d : Definition) :
    Option (Except ApplyError ApplyReport × ViewTree H × Binding) × Stacked H :=
  match a.scopeWithin depth ⟨b.node, b.typeName, b.adopts⟩ d { run := { tree := t, fields := b.fields } }
  with
  | .ok captured s =>
      let named := s.run.placed.foldl (fun t p => t.insert p.element.name p.node) {}
      (some (.ok ⟨named, s.run.warnings, s.run.definitions⟩, s.run.tree,
        { b with fields := s.run.fields, captured }), s)
  | .error (.failed e) s => (some (.error e, s.run.tree, { b with fields := s.run.fields }), s)
  | .error .tooDeep s => (none, s)

/-! ### Following an application -/

/-- **A step with a stack does what the step without does**: it is not too deep, no type is on a stack
twice, and when it succeeds the stack has become a given one. -/
def Follows {α : Type} (before after : List String) (bounded : Bounded H α) (step : Live H α) : Prop :=
  ∀ s : Stacked H, s.active = before → (∀ stack ∈ s.history, stack.Nodup) →
    ∃ s' : Stacked H, (∀ stack ∈ s'.history, stack.Nodup) ∧
      ((∃ x, bounded s = .ok x s' ∧ step s.run = .ok x s'.run ∧ s'.active = after) ∨
        ∃ e, bounded s = .error (.failed e) s' ∧ step s.run = .error e s'.run)

namespace Follows

variable {α β : Type} {before between after : List String}

/-- A result without a step follows itself. -/
lemma pure (x : α) : Follows (H := H) after after (pure x) (pure x) := fun s hs hd =>
  ⟨s, hd, .inl ⟨x, rfl, rfl, hs⟩⟩

/-- A step on the run follows itself and leaves the stack alone. -/
lemma onRun (step : Live H α) : Follows after after (onRun step) step := by
  intro s hs hd
  unfold Applier.onRun
  cases step s.run with
  | ok x run => exact ⟨{ s with run }, hd, .inl ⟨x, rfl, rfl, hs⟩⟩
  | error e run => exact ⟨{ s with run }, hd, .inr ⟨e, rfl, rfl⟩⟩

/-- One step after the other follows, if both do. -/
lemma bind {bounded : Bounded H α} {step : Live H α} {bounded' : α → Bounded H β}
    {step' : α → Live H β} (h : Follows before between bounded step)
    (h' : ∀ x, Follows between after (bounded' x) (step' x)) :
    Follows before after (bounded >>= bounded') (step >>= step') := by
  intro s hs hd
  obtain ⟨s', hd', ⟨x, hb, hr, hs'⟩ | ⟨e, hb, hr⟩⟩ := h s hs hd
  · obtain ⟨s'', hd'', hx⟩ := h' x s' hs' hd'
    refine ⟨s'', hd'', ?_⟩
    change (∃ y, EStateM.bind bounded bounded' s = _ ∧ EStateM.bind step step' s.run = _ ∧ _) ∨
      ∃ e, EStateM.bind bounded bounded' s = _ ∧ EStateM.bind step step' s.run = _
    rw [EStateM.bind, EStateM.bind, hb, hr]
    exact hx
  · refine ⟨s', hd', .inr ⟨e, ?_, ?_⟩⟩
    · change EStateM.bind bounded bounded' s = _
      rw [EStateM.bind, hb]
    · change EStateM.bind step step' s.run = _
      rw [EStateM.bind, hr]

/-- A change of the stack goes unnoticed. -/
lemma restack {change : List String → List String} (hn : (change before).Nodup)
    {bounded : Unit → Bounded H α} {step : Live H α}
    (h : Follows (change before) after (bounded ()) step) :
    Follows before after (restack change >>= bounded) step := by
  intro s hs hd
  refine h { s with active := change s.active, history := change s.active :: s.history }
    (congrArg change hs) fun stack hm => ?_
  rcases List.mem_cons.1 hm with rfl | hm
  · rw [hs]
    exact hn
  · exact hd stack hm

/-- The stack is changed in the end. -/
lemma andRestack {bounded : Bounded H α} {step : Live H α}
    (h : Follows before between bounded step) (change : List String → List String)
    (hn : (change between).Nodup) :
    Follows before (change between) (do let x ← bounded; Applier.restack change; Pure.pure x) step := by
  rw [← bind_pure step]
  exact h.bind fun x => restack hn (pure x)

/-- The stack is known. -/
lemma active {bounded : List String → Bounded H α} {step : Live H α}
    (h : Follows before after (bounded before) step) :
    Follows before after (activeTypes >>= bounded) step := by
  intro s hs hd
  have hb := h s hs hd
  rw [← hs] at hb
  exact hb

/-- A step in a new scope follows if the step does. -/
lemma inNewScope {bounded : Bounded H α} {step : Live H α} (h : Follows before after bounded step) :
    Follows before after (inNewScopeWithin bounded) (inNewScope step) := by
  intro s hs hd
  obtain ⟨s', hd', hx⟩ := h { s with run := { s.run with fields := {}, placed := [] } } hs hd
  refine ⟨{ s' with run := { s'.run with fields := s.run.fields, placed := s.run.placed } }, hd', ?_⟩
  unfold inNewScopeWithin Applier.inNewScope
  rcases hx with ⟨x, hb, hr, hs'⟩ | ⟨e, hb, hr⟩
  · simp only at hr
    rw [hb, hr]
    exact .inl ⟨x, rfl, rfl, hs'⟩
  · simp only at hr
    rw [hb, hr]
    exact .inr ⟨e, rfl, rfl⟩

end Follows

/-! ### Depth -/

/-- How deep the calls are that following a reference needs, apart from the library. -/
def referenceHeight : Option TypeReference → Nat
  | some (.inline d) => d.height + 1
  | _ => 1

/-- The height of an element is one more than that of what is inside it or stands for it. -/
lemma height_eq (e : Element) :
    e.height = max (Element.heightAll e.children) (referenceHeight e.reference) + 1 := by
  obtain ⟨_, _, _, _, _, children, reference, _⟩ := e
  rcases reference with _ | _ | _ <;> rw [Element.height, referenceHeight] <;> nofun

/-- The height of a definition is one more than that of its elements. -/
lemma heightAll_children_eq (d : Definition) : Element.heightAll d.children + 1 = d.height := by
  cases d
  rw [Definition.height]

/-- A known definition is no deeper than the deepest one. -/
lemma height_le_tallest (a : Applier H) {name : String} {d : Definition}
    (h : a.library.get? name = some d) : d.height ≤ a.tallest := by
  have hm := Table.mem_values_of_get? h
  unfold tallest
  generalize a.library.values = ds at hm
  induction ds with
  | nil => cases hm
  | cons d' ds ih =>
    rcases List.mem_cons.1 hm with rfl | hm
    · exact Nat.le_max_left _ _
    · exact Nat.le_trans (ih hm) (Nat.le_max_right _ _)

variable [Widget H]

/-- Calls of a given depth follow every part of an application that needs no deeper ones. -/
structure FollowsWithin (a : Applier H) (depth : Nat) : Prop where
  /-- A scope begins with one more type on the stack. -/
  scope : ∀ {active : List String} (root : ScopeRoot) {d : Definition},
    (d.typeName :: active).Nodup →
    a.enterable (d.typeName :: active) * a.tallest + d.height ≤ depth →
    Follows active active (a.scopeWithin depth root d) (a.applyScope (d.typeName :: active) root d)
  /-- Elements are placed with the type of their definition on top of the stack. -/
  place : ∀ {active : List String} (root : ScopeRoot) {d : Definition} (parent : NodeId)
    (parentKind : Kind) {e : Element}, (d.typeName :: active).Nodup →
    a.enterable (d.typeName :: active) * a.tallest + e.height ≤ depth →
    Follows (d.typeName :: active) (d.typeName :: active)
      (a.placeWithin depth root d parent parentKind e)
      (a.place (d.typeName :: active) root d parent parentKind e)
  /-- So are references followed. -/
  reference : ∀ {active : List String} {typeName : String} (element : String) (id : NodeId)
    {r : Option TypeReference}, (typeName :: active).Nodup →
    a.enterable (typeName :: active) * a.tallest + referenceHeight r ≤ depth →
    Follows (typeName :: active) (typeName :: active) (a.referenceWithin depth element id r)
      (a.applyReference (typeName :: active) typeName element id r)

namespace FollowsWithin

variable {a : Applier H} {depth : Nat}

/-- Everything needs calls of some depth. -/
lemma zero : a.FollowsWithin 0 where
  scope _ _ _ h := by
    rw [← heightAll_children_eq] at h
    omega
  place _ _ _ _ _ _ h := by
    rw [height_eq] at h
    omega
  reference _ _ _ _ h := by
    unfold referenceHeight at h
    split at h <;> omega

/-- Elements are placed within a depth that is enough for the highest of them. -/
lemma placeAll (ih : a.FollowsWithin depth) {active : List String} (root : ScopeRoot)
    {d : Definition} (parent : NodeId) (parentKind : Kind) {es : List Element}
    (hn : (d.typeName :: active).Nodup)
    (h : a.enterable (d.typeName :: active) * a.tallest + Element.heightAll es ≤ depth) :
    Follows (d.typeName :: active) (d.typeName :: active)
      (es.forM (a.placeWithin depth root d parent parentKind))
      (a.placeAll (d.typeName :: active) root d parent parentKind es) := by
  induction es with
  | nil =>
    rw [Applier.placeAll]
    exact .pure ()
  | cons e es ihes =>
    rw [Element.heightAll] at h
    rw [Applier.placeAll]
    change Follows _ _ (a.placeWithin depth root d parent parentKind e >>= fun _ =>
      es.forM (a.placeWithin depth root d parent parentKind)) _
    exact .bind (ih.place root parent parentKind hn (by omega)) fun _ => ihes (by omega)

/-- A scope is applied within one more than the depth of its elements. -/
lemma scope_succ (ih : a.FollowsWithin depth) {active : List String} (root : ScopeRoot)
    {d : Definition} (hn : (d.typeName :: active).Nodup)
    (h : a.enterable (d.typeName :: active) * a.tallest + d.height ≤ depth + 1) :
    Follows active active (a.scopeWithin (depth + 1) root d)
      (a.applyScope (d.typeName :: active) root d) := by
  rw [← heightAll_children_eq] at h
  rw [applyScope, scopeWithin]
  refine .bind (.onRun _) fun _ => .restack hn (.bind (ih.placeAll root _ _ hn (by omega)) fun _ => ?_)
  exact (Follows.onRun _).andRestack List.tail hn.of_cons

/-- An element is placed within one more than the depth of what is inside it. -/
lemma place_succ (ih : a.FollowsWithin depth) {active : List String} (root : ScopeRoot)
    {d : Definition} (parent : NodeId) (parentKind : Kind) {e : Element}
    (hn : (d.typeName :: active).Nodup)
    (h : a.enterable (d.typeName :: active) * a.tallest + e.height ≤ depth + 1) :
    Follows (d.typeName :: active) (d.typeName :: active)
      (a.placeWithin (depth + 1) root d parent parentKind e)
      (a.place (d.typeName :: active) root d parent parentKind e) := by
  rw [height_eq] at h
  rw [Applier.place, placeWithin]
  refine .bind (.onRun _) fun id => ?_
  have reference : Follows (d.typeName :: active) (d.typeName :: active)
      (if e.kind = .component then a.referenceWithin depth e.name id e.reference else pure ())
      (if e.kind = .component then
        a.applyReference (d.typeName :: active) d.typeName e.name id e.reference else pure ()) := by
    split
    · exact ih.reference e.name id hn (by omega)
    · exact .pure ()
  by_cases hc : e.kind.acceptsChildren = true
  · simp only [if_pos hc]
    exact .bind (ih.placeAll root id e.kind hn (by omega)) fun _ => reference
  · simp only [if_neg hc]
    exact reference

/-- A component is entered whose definition is known, unless its type is on the stack. -/
lemma enter (ih : a.FollowsWithin depth) {active : List String} {typeName : String}
    (element : String) (id : NodeId) {r : Option TypeReference} {nested : Definition}
    (hn : (typeName :: active).Nodup) (hr : a.referenced? r = some nested)
    (h : nested.typeName ∉ typeName :: active →
      a.enterable (nested.typeName :: typeName :: active) * a.tallest + nested.height ≤ depth) :
    Follows (typeName :: active) (typeName :: active) (a.referenceWithin (depth + 1) element id r)
      (if nested.typeName ∈ typeName :: active then
        warn (selfContained typeName element nested.typeName)
      else inNewScope do
        let _ ← a.applyScope (nested.typeName :: typeName :: active)
          ⟨id, nested.typeName, true⟩ nested) := by
  rw [referenceWithin, hr]
  refine .active ?_
  split
  · exact .onRun _
  · next hnew =>
    exact .inNewScope (.bind (ih.scope _ (List.nodup_cons.2 ⟨hnew, hn⟩) (h hnew)) fun _ => .pure ())

/-- A reference is followed within one more than the depth of what it stands for. -/
lemma reference_succ (ih : a.FollowsWithin depth) {active : List String} {typeName : String}
    (element : String) (id : NodeId) {r : Option TypeReference} (hn : (typeName :: active).Nodup)
    (h : a.enterable (typeName :: active) * a.tallest + referenceHeight r ≤ depth + 1) :
    Follows (typeName :: active) (typeName :: active) (a.referenceWithin (depth + 1) element id r)
      (a.applyReference (typeName :: active) typeName element id r) := by
  rcases r with _ | _ | _
  case none =>
    rw [applyReference]
    exact .pure ()
  case some.inline nested =>
    -- A definition in place is smaller, and the types on the stack only get more.
    rw [applyReference]
    refine ih.enter element id hn rfl fun _ => ?_
    have hle := Nat.mul_le_mul_right a.tallest
      (a.enterable_cons_le (typeName :: active) nested.typeName)
    rw [referenceHeight] at h
    omega
  case some.named name =>
    rw [applyReference]
    split
    · next hl =>
      rw [referenceWithin, referenced?, hl]
      exact .pure ()
    · next nested hl =>
      -- A definition of the library may be larger, but it cannot be entered again.
      simp only [dite_eq_ite]
      refine ih.enter element id hn hl fun hnew => ?_
      have hlt := Nat.mul_le_mul_right a.tallest (a.enterable_cons_lt hl hnew)
      rw [Nat.succ_mul] at hlt
      have hle := a.height_le_tallest hl
      rw [referenceHeight] at h
      · omega
      · exact fun _ h => TypeReference.noConfusion (Option.some.inj h)

end FollowsWithin

/-- **Calls that are deep enough follow an application.** Every call goes to a smaller part of the
same definition, or to a definition in place, which is smaller as well and puts one more type on the
stack, or to a definition of the library whose type is not on the stack yet. -/
theorem followsWithin (a : Applier H) (depth : Nat) : a.FollowsWithin depth := by
  induction depth with
  | zero => exact .zero
  | succ depth ih =>
    exact ⟨fun root _ hn h => ih.scope_succ root hn h,
      fun root _ parent parentKind _ hn h => ih.place_succ root parent parentKind hn h,
      fun element id _ hn h => ih.reference_succ element id hn h⟩

/-- **Calls up to the bound are enough.** For every definition, every library, whatever its
definitions refer to and under whatever names they are stored, every tree and component, and
everything that a host provides, an application whose calls may go as deep as the bound does what
the application does. No stack on the way holds a type twice, and after a success the stack is
empty.

**Proof sketch.** By `followsWithin`, beginning with an empty stack. -/
theorem applyWithin_eq (a : Applier H) (t : ViewTree H) (b : Binding) (d : Definition) {depth : Nat}
    (h : a.depthBound d ≤ depth) :
    (a.applyWithin depth t b d).1 = some (a.apply t b d) ∧
      (∀ stack ∈ (a.applyWithin depth t b d).2.history, stack.Nodup) ∧
      ∀ report, (a.apply t b d).1 = .ok report → (a.applyWithin depth t b d).2.active = [] := by
  have hf := (a.followsWithin depth).scope ⟨b.node, b.typeName, b.adopts⟩ (List.nodup_singleton _) h
    { run := { tree := t, fields := b.fields } } rfl fun stack hm => (List.not_mem_nil hm).elim
  unfold applyWithin apply
  obtain ⟨s', hd, ⟨captured, hb, hr, hs⟩ | ⟨e, hb, hr⟩⟩ := hf
  · simp only at hr
    rw [hb, hr]
    exact ⟨rfl, hd, fun _ _ => hs⟩
  · simp only at hr
    rw [hb, hr]
    exact ⟨rfl, hd, nofun⟩

/-- A component with another one inside. -/
def around (typeName inner : String) : Definition where
  typeName := typeName
  isRoot := false
  isAnonymous := false
  styles := []
  properties := []
  children :=
    [{ kind := .component, field := none, layout := {}, properties := [], styles := [],
       children := [], reference := some (.named inner), name := "inner" }]

/-- A library of two components that contain each other, stored under names of their own. -/
def ring : Applier Empty where
  capabilities := {}
  sheets := {}
  library := ⟨[("left", around "A" "right"), ("right", around "B" "left")]⟩

/-- Both are entered once, nine calls deep at most. -/
theorem applyWithin_ring :
    let t := (({} : ViewTree Empty).insert { element := .generic (.wrapper "Start") }).2
    let b := Binding.adopting ⟨0⟩ "Start"
    let d := around "Start" "left"
    ring.depthBound d = 9 ∧
      (∃ report, (ring.apply t b d).1 = .ok report ∧ report.definitions = ["Start", "A", "B"]) ∧
      (ring.applyWithin 9 t b d).1 = some (ring.apply t b d) ∧
      (∀ stack ∈ (ring.applyWithin 9 t b d).2.history, stack.Nodup) ∧
      (ring.applyWithin 9 t b d).2.active = [] := by
  intro t b d
  have hbound : ring.depthBound d = 9 := by decide
  obtain ⟨heq, hnodup, hempty⟩ := ring.applyWithin_eq t b d (Nat.le_of_eq hbound)
  have hentered : (ring.applyWithin 9 t b d).1.bind (fun r => r.1.toOption.map (·.definitions)) =
      some ["Start", "A", "B"] := by decide +kernel
  rw [heq, Option.bind_some] at hentered
  obtain ⟨report, hreport, hdefinitions⟩ := Option.map_eq_some_iff.1 hentered
  have happlied : (ring.apply t b d).1 = .ok report := by
    cases hr : (ring.apply t b d).1 with
    | error e =>
      rw [hr] at hreport
      cases hreport
    | ok report' =>
      rw [hr] at hreport
      cases hreport
      rfl
  exact ⟨hbound, ⟨report, happlied, hdefinitions⟩, heq, hnodup, hempty report happlied⟩

end Applier

end ViewMarkup
