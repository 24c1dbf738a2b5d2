import ViewMarkup.Proofs.View.Library
import ViewMarkup.Proofs.View.Placement

/-!
# Invariants of an application

An application is a recursion over elements and over the components inside them, but it reaches the
tree through few steps: a scope begins, an element is placed, constraints are tied, and a component
that contains itself is warned about. What each of these keeps is kept by the whole application,
however deep it goes and wherever it fails.

Two things may be known when a step is taken: of the definition, if it passes from a definition to
those inside it and holds of the library; and of the node, if it holds of the nodes that elements
get.

## Main definitions

* `Live.Maintains` — a step maintains what holds of a run, also if it fails.
* `Applier.Invariant` — what is to be shown of the steps.

## Main statements

* `Applier.Invariant.applyScope` — a whole application keeps an invariant.
* `Applier.apply_of_meets` — what holds after the outermost scope holds of the application.
-/

namespace ViewMarkup

variable {H : Type}

namespace Live

variable {α β : Type} {P : Run H → Prop}

/-- A step maintains what holds of a run, also if it fails. -/
def Maintains (P : Run H → Prop) (x : Live H α) : Prop := ∀ s, P s → Meets s x (fun _ s' => P s') P

namespace Maintains

/-- A result without a step maintains everything. -/
lemma pure (v : α) : Maintains P (Pure.pure v) := fun _ h => h

/-- A change of the state maintains what it keeps. -/
lemma modify {f : Run H → Run H} (hf : ∀ s, P s → P (f s)) :
    Maintains P (modify f : Live H Unit) := hf

/-- One step after the other maintains what both do. -/
lemma bind {x : Live H α} {f : α → Live H β} (hx : Maintains P x) (hf : ∀ v, Maintains P (f v)) :
    Maintains P (x >>= f) := fun s h =>
  Meets.bind ((hx s h).imp (fun v s' h' => hf v s' h') fun _ h' => h')

/-- What is known of a result may be used in what follows. -/
lemma bind_of {G : α → Prop} {x : Live H α} {f : α → Live H β}
    (hx : ∀ s, P s → Meets s x (fun v s' => P s' ∧ G v) P) (hf : ∀ v, G v → Maintains P (f v)) :
    Maintains P (x >>= f) := fun s h =>
  Meets.bind ((hx s h).imp (fun v s' h' => hf v h'.2 s' h'.1) fun _ h' => h')

/-- A scope of its own begins without fields, and the one around it goes on with its own. -/
lemma inNewScope {x : Live H α} (hx : Maintains P x)
    (enter : ∀ s, P s → P { s with fields := {}, placed := [] })
    (leave : ∀ s s', P s → P s' → P { s' with fields := s.fields, placed := s.placed }) :
    Maintains P (Applier.inNewScope x) := by
  intro s h
  have inside := hx { s with fields := {}, placed := [] } (enter s h)
  unfold Meets at *
  unfold Applier.inNewScope
  cases hs : x { s with fields := {}, placed := [] } with
  | ok v s' =>
    rw [hs] at inside
    exact leave s s' h inside
  | error e s' =>
    rw [hs] at inside
    exact leave s s' h inside

end Maintains

end Live

namespace Applier

open Live Element

variable [Widget H] {a : Applier H} {P : Run H → Prop} {Known : Definition → Prop}
  {Free : NodeId → Prop}

/-- **What is to be shown of the steps** for something to hold throughout an application: it is kept
by each of them, for definitions and at nodes of which something is known. -/
structure Invariant (a : Applier H) (P : Run H → Prop) (Known : Definition → Prop)
    (Free : NodeId → Prop) : Prop where
  /-- What is known of a definition is known of those in place inside it. -/
  inline : ∀ d e nested, Known d → e ∈ d.elements → e.reference = some (.inline nested) →
    Known nested
  /-- It is known of the library. -/
  named : ∀ name d, a.library.get? name = some d → Known d
  /-- A scope begins without fields. -/
  enter : ∀ s, P s → P { s with fields := {}, placed := [] }
  /-- The scope around it goes on with its own fields. -/
  leave : ∀ s s', P s → P s' → P { s' with fields := s.fields, placed := s.placed }
  /-- A component that contains itself is warned about. -/
  warn : ∀ typeName element nested, Maintains P (warn (selfContained typeName element nested))
  /-- What is below a node is taken apart, and it gets the properties of the root. -/
  beginScope : ∀ root d, Known d → Free root.node → Maintains P (a.beginScope root d)
  /-- An element is placed, and gets a node. -/
  placeOne : ∀ root d parent parentKind e, Known d → e ∈ d.elements → Free parent → ∀ s, P s →
    Meets s (a.placeOne root d parent parentKind e) (fun id s' => P s' ∧ Free id) P
  /-- The constraints of a scope are tied. -/
  constrain : ∀ typeName, Maintains P (constrain typeName)

section Induction

variable (a P Known Free)

/-- What is to be shown of applying a definition. -/
def ScopeMaintains (active : List String) (root : ScopeRoot) (d : Definition) : Prop :=
  Known d → Free root.node → Maintains P (a.applyScope active root d)

/-- What is to be shown of placing elements. -/
def AllMaintain (active : List String) (root : ScopeRoot) (d : Definition) (parent : NodeId)
    (parentKind : Kind) (es : List Element) : Prop :=
  Known d → walkAll es ⊆ d.elements → Free parent →
    Maintains P (a.placeAll active root d parent parentKind es)

/-- What is to be shown of placing an element. -/
def OneMaintains (active : List String) (root : ScopeRoot) (d : Definition) (parent : NodeId)
    (parentKind : Kind) (e : Element) : Prop :=
  Known d → walkAll [e] ⊆ d.elements → Free parent →
    Maintains P (a.place active root d parent parentKind e)

/-- What is to be shown of applying the definition of a component. -/
def ReferenceMaintains (active : List String) (typeName element : String) (id : NodeId)
    (r : Option TypeReference) : Prop :=
  (∀ nested, r = some (.inline nested) → Known nested) → Free id →
    Maintains P (a.applyReference active typeName element id r)

end Induction

namespace Invariant

/-- The step of the induction: an element maintains it if its reference does, and the elements inside
it. -/
lemma oneMaintains (h : Invariant a P Known Free) {active : List String} {root : ScopeRoot}
    {d : Definition} {parent : NodeId} {parentKind : Kind} {e : Element}
    (hr : ∀ id, ReferenceMaintains a P Known Free active d.typeName e.name id e.reference)
    (hc : ∀ id, AllMaintain a P Known Free active root d id e.kind e.children) :
    OneMaintains a P Known Free active root d parent parentKind e := by
  intro hd hs hparent
  have he : e ∈ d.elements := hs (by rw [walkAll_cons]; exact List.mem_cons_self)
  have hchildren := List.Subset.trans (walkAll_children_subset e []) hs
  rw [Applier.place]
  refine Maintains.bind_of (h.placeOne root d parent parentKind e hd he hparent) fun id hid => ?_
  have reference : Maintains P (if e.kind = .component then
      a.applyReference active d.typeName e.name id e.reference else Pure.pure ()) := by
    split
    · exact hr id (fun nested => h.inline d e nested hd he) hid
    · exact .pure ()
  simp only
  split
  · exact (hc id hd hchildren hid).bind fun _ => reference
  · exact reference

/-- A scope that is entered maintains it if the scope does. -/
lemma entered (h : Invariant a P Known Free) {active : List String} {id : NodeId}
    {nested : Definition} (hnested : Known nested) (hid : Free id)
    (ih : ScopeMaintains a P Known Free (nested.typeName :: active) ⟨id, nested.typeName, true⟩ nested) :
    Maintains P (inNewScope do
      let _ ← a.applyScope (nested.typeName :: active) ⟨id, nested.typeName, true⟩ nested) :=
  ((ih hnested hid).bind fun _ => .pure ()).inNewScope h.enter h.leave

/-- **An application keeps an invariant**, however far it comes.

**Proof sketch.** Induction over the application, with one case for each of its functions. The
elements that are placed are those of the definition that is applied, so that what is known of it
passes on to the definitions in place inside them. -/
theorem applyScope (h : Invariant a P Known Free) (active : List String) (root : ScopeRoot)
    (d : Definition) : ScopeMaintains a P Known Free active root d := by
  refine (applyScope.mutual_induct a (ScopeMaintains a P Known Free) (AllMaintain a P Known Free)
    (OneMaintains a P Known Free) (ReferenceMaintains a P Known Free)
    ?scope ?nil ?cons ?one ?none ?inlineActive ?inline ?unknown ?namedActive ?named).1
    active root d
  case scope =>
    intro active root d ih hd hroot
    rw [Applier.applyScope]
    exact (h.beginScope root d hd hroot).bind fun _ =>
      (ih hd (List.Subset.refl _) hroot).bind fun _ => h.constrain d.typeName
  case nil =>
    intro active root d parent parentKind _ _ _
    rw [Applier.placeAll]
    exact .pure ()
  case cons =>
    intro active root d parent parentKind e es ih ih' hd hs hparent
    rw [Applier.placeAll]
    exact (ih hd (List.Subset.trans (walkAll_singleton_subset e es) hs) hparent).bind fun _ =>
      ih' hd (List.Subset.trans (walkAll_subset_cons e es) hs) hparent
  case one => exact fun _ _ _ _ _ _ hr hc => h.oneMaintains hr hc
  case none =>
    intro active typeName element id _ _
    rw [Applier.applyReference]
    exact .pure ()
  case inlineActive =>
    intro active typeName element id nested hn _ _
    rw [Applier.applyReference, if_pos hn]
    exact h.warn _ _ _
  case inline =>
    intro active typeName element id nested hn ih hnested hid
    rw [Applier.applyReference, if_neg hn]
    exact h.entered (hnested nested rfl) hid ih
  case unknown =>
    intro active typeName element id name hname _ _
    rw [applyReference_named, hname]
    exact .pure ()
  case namedActive =>
    intro active typeName element id name nested hname hn _ _
    rw [applyReference_named, hname]
    simp only [if_pos hn]
    exact h.warn _ _ _
  case named =>
    intro active typeName element id name nested hname hn ih _ hid
    rw [applyReference_named, hname]
    simp only [if_neg hn]
    exact h.entered (h.named name nested hname) hid ih

end Invariant

/-- What holds after the outermost scope holds of the tree and of the report of an application. -/
theorem apply_of_meets {t : ViewTree H} {b : Binding} {d : Definition} {ok fail : Run H → Prop}
    (h : Meets { tree := t, fields := b.fields }
      (a.applyScope [d.typeName] ⟨b.node, b.typeName, b.adopts⟩ d) (fun _ s => ok s) fail) :
    (∃ report b' s, a.apply t b d = (.ok report, s.tree, b') ∧ report.warnings = s.warnings ∧
      ok s) ∨ ∃ error b' s, a.apply t b d = (.error error, s.tree, b') ∧ fail s := by
  unfold Meets at h
  unfold apply
  split
  · next hs =>
    rw [hs] at h
    exact .inl ⟨_, _, _, rfl, rfl, h⟩
  · next hs =>
    rw [hs] at h
    exact .inr ⟨_, _, _, rfl, h⟩

end Applier

end ViewMarkup
