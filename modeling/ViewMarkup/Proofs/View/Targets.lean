import Mathlib.Data.List.Pairwise
import ViewMarkup.Proofs.Document.InPlace
import ViewMarkup.Proofs.View.Blame
import ViewMarkup.Proofs.View.History

/-!
# What constraints relate to

After an application that succeeds, the node of every element has the constraints of the element, in
order and as declared, each with the node that its target means in the scope of the element: the
parent that the node really has, or the node of the one element that declares the field or the layout
id. This holds in every scope that was applied, also in those of the components inside, and whatever
constraints the nodes had before.

## Main definitions

* `Target.Means` — what a target means among the views of a scope.
* `PlacedView.IsConstrained` — the node of a view has the constraints of its element.
* `Applier.Constrained` — so have all nodes of a scope and of the scopes inside it.

## Main statements

* `Applier.Shows.constrained` — the nodes that show a parsed definition have its constraints.
* `Applier.constrained_after_history` — what an application makes of the constraints, whatever came
  before.
-/

namespace ViewMarkup

open Element

variable {H : Type}

/-- **What a target means** among the views of a scope, for a view with the given parent: the parent;
the view of the one element that declares the field, or if there is none, of the one with that layout
id; the view of the one element with the layout id; a number itself. -/
inductive Target.Means (views : List PlacedView) (parent : NodeId) : Target → LiveTarget → Prop where
  /-- The parent. -/
  | parent : Means views parent .parent (.node parent)
  /-- The field of an element. -/
  | field {name : String} {p : PlacedView} : p ∈ views → p.element.field = some name →
      (∀ q ∈ views, q.element.field = some name → q = p) →
      Means views parent (.field name) (.node p.node)
  /-- No field, and then the layout id of an element. -/
  | fieldId {name : String} {p : PlacedView} : (∀ q ∈ views, q.element.field ≠ some name) →
      p ∈ views → p.element.layout.id = some name →
      (∀ q ∈ views, q.element.layout.id = some name → q = p) →
      Means views parent (.field name) (.node p.node)
  /-- The layout id of an element. -/
  | id {name : String} {p : PlacedView} : p ∈ views → p.element.layout.id = some name →
      (∀ q ∈ views, q.element.layout.id = some name → q = p) →
      Means views parent (.id name) (.node p.node)
  /-- A number. -/
  | constant {value : Float} : Means views parent (.constant value) (.constant value)

/-- A target that means something among views is found among their elements. -/
lemma Target.Means.isFound {views : List PlacedView} {parent : NodeId} {target : Target}
    {live : LiveTarget} (h : target.Means views parent live) :
    target.IsFound (views.map (·.element)) := by
  cases h with
  | parent => trivial
  | field hp hf _ => exact ⟨_, List.mem_map_of_mem hp, .inl hf⟩
  | fieldId _ hp hi _ => exact ⟨_, List.mem_map_of_mem hp, .inr hi⟩
  | id hp hi _ => exact ⟨_, List.mem_map_of_mem hp, hi⟩
  | constant => trivial

/-- The node that a target means is the parent or that of a view. -/
lemma Target.Means.node_cases {views : List PlacedView} {parent id : NodeId} {target : Target}
    (h : target.Means views parent (.node id)) : id = parent ∨ ∃ p ∈ views, p.node = id := by
  cases h with
  | parent => exact .inl rfl
  | field hp _ _ => exact .inr ⟨_, hp, rfl⟩
  | fieldId _ hp _ _ => exact .inr ⟨_, hp, rfl⟩
  | id hp _ _ => exact .inr ⟨_, hp, rfl⟩

/-- **The node of a view has the constraints of its element**: the same ones in order, each as declared
and with what its target means. The nodes that are meant are alive and within a given one. -/
def PlacedView.IsConstrained (t : ViewTree H) (top : NodeId) (views : List PlacedView)
    (v : PlacedView) : Prop :=
  ∃ parent node, t.parent? v.node = some parent ∧ t.get? v.node = some node ∧
    List.Forall₂ (fun c lc => lc.declared = c ∧ c.target.Means views parent lc.target ∧
        ∀ id, lc.target = .node id → t.contains id = true ∧ t.IsWithin id top)
      v.element.layout.constraints node.constraints

namespace Applier

/-- **All nodes of a scope have the constraints of their elements**, and so have those of the scopes
that are entered from its components. There is a view for every element, and each is where its element
is. -/
inductive Constrained (a : Applier H) (t : ViewTree H) (top : NodeId) :
    List String → Definition → NodeId → List PlacedView → Prop where
  | scope {active : List String} {d : Definition} {root : NodeId} {views : List PlacedView}
      (inner : PlacedView → List PlacedView) :
      views.map (·.element) = d.elements →
      (∀ v ∈ views, v.Hangs t root false d.children views) →
      (∀ v ∈ views, v.IsConstrained t top views) →
      (∀ v ∈ views, ∀ nested, a.nested? active v.element = some nested →
        Constrained a t top (nested.typeName :: active) nested v.node (inner v)) →
      Constrained a t top active d root views

variable {a : Applier H} {t : ViewTree H} {active : List String} {d : Definition}
  {root top : NodeId} {views : List PlacedView}

/-- In no scope that is entered a target means nothing. -/
lemma Constrained.not_misses (h : a.Constrained t top active d root views) {d' : Definition}
    (hr : a.Reaches active d d') (e : Element) (target : Target) : ¬ d'.Misses e target := by
  induction hr generalizing root views with
  | here =>
    rintro ⟨he, ht, hf⟩
    obtain ⟨inner, helements, -, hconstrained, -⟩ := h
    rw [← helements] at he hf
    obtain ⟨v, hv, rfl⟩ := List.mem_map.1 he
    obtain ⟨c, hc, rfl⟩ := List.mem_map.1 ht
    obtain ⟨parent, node, -, -, hcs⟩ := hconstrained v hv
    obtain ⟨lc, -, -, hm, -⟩ := Except.exists_of_forall₂ hcs hc
    exact hf hm.isFound
  | inside he hn _ ih =>
    obtain ⟨inner, helements, -, -, hinner⟩ := h
    rw [← helements] at he
    obtain ⟨v, hv, rfl⟩ := List.mem_map.1 he
    exact ih (hinner v hv _ hn)

/-! ### The one element that is meant -/

section Scope

variable {placed : List PlacedView} {test : Element → Bool}

/-- A view that is found passes the test. -/
lemma findPlaced?_eq_some {id : NodeId} (h : findPlaced? placed test = some id) :
    ∃ p ∈ placed, test p.element = true ∧ p.node = id := by
  obtain ⟨p, hp, hid⟩ := Option.map_eq_some_iff.1 h
  have ht := List.find?_some hp
  exact ⟨p, List.mem_reverse.1 (List.mem_of_find?_eq_some hp), ht, hid⟩

/-- If none is found, then none passes the test. -/
lemma findPlaced?_eq_none (h : findPlaced? placed test = none) :
    ∀ p ∈ placed, test p.element ≠ true := fun p hp ht => by
  have := isSome_findPlaced?.2 ⟨p, hp, ht⟩
  rw [h] at this
  cases this

/-- The field of a regular element is among the names that it takes. -/
lemma mem_takenNames_of_field {e : Element} (he : e.IsRegular) {name : String}
    (hf : e.field = some name) : name ∈ e.takenNames := by
  rw [takenNames, he.name_of_field name hf]
  exact List.mem_cons_self

/-- So is its layout id. -/
lemma mem_takenNames_of_id {e : Element} {name : String} (hi : e.layout.id = some name) :
    name ∈ e.takenNames := by
  rw [takenNames, hi, Option.filter_some]
  by_cases hn : name = e.name
  · exact hn ▸ List.mem_cons_self
  · simp [hn]

/-- Two views of a scope whose elements take the same name are one. -/
lemma eq_of_mem_takenNames (hd : d.IsScope) (hviews : views.map (·.element) = d.elements)
    {p q : PlacedView} (hp : p ∈ views) (hq : q ∈ views) {name : String}
    (hn : name ∈ p.element.takenNames) (hn' : name ∈ q.element.takenNames) : q = p := by
  have nodup := hd.nodup
  rw [← hviews, List.flatMap_map, List.nodup_flatMap] at nodup
  have : Std.Symm (Function.onFun List.Disjoint fun v : PlacedView => v.element.takenNames) :=
    ⟨fun _ _ h => h.symm⟩
  by_contra hne
  exact nodup.2.forall hq hp hne hn' hn

/-- What is found for a target is what it means. -/
lemma means_of_target? (hd : d.IsScope) (hviews : views.map (·.element) = d.elements)
    {v : PlacedView} {target : Target} {live : LiveTarget}
    (h : target? views v target = some live) : target.Means views v.parent live := by
  have regular : ∀ p ∈ views, p.element.IsRegular := fun p hp =>
    hd.regular _ (hviews ▸ List.mem_map_of_mem hp)
  have byId : ∀ {name : String} {p : PlacedView}, p ∈ views → p.element.layout.id = some name →
      ∀ q ∈ views, q.element.layout.id = some name → q = p := fun hp hi q hq hi' =>
    eq_of_mem_takenNames hd hviews hp hq (mem_takenNames_of_id hi) (mem_takenNames_of_id hi')
  cases target with
  | parent =>
    cases h
    exact .parent
  | constant value =>
    cases h
    exact .constant
  | id name =>
    obtain ⟨id, hid, rfl⟩ := Option.map_eq_some_iff.1 h
    obtain ⟨p, hp, hi, rfl⟩ := findPlaced?_eq_some hid
    rw [decide_eq_true_eq] at hi
    exact .id hp hi (byId hp hi)
  | field name =>
    obtain ⟨id, hid, rfl⟩ := Option.map_eq_some_iff.1 h
    rcases Option.or_eq_some_iff.1 hid with hid | ⟨hnone, hid⟩
    · obtain ⟨p, hp, hf, rfl⟩ := findPlaced?_eq_some hid
      rw [decide_eq_true_eq] at hf
      exact .field hp hf fun q hq hf' => eq_of_mem_takenNames hd hviews hp hq
        (mem_takenNames_of_field (regular p hp) hf) (mem_takenNames_of_field (regular q hq) hf')
    · obtain ⟨p, hp, hi, rfl⟩ := findPlaced?_eq_some hid
      rw [decide_eq_true_eq] at hi
      exact .fieldId (fun q hq hf => findPlaced?_eq_none hnone q hq (decide_eq_true hf)) hp hi
        (byId hp hi)

end Scope

/-! ### Scopes that are shown -/

namespace Shows

variable {σ : Scene H} {parent : NodeId} {arranged : Bool} {es : List Element} {ids : List NodeId}
  {deep : List NodeId}

/-- The node of every view hangs below the parent of the view and is tied as the scene has it. -/
lemma exists_tied (h : a.Shows t σ parent arranged es ids views deep) :
    ∀ v ∈ views, ∃ slot, t.slot? v.node = some slot ∧
      slot.attachment.map (·.parent) = some v.parent ∧ σ.ties v slot.node.constraints := by
  induction h with
  | nil => exact fun _ hv => (List.not_mem_nil hv).elim
  | container _ _ hc hslot _ _ ih ih' =>
    rw [List.forall_mem_cons, List.forall_mem_append]
    exact ⟨⟨_, hslot, rfl, hc⟩, ih, ih'⟩
  | component _ _ hc hslot _ _ _ ih' =>
    rw [List.forall_mem_cons]
    exact ⟨⟨_, hslot, rfl, hc⟩, ih'⟩
  | leaf _ _ _ hc hslot _ ih' =>
    rw [List.forall_mem_cons]
    exact ⟨⟨_, hslot, rfl, hc⟩, ih'⟩

/-- The nodes of a scope have the constraints of its elements. -/
lemma isConstrained (hd : d.IsScope) {old : String → Option (VisualElement H)}
    (h : a.Shows t ⟨active, d, old, Tied d.typeName views⟩ root arranged es ids views deep)
    (hviews : views.map (·.element) = d.elements) (hroot : t.IsWithin root top)
    (htop : t.contains top = true) : ∀ v ∈ views, v.IsConstrained t top views := by
  intro v hv
  obtain ⟨slot, hslot, hparent, htied⟩ := h.exists_tied v hv
  have hp : t.parent? v.node = some v.parent := by rw [ViewTree.parent?, hslot]; exact hparent
  have below : ∀ q ∈ views, t.IsBelow q.node root := fun q hq =>
    h.isBelow _ (List.mem_append_left _ (List.mem_map_of_mem hq))
  have within : t.IsWithin v.parent root := by
    obtain ⟨q, hq, hw⟩ := Relation.TransGen.head'_iff.1 (below v hv)
    rw [hp] at hq
    cases hq
    exact hw
  refine ⟨v.parent, slot.node, hp, ViewTree.get?_of_slot? hslot,
    (liveConstraints_spec htied).imp fun c lc hc => ?_⟩
  obtain ⟨hdeclared, htarget⟩ := hc
  have hm := means_of_target? hd hviews htarget
  refine ⟨hdeclared, hm, fun id hid => ?_⟩
  rw [hid] at hm
  have hid' : t.IsWithin id top := by
    rcases hm.node_cases with rfl | ⟨q, hq, rfl⟩
    · exact within.trans hroot
    · exact (below q hq).to_reflTransGen.trans hroot
  refine ⟨?_, hid'⟩
  rcases ViewTree.isWithin_iff.1 hid' with rfl | hb
  · exact htop
  · exact hb.contains

end Shows

/-- A scope that is shown has its constraints, if those inside it have theirs. -/
lemma Constrained.of_shows (hd : d.IsParsed)
    {old : String → Option (VisualElement H)} {ids deep : List NodeId}
    (h : a.Shows t ⟨active, d, old, Tied d.typeName views⟩ root false d.children ids views deep)
    (hroot : t.IsWithin root top) (htop : t.contains top = true)
    (hinner : ∀ v ∈ views, ∃ inner, ∀ nested, a.nested? active v.element = some nested →
      a.Constrained t top (nested.typeName :: active) nested v.node inner) :
    a.Constrained t top active d root views := by
  have hviews : views.map (·.element) = d.elements := h.elements_eq hd.areSound.children_eq_nil
  choose! inner hinner using hinner
  exact .scope inner hviews h.hangs (h.isConstrained hd.isScope hviews hroot htop) hinner

/-- A definition that is entered from a parsed one is parsed. -/
lemma isParsed_of_nested? (ha : a.KnowsParsed) (hd : d.IsParsed) {e : Element}
    (he : e ∈ d.elements) {nested : Definition} (hn : a.nested? active e = some nested) :
    nested.IsParsed := by
  unfold nested? at hn
  split at hn
  · cases hr : e.reference with
    | none =>
      rw [hr] at hn
      cases hn
    | some r =>
      rw [hr] at hn
      cases r with
      | named name => exact ha name nested (Option.filter_eq_some_iff.1 hn).1
      | inline d' =>
        rw [enters?] at hn
        split at hn
        · cases hn
        · cases hn
          exact hd.of_mem_definitions (Definition.mem_definitions_iff.2
            (.inr (mem_definitionsAll hr _ he)))
  · cases hn

/-- **The scopes inside have their constraints**, if parsed elements are shown.

**Proof sketch.** Induction on what is shown. A component whose definition is applied shows a scope of
its own, which has its constraints by the induction's hypothesis for what is inside it. -/
theorem Shows.constrained (ha : a.KnowsParsed) {σ : Scene H} {parent : NodeId}
    {arranged : Bool} {es : List Element} {ids deep : List NodeId}
    (h : a.Shows t σ parent arranged es ids views deep) (hd : σ.definition.IsParsed)
    (hes : walkAll es ⊆ σ.definition.elements) (hp : t.IsWithin parent top)
    (htop : t.contains top = true) :
    ∀ v ∈ views, ∃ inner, ∀ nested, a.nested? σ.active v.element = some nested →
      a.Constrained t top (nested.typeName :: σ.active) nested v.node inner := by
  induction h with
  | nil => exact fun _ hv => (List.not_mem_nil hv).elim
  | @container σ _ _ e _ _ _ _ _ _ _ _ _ _ hk _ _ hslot _ _ ih ih' =>
    rw [walkAll_cons, List.cons_subset, List.append_subset] at hes
    have hid : t.IsWithin _ top := .head (ViewTree.parent?_of_slot? hslot) hp
    rw [List.forall_mem_cons, List.forall_mem_append]
    refine ⟨⟨[], fun nested hn => ?_⟩, ih hd hes.2.1 hid, ih' hd hes.2.2 hp⟩
    unfold nested? at hn
    split at hn
    · next hcomp =>
      rw [hcomp] at hk
      cases hk
    · cases hn
  | @component σ _ _ e _ _ _ _ _ _ views _ _ _ nested hn _ _ hslot hin _ ih ih' =>
    rw [walkAll_cons, List.cons_subset, List.append_subset] at hes
    have hid : t.IsWithin _ top := .head (ViewTree.parent?_of_slot? hslot) hp
    rw [List.forall_mem_cons]
    refine ⟨⟨views, fun nested' hn' => ?_⟩, ih' hd hes.2.2 hp⟩
    cases hn.symm.trans hn'
    have hd' := isParsed_of_nested? ha hd hes.1 hn
    exact .of_shows hd' hin hid htop (ih hd' (List.Subset.refl _) hid)
  | leaf _ hn _ _ hslot _ ih' =>
    rw [walkAll_cons, List.cons_subset, List.append_subset] at hes
    rw [List.forall_mem_cons]
    refine ⟨⟨[], fun nested hn' => ?_⟩, ih' hd hes.2.2 hp⟩
    rw [hn] at hn'
    cases hn'

/-! ### Any history -/

variable [Widget H] {b b₁ b' : Binding} {t₁ t' : ViewTree H}

/-- An application fails for nothing but what its error says. -/
lemma blames_of_apply (ha : a.KnowsParsed) (hd : d.IsParsed) {error : ApplyError}
    (hr : a.apply t b d = (.error error, t', b')) : a.Blames [d.typeName] d error := by
  have spec := a.applyScope_blames [d.typeName] ⟨b.node, b.typeName, b.adopts⟩ d
    (fun name d' hn => (ha name d' hn).areSound) { tree := t, fields := b.fields } hd.areSound rfl
  unfold Live.Ends at spec
  unfold apply at hr
  split at spec
  · next hs =>
    rw [hs] at hr
    cases hr
  · next hs =>
    rw [hs] at hr
    cases hr
    exact spec

/-- After an application that succeeds all nodes have the constraints of their elements. -/
lemma constrained_apply (ha : a.KnowsParsed) (hd : d.IsParsed) (h : Holds b.node t b.fields)
    {report : ApplyReport} (hr : a.apply t b d = (.ok report, t', b')) :
    ∃ views, report.named.entries = views.map (fun v => (v.element.name, v.node)) ∧
      a.Constrained t' b.node [d.typeName] d b.node views := by
  obtain ⟨views, deep, R⟩ := reflects_apply ha hd h hr
  obtain ⟨hnode, h'⟩ := holds_apply ha hd h
  rw [hr] at h'
  exact ⟨views, R.named_eq, .of_shows hd R.shows .refl h'.contains
    (R.shows.constrained ha hd (List.Subset.refl _) .refl h'.contains)⟩

/-- **What an application makes of the constraints, whatever came before.** A component that creates
its fields begins without any on a living node of a tree whose links fit together, and undergoes any
applications of definitions that come from documents, each of which may fail. If one more application
succeeds, then in the component's scope and in every scope entered inside it each node has the
constraints of its element, with the nodes that their targets mean. Unless a node cannot be had for an
element, it fails at a target if and only if a target of a scope that it enters means nothing there. -/
theorem constrained_after_history {node : NodeId} (typeName : String) (F : t.Forest)
    (hnode : t.contains node = true) (steps : List (Applier H × Definition))
    (hsteps : ∀ step ∈ steps, step.1.KnowsParsed ∧ step.2.IsParsed)
    (ha : a.KnowsParsed) (hd : d.IsParsed)
    (h₁ : applyEach t (.adopting node typeName) steps = (t₁, b₁))
    {outcome : Except ApplyError ApplyReport} (hr : a.apply t₁ b₁ d = (outcome, t', b')) :
    (∀ report, outcome = .ok report →
      ∃ views, report.named.entries = views.map (fun v => (v.element.name, v.node)) ∧
        a.Constrained t' node [d.typeName] d node views) ∧
    ((∀ error, outcome = .error error → ¬ error.IsOfPlacing) →
      ((∃ target element typeName, outcome = .error (.unresolvedTarget target element typeName)) ↔
        ∃ d' e target, a.Reaches [d.typeName] d d' ∧ d'.Misses e target)) := by
  have h := holds_applyEach (b := .adopting node typeName) steps hsteps (.start F hnode)
  rw [h₁] at h
  obtain ⟨rfl, h⟩ : b₁.node = node ∧ Holds node t₁ b₁.fields := h
  refine ⟨fun report hok => constrained_apply ha hd h (hok ▸ hr), fun hplaced => ⟨?_, ?_⟩⟩
  · rintro ⟨target, element, typeName, rfl⟩
    obtain hp | ⟨d', e, target', -, hreach, hm⟩ := blames_of_apply ha hd hr
    · exact hp.elim
    · exact ⟨d', e, target', hreach, hm⟩
  · rintro ⟨d', e, target, hreach, hm⟩
    cases outcome with
    | ok report =>
      obtain ⟨views, -, hc⟩ := constrained_apply ha hd h hr
      exact absurd hm (hc.not_misses hreach e target)
    | error error =>
      obtain hp | ⟨d'', e', target', rfl, -, -⟩ := blames_of_apply ha hd hr
      · exact absurd hp (hplaced error rfl)
      · exact ⟨target', e'.name, d''.typeName, rfl⟩

/-! ### A constraint to a later element -/

/-- A document is read when its parts are. -/
lemma ofText_eq_ok {text typeName : String} {root : Xml.Node} {styles : List Style}
    {children : List Element} {names : Names} (hread : Xml.Node.read text = .ok root)
    (htag : root.tag = componentTag) (htype : root.require "type" = .ok typeName)
    (hstyles : root.styles = .ok styles)
    (hchildren : Element.ofNodes ⟨styles, typeName⟩ {} root.withoutStyles.children =
      .ok (children, names)) :
    Definition.ofText text = .ok {
      typeName
      isRoot := (root.get? "rootView").any fun value => Text.trim value = "true"
      isAnonymous := false
      styles
      properties := Definition.rootProperties root.attributes
      children } := by
  rw [Definition.ofText, hread]
  simp only [bind, Except.bind, Definition.ofRoot, htag, ne_eq, not_true_eq_false, if_false, htype,
    hstyles, hchildren]

/-- A constraint of the top to that of an element `b`. -/
def tether (multiplier constant : Float) : Constraint :=
  ⟨none, .top, .field "b", some .top, .equal, multiplier, constant, .required⟩

/-- A component with a label that it holds, which has a constraint, and another label `b`. -/
def tethered (c : Constraint) : Definition where
  typeName := "A"
  isRoot := false
  isAnonymous := false
  styles := []
  properties := []
  children :=
    [⟨.label, some "a", { constraints := [c] }, [], [], [], none, "a"⟩,
     ⟨.label, none, { id := some "b" }, [], [], [], none, "b"⟩]

/-- A constraint to the view `b`. -/
lemma ofText_tether : Constraint.ofText "top" "b" = .ok [tether 1.0 0.0] := by
  have tokens : Token.scan "b" = .ok [⟨.ident, "b", 0⟩] := by cbv
  have segments : Constraint.segments [⟨.ident, "b", 0⟩] = [[⟨.ident, "b", 0⟩]] := by cbv
  have clause : Clause.ofTokens [⟨.ident, "b", 0⟩] =
      .ok ⟨none, .equal, .field "b", none, [], .required⟩ := by cbv
  rw [Constraint.ofText, tokens]
  change Constraint.ofSegments "top" _ (Constraint.segments _) = _
  rw [segments, Constraint.ofSegments, clause]
  rfl

/-- The document with the constraint was parsed. -/
lemma isParsed_tethered : (tethered (tether 1.0 0.0)).IsParsed := by
  have field : AttributeRole.ofKey "field" = .field := by cbv
  have top : AttributeRole.ofKey "layout:top" = .layout "top" := by cbv
  have trim : Text.trim "a" = "a" := by cbv
  have attributes : Declared.ofAttributes .label "Label" [("field", "a"), ("layout:top", "b")] =
      .ok { field := some "a", layout := { constraints := [tether 1.0 0.0] } } := by
    simp only [Declared.ofAttributes, List.foldlM_cons, Declared.add, field, top, Layout.set,
      ofText_tether, trim]
    rfl
  have first : Element.ofNode ⟨[], "A"⟩ {} ⟨"Label", [("field", "a"), ("layout:top", "b")], []⟩ =
      .ok (⟨.label, some "a", { constraints := [tether 1.0 0.0] }, [], [], [], none, "a"⟩,
        ⟨["a"], {}⟩) := by
    rw [Element.ofNode, show Kind.ofTag? "Label" = some .label from rfl]
    simp only [attributes]
    rfl
  have second : Element.ofNode ⟨[], "A"⟩ ⟨["a"], {}⟩ ⟨"Label", [("layout:id", "b")], []⟩ =
      .ok (⟨.label, none, { id := some "b" }, [], [], [], none, "b"⟩, ⟨["b", "a"], {}⟩) := by cbv
  have read : Xml.Node.read
      "<Component type=\"A\"><Label field=\"a\" layout:top=\"b\"/><Label layout:id=\"b\"/></Component>" =
      .ok ⟨"Component", [("type", "A")], [⟨"Label", [("field", "a"), ("layout:top", "b")], []⟩,
        ⟨"Label", [("layout:id", "b")], []⟩]⟩ := by
    rw [Xml.Node.read_ofList]
    cbv
  have elements : Element.ofNodes ⟨[], "A"⟩ {}
      [⟨"Label", [("field", "a"), ("layout:top", "b")], []⟩, ⟨"Label", [("layout:id", "b")], []⟩] =
      .ok ((tethered (tether 1.0 0.0)).children, ⟨["b", "a"], {}⟩) := by
    simp only [Element.ofNodes, first, second, bind, Except.bind]
    rfl
  exact (Definition.isParsed_of_ofText (ofText_eq_ok read rfl rfl rfl elements)).1

/-- A label that has been applied before gets a constraint to a label that comes after it. -/
theorem constrained_tethered :
    ∃ report t' b' views,
      labelHost.apply labelledOnce.1 labelledOnce.2 (tethered (tether 1.0 0.0)) =
        (.ok report, t', b') ∧
      report.named.entries = views.map (fun v => (v.element.name, v.node)) ∧
      labelHost.Constrained t' ⟨0⟩ ["A"] (tethered (tether 1.0 0.0)) ⟨0⟩ views := by
  have known : labelHost.KnowsParsed := fun name d hn => by cases hn
  have succeeds : ∀ multiplier constant, (labelHost.apply labelledOnce.1 labelledOnce.2
      (tethered (tether multiplier constant))).1.toOption.isSome = true := fun m k => by cbv
  rcases hr : labelHost.apply labelledOnce.1 labelledOnce.2 (tethered (tether 1.0 0.0))
    with ⟨error | report, t', b'⟩
  · have := succeeds 1.0 0.0
    rw [hr] at this
    cases this
  · obtain ⟨views, hv⟩ := (constrained_after_history "A" (ViewTree.Forest.empty.insert _) rfl
      [(labelHost, labelled)] (by simp [isParsed_labelled, known]) known isParsed_tethered rfl hr).1
      report rfl
    exact ⟨report, t', b', views, rfl, hv⟩

end Applier

end ViewMarkup
