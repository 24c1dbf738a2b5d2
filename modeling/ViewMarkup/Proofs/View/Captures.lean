import ViewMarkup.Proofs.View.Repeating

/-!
# What a binding has captured

A binding does not hold the constraints that it captures. It notes for every name a node and a place
among the constraints of the node, and looks there when it is asked. Meanwhile the constraints of the
node are replaced, the names move to other elements, and the nodes of fields live on.

After an application that succeeds, all this fits together: a name is noted if and only if a constraint
of the component's own scope is captured under it, and what is found for it is the constraint in force
that the last of these has become.

## Main definitions

* `PlacedView.constrained` — the constraints of views, in order.
* `PlacedView.Constrained.Yields` — what one of them has become.

## Main statements

* `Applier.get?_capturedOf` — what is noted under a name.
* `Applier.captured_after_history` — what a binding has captured, whatever came before.
-/

namespace ViewMarkup

open Element

variable {H : Type}

/-! ### The constraints of a scope -/

/-- A view with one of the constraints of its element. -/
structure PlacedView.Constrained where
  /-- The view. -/
  view : PlacedView
  /-- The constraint. -/
  constraint : Constraint
  /-- The place of the constraint. -/
  index : Nat

namespace PlacedView

/-- The constraints of views, in order. -/
def constrained (views : List PlacedView) : List Constrained :=
  views.flatMap fun v => v.element.layout.constraints.zipIdx.map fun (c, index) => ⟨v, c, index⟩

/-- Where the constraint is found. -/
def Constrained.handle (y : Constrained) : ConstraintHandle := ⟨y.view.node, y.index⟩

/-- **What a constraint of a scope has become** in a tree: a constraint in force at the node of its
element and at its place there, as it was declared, with what its target means in the scope. -/
structure Constrained.Yields (t : ViewTree H) (views : List PlacedView) (y : Constrained)
    (lc : LiveConstraint) : Prop where
  /-- It is found at the node of the element. -/
  found : ∃ n, t.get? y.view.node = some n ∧ n.constraints[y.index]? = some lc
  /-- It is the constraint that was declared. -/
  declared_eq : lc.declared = y.constraint
  /-- It relates to what its target means. -/
  means : ∃ parent, t.parent? y.view.node = some parent ∧
    y.constraint.target.Means views parent lc.target

variable {views : List PlacedView}

/-- What is constrained is declared by the element of its view. -/
lemma mem_of_mem_constrained {y : Constrained} (h : y ∈ constrained views) :
    y.view ∈ views ∧ y.view.element.layout.constraints[y.index]? = some y.constraint := by
  obtain ⟨v, hv, hy⟩ := List.mem_flatMap.1 h
  obtain ⟨⟨c, index⟩, hc, rfl⟩ := List.mem_map.1 hy
  exact ⟨hv, List.mem_zipIdx_iff_getElem?.1 hc⟩

/-- The constraints of views are those of their elements. -/
lemma exists_mem_constrained {P : Constraint → Prop} :
    (∃ y ∈ constrained views, P y.constraint) ↔
      ∃ e ∈ views.map (·.element), ∃ c ∈ e.layout.constraints, P c := by
  constructor
  · rintro ⟨y, hy, hp⟩
    obtain ⟨hv, hc⟩ := mem_of_mem_constrained hy
    exact ⟨_, List.mem_map_of_mem hv, _, List.mem_of_getElem? hc, hp⟩
  · rintro ⟨e, he, c, hc, hp⟩
    obtain ⟨v, hv, rfl⟩ := List.mem_map.1 he
    obtain ⟨i, hi⟩ := List.mem_iff_getElem?.1 hc
    refine ⟨⟨v, c, i⟩, List.mem_flatMap.2 ⟨v, hv, List.mem_map.2 ⟨(c, i), ?_, rfl⟩⟩, hp⟩
    exact List.mem_zipIdx_iff_getElem?.2 hi

/-- Where the nodes have the constraints of their elements, each constraint has become one. -/
lemma Constrained.exists_yields {t : ViewTree H} {top : NodeId} {y : Constrained}
    (hy : y ∈ constrained views) (h : ∀ v ∈ views, v.IsConstrained t top views) :
    ∃ lc, y.Yields t views lc := by
  obtain ⟨hv, hc⟩ := mem_of_mem_constrained hy
  obtain ⟨parent, n, hp, hn, hcs⟩ := h _ hv
  obtain ⟨lc, hlc, hdeclared, hm, -⟩ := exists_getElem? hcs.flip hc
  exact ⟨lc, ⟨n, hn, hlc⟩, hdeclared, parent, hp, hm⟩

end PlacedView

namespace Applier

/-! ### What is noted -/

section Captured

variable {typeName : String} {views : List PlacedView} {rebuilt : List (NodeId × List LiveConstraint)}

/-- What is captured is noted in the order of the elements. -/
lemma flatMap_captures (h : allConstraints typeName views = .ok rebuilt) :
    rebuilt.flatMap captures = (PlacedView.constrained views).filterMap fun y =>
      y.constraint.captureName.map fun name => (name, y.handle) := by
  have one : ∀ (p : PlacedView) (cs : List LiveConstraint),
      p.element.layout.constraints = cs.map (·.declared) →
      captures (p.node, cs) = (p.element.layout.constraints.zipIdx.map fun (c, index) =>
        (⟨p, c, index⟩ : PlacedView.Constrained)).filterMap fun y =>
          y.constraint.captureName.map fun name => (name, y.handle) := by
    intro p cs hcs
    rw [hcs, List.zipIdx_map, List.map_map, List.filterMap_map]
    rfl
  rw [PlacedView.constrained, List.filterMap_flatMap, List.flatMap_def, List.flatMap_def]
  refine congrArg List.flatten ?_
  rw [← List.forall₂_eq_eq_eq, List.forall₂_map_left_iff, List.forall₂_map_right_iff]
  refine ((Except.mapM_eq_ok.1 h).imp fun p entry hp => ?_).flip
  obtain ⟨cs, hcs, rfl⟩ := Except.map_eq_ok.1 hp
  have hdeclared := (liveConstraints_spec hcs).imp fun c lc h => h.1.symm
  rw [← List.forall₂_map_right_iff, List.forall₂_eq_eq_eq] at hdeclared
  exact one p cs hdeclared

/-- **What is noted under a name** is where the last constraint is found that is captured under it. -/
theorem get?_capturedOf (h : allConstraints typeName views = .ok rebuilt) (name : String) :
    (capturedOf rebuilt).get? name =
      ((PlacedView.constrained views).filter fun y =>
        y.constraint.captureName = some name).getLast?.map (·.handle) := by
  have pick : ∀ ys : List PlacedView.Constrained,
      (ys.filterMap fun y => y.constraint.captureName.map fun name => (name, y.handle)).filter
        (·.1 = name) =
      (ys.filter fun y => y.constraint.captureName = some name).map fun y => (name, y.handle) := by
    intro ys
    induction ys with
    | nil => rfl
    | cons y ys ih =>
      rw [List.filterMap_cons]
      cases hc : y.constraint.captureName with
      | none => rw [List.filter_cons_of_neg (by simp [hc])]; exact ih
      | some other =>
        by_cases hn : other = name
        · subst hn
          rw [List.filter_cons_of_pos (by simp [hc])]
          simp [ih]
        · rw [List.filter_cons_of_neg (by simp [hc, hn])]
          simp [ih, hn]
  rw [capturedOf_eq, Table.get?_foldl_insert_eq, flatMap_captures h, pick, List.getLast?_map,
    Option.map_map]
  exact Option.or_none

/-- The names that are noted are those under which something is captured. -/
lemma mem_keys_capturedOf (h : allConstraints typeName views = .ok rebuilt) {name : String} :
    name ∈ (capturedOf rebuilt).keys ↔
      ∃ e ∈ views.map (·.element), ∃ c ∈ e.layout.constraints, c.captureName = some name := by
  rw [Table.mem_keys_iff, ← PlacedView.exists_mem_constrained]
  simp only [get?_capturedOf h]
  rw [← Option.isSome_iff_exists, Option.isSome_map, List.getLast?_isSome, ne_eq,
    List.filter_eq_nil_iff]
  simp

end Captured

/-! ### One application -/

section Apply

variable [Widget H] {a : Applier H} {t t' : ViewTree H} {b b' : Binding} {d : Definition}
  {report : ApplyReport}

/-- What an application captures are the constraints of the views of its scope. -/
lemma exists_captured (ha : a.KnowsParsed) (hd : d.IsParsed) (h : Holds b.node t b.fields)
    (hr : a.apply t b d = (.ok report, t', b')) :
    ∃ views deep rebuilt, a.Reflects d b t t' report views deep ∧
      allConstraints d.typeName views = .ok rebuilt ∧ b'.captured = capturedOf rebuilt := by
  have meets := a.applyScope_meets [d.typeName] ⟨b.node, b.typeName, b.adopts⟩ d
    (fun name d' hn => (ha name d' hn).areSound) { tree := t, fields := b.fields } hd.areSound rfl h
  unfold apply at hr
  split at hr
  · next captured s' hs =>
    cases hr
    obtain ⟨K, ids, views, deep, M⟩ := meets.of_ok hs
    obtain ⟨rebuilt, hrebuilt, rfl⟩ := exists_rebuilt hs
    rw [M.placed_eq] at hrebuilt
    exact ⟨views, deep, rebuilt, M.reflects hd h K.holds K.fields_mono, hrebuilt, rfl⟩
  · cases hr

/-- After an application that succeeds, the binding notes the names of its scope, and finds for each
of them what the last constraint has become that is captured under it. -/
lemma captured_apply (ha : a.KnowsParsed) (hd : d.IsParsed) (h : Holds b.node t b.fields)
    (hr : a.apply t b d = (.ok report, t', b')) :
    (∀ name, name ∈ b'.captured.keys ↔
      ∃ e ∈ d.elements, ∃ c ∈ e.layout.constraints, c.captureName = some name) ∧
    ∃ views, views.map (·.element) = d.elements ∧
      report.named.entries = views.map (fun v => (v.element.name, v.node)) ∧
      ∀ name, Option.Rel (PlacedView.Constrained.Yields t' views)
        ((PlacedView.constrained views).filter fun y =>
          y.constraint.captureName = some name).getLast?
        (b'.captured? t' name) := by
  obtain ⟨views, deep, rebuilt, R, hrebuilt, hcaptured⟩ := exists_captured ha hd h hr
  obtain ⟨-, h'⟩ := holds_apply ha hd h
  rw [hr] at h'
  have constrained := R.shows.isConstrained hd.isScope R.elements_eq .refl h'.contains
  refine ⟨fun name => ?_, views, R.elements_eq, R.named_eq, fun name => ?_⟩
  · rw [hcaptured, mem_keys_capturedOf hrebuilt, R.elements_eq]
  · rw [Binding.captured?, hcaptured, get?_capturedOf hrebuilt]
    cases hlast : ((PlacedView.constrained views).filter fun y =>
        y.constraint.captureName = some name).getLast? with
    | none => exact .none
    | some y =>
      obtain ⟨hy, -⟩ := List.mem_filter.1 (List.mem_of_getLast? hlast)
      obtain ⟨lc, hyields⟩ := PlacedView.Constrained.exists_yields hy constrained
      obtain ⟨n, hn, hlc⟩ := hyields.found
      have found : ((t'.get? y.handle.node).bind fun n => n.constraints[y.handle.index]?) =
          some lc := by
        rw [show y.handle.node = y.view.node from rfl, hn]
        exact hlc
      rw [Option.map_some, Option.bind_some, found]
      exact .some hyields

/-! ### Any history -/

/-- **What a binding has captured, whatever came before.** A component that creates its fields begins
without any on a living node of a tree whose links fit together, and undergoes any applications of
definitions that come from documents, each of which may fail. If one more application succeeds, then
the binding holds captured constraints under those names alone under which a constraint of the
definition's own scope is captured. For each of them it finds the constraint in force that the last
such constraint has become, in document order of the elements and then in the order of the
constraints of each; it is at the node that was reported for its element.

**Proof sketch.** The names are noted anew with the constraints of the scope, one after the other, so
that of several under one name the last remains (`get?_capturedOf`). The nodes have the constraints of
their elements in order (`Shows.isConstrained`), so that a place among those of the element is one
among those of its node. -/
theorem captured_after_history {node : NodeId} (typeName : String) (F : t.Forest)
    (hnode : t.contains node = true) (steps : List (Applier H × Definition))
    (hsteps : ∀ step ∈ steps, step.1.KnowsParsed ∧ step.2.IsParsed)
    (ha : a.KnowsParsed) (hd : d.IsParsed) {t₁ : ViewTree H} {b₁ : Binding}
    (h₁ : applyEach t (.adopting node typeName) steps = (t₁, b₁))
    (hr : a.apply t₁ b₁ d = (.ok report, t', b')) :
    (∀ name, name ∈ b'.captured.keys ↔
      ∃ e ∈ d.elements, ∃ c ∈ e.layout.constraints, c.captureName = some name) ∧
    ∃ views, views.map (·.element) = d.elements ∧
      report.named.entries = views.map (fun v => (v.element.name, v.node)) ∧
      ∀ name, Option.Rel (PlacedView.Constrained.Yields t' views)
        ((PlacedView.constrained views).filter fun y =>
          y.constraint.captureName = some name).getLast?
        (b'.captured? t' name) := by
  have h := holds_applyEach (b := .adopting node typeName) steps hsteps (.start F hnode)
  rw [h₁] at h
  exact captured_apply ha hd (h.1 ▸ h.2) hr

end Apply

/-- A constraint of the top, captured under `c`. -/
def kept (multiplier constant : Float) : Constraint :=
  ⟨some "c", .top, .parent, some .top, .equal, multiplier, constant, .required⟩

/-- A constraint that is captured under a name. -/
lemma ofText_kept : Constraint.ofText "top" "c = super" = .ok [kept 1.0 0.0] := by
  have tokens : Token.scan "c = super" =
      .ok [⟨.ident, "c", 0⟩, ⟨.assign, "=", 2⟩, ⟨.ident, "super", 4⟩] := by cbv
  have segments : Constraint.segments [⟨.ident, "c", 0⟩, ⟨.assign, "=", 2⟩, ⟨.ident, "super", 4⟩] =
      [[⟨.ident, "c", 0⟩, ⟨.assign, "=", 2⟩, ⟨.ident, "super", 4⟩]] := by cbv
  have clause : Clause.ofTokens [⟨.ident, "c", 0⟩, ⟨.assign, "=", 2⟩, ⟨.ident, "super", 4⟩] =
      .ok ⟨some "c", .equal, .parent, none, [], .required⟩ := by cbv
  rw [Constraint.ofText, tokens]
  change Constraint.ofSegments "top" _ (Constraint.segments _) = _
  rw [segments, Constraint.ofSegments, clause]
  rfl

/-- A component with a label that it holds and another one, each with a constraint that is captured
under the same name. -/
def keptTwice (c : Constraint) : Definition where
  typeName := "A"
  isRoot := false
  isAnonymous := false
  styles := []
  properties := []
  children :=
    [⟨.label, some "a", { constraints := [c] }, [], [], [], none, "a"⟩,
     ⟨.label, none, { id := some "b", constraints := [c] }, [], [], [], none, "b"⟩]

/-- The document with the constraint in two places was parsed. -/
lemma isParsed_keptTwice : (keptTwice (kept 1.0 0.0)).IsParsed := by
  have field : AttributeRole.ofKey "field" = .field := by cbv
  have id : AttributeRole.ofKey "layout:id" = .layout "id" := by cbv
  have top : AttributeRole.ofKey "layout:top" = .layout "top" := by cbv
  have trim : Text.trim "a" = "a" := by cbv
  have trim' : Text.trim "b" = "b" := by cbv
  have held : Declared.ofAttributes .label "Label" [("field", "a"), ("layout:top", "c = super")] =
      .ok { field := some "a", layout := { constraints := [kept 1.0 0.0] } } := by
    simp only [Declared.ofAttributes, List.foldlM_cons, Declared.add, field, top, Layout.set,
      ofText_kept, trim]
    rfl
  have named : Declared.ofAttributes .label "Label" [("layout:id", "b"), ("layout:top", "c = super")] =
      .ok { layout := { id := some "b", constraints := [kept 1.0 0.0] } } := by
    simp only [Declared.ofAttributes, List.foldlM_cons, Declared.add, id, top, Layout.set,
      ofText_kept, trim']
    rfl
  have first : Element.ofNode ⟨[], "A"⟩ {}
      ⟨"Label", [("field", "a"), ("layout:top", "c = super")], []⟩ =
      .ok (⟨.label, some "a", { constraints := [kept 1.0 0.0] }, [], [], [], none, "a"⟩,
        ⟨["a"], {}⟩) := by
    rw [Element.ofNode, show Kind.ofTag? "Label" = some .label from rfl]
    simp only [held]
    rfl
  have second : Element.ofNode ⟨[], "A"⟩ ⟨["a"], {}⟩
      ⟨"Label", [("layout:id", "b"), ("layout:top", "c = super")], []⟩ =
      .ok (⟨.label, none, { id := some "b", constraints := [kept 1.0 0.0] }, [], [], [], none, "b"⟩,
        ⟨["b", "a"], {}⟩) := by
    rw [Element.ofNode, show Kind.ofTag? "Label" = some .label from rfl]
    simp only [named]
    rfl
  have read : Xml.Node.read
      "<Component type=\"A\"><Label field=\"a\" layout:top=\"c = super\"/><Label layout:id=\"b\" layout:top=\"c = super\"/></Component>" =
      .ok ⟨"Component", [("type", "A")],
        [⟨"Label", [("field", "a"), ("layout:top", "c = super")], []⟩,
         ⟨"Label", [("layout:id", "b"), ("layout:top", "c = super")], []⟩]⟩ := by
    rw [Xml.Node.read_ofList]
    cbv
  have elements : Element.ofNodes ⟨[], "A"⟩ {}
      [⟨"Label", [("field", "a"), ("layout:top", "c = super")], []⟩,
       ⟨"Label", [("layout:id", "b"), ("layout:top", "c = super")], []⟩] =
      .ok ((keptTwice (kept 1.0 0.0)).children, ⟨["b", "a"], {}⟩) := by
    simp only [Element.ofNodes, first, second, bind, Except.bind]
    rfl
  exact (Definition.isParsed_of_ofText (ofText_eq_ok read rfl rfl rfl elements)).1

/-- Of two constraints that are captured under one name, the binding finds that of the later element,
also when a label has been applied before that has none. -/
theorem captured_keptTwice :
    ∃ report t' b' n lc,
      labelHost.apply labelledOnce.1 labelledOnce.2 (keptTwice (kept 1.0 0.0)) =
        (.ok report, t', b') ∧
      report.named.entries = [("a", ⟨1⟩), ("b", ⟨2⟩)] ∧
      (∀ name, name ∈ b'.captured.keys ↔ name = "c") ∧ b'.captured? t' "c" = some lc ∧
      t'.get? ⟨2⟩ = some n ∧ n.constraints[0]? = some lc ∧ lc.declared = kept 1.0 0.0 := by
  have known : labelHost.KnowsParsed := fun name d hn => by cases hn
  have placed : ∀ multiplier constant, (labelHost.apply labelledOnce.1 labelledOnce.2
      (keptTwice (kept multiplier constant))).1.toOption.map (·.named.entries) =
        some [("a", ⟨1⟩), ("b", ⟨2⟩)] := fun m k => by cbv
  have placed := placed 1.0 0.0
  rcases hr : labelHost.apply labelledOnce.1 labelledOnce.2 (keptTwice (kept 1.0 0.0))
    with ⟨error | report, t', b'⟩
  · rw [hr] at placed
    cases placed
  · rw [hr] at placed
    have named : report.named.entries = [("a", ⟨1⟩), ("b", ⟨2⟩)] := Option.some.inj placed
    obtain ⟨keys, views, elements, nodes, yields⟩ := captured_after_history "A"
      (ViewTree.Forest.empty.insert _) rfl [(labelHost, labelled)] (by simp [isParsed_labelled, known])
      known isParsed_keptTwice rfl hr
    obtain ⟨v, w, rfl⟩ : ∃ v w, views = [v, w] := by
      rw [← List.length_eq_two, ← List.length_map, elements]
      rfl
    obtain ⟨hv, hw⟩ : v.element = (keptTwice (kept 1.0 0.0)).children[0] ∧
        w.element = (keptTwice (kept 1.0 0.0)).children[1] := by
      simpa [Definition.elements, walkAll, walk, keptTwice] using elements
    have hnode : w.node = ⟨2⟩ := by
      rw [named] at nodes
      simp only [List.map_cons, List.map_nil, List.cons.injEq, Prod.mk.injEq, and_true] at nodes
      exact nodes.2.2.symm
    have last : ((PlacedView.constrained [v, w]).filter fun y =>
        y.constraint.captureName = some "c").getLast? = some ⟨w, kept 1.0 0.0, 0⟩ := by
      simp [PlacedView.constrained, hv, hw, keptTwice, kept]
    have found := yields "c"
    rw [last] at found
    generalize hc : b'.captured? t' "c" = lc at found
    obtain ⟨⟨n, hn, hlc⟩, hdeclared, -⟩ := found
    refine ⟨report, t', b', n, _, rfl, named, fun name => ?_, hc, hnode ▸ hn, hlc, hdeclared⟩
    rw [keys]
    simp [Definition.elements, walkAll, walk, keptTwice, kept, eq_comm]

end Applier

end ViewMarkup
