import ViewMarkup.Proofs.Source.Scoping
import ViewMarkup.Proofs.View.Captures

/-!
# Captured constraints

A routine assigns every captured constraint to a field of the component, those of the anonymous
components inside it too. An application has a scope for every component, and the binding holds what
is captured in the outermost scope alone: what is captured further inside is lost when its scope ends.

So a name that is borne inside an anonymous component only is assigned, but nothing is bound to it.
Where the last constraint in document order that bears a name belongs to the component's own scope,
the routine and the binding mean the same constraint of the same element.

A routine speaks of elements by local names. These are given out as texts that differ, but two texts may
read as one name, and then it stands for the element that got it last. So it is where local names are
different that the element of a statement is the one that the name was given to.

## Main definitions

* `BuiltConstraint.Renders` — a statement of a routine means a constraint.
* `ConstraintHandle.Finds` — what a binding holds means a constraint.

## Main statements

* `Applier.finds_of_apply` — the constraints that a binding holds.
* `Routine.captured_agrees` — a routine and a binding.
* `Routine.captured_agrees_sided` — a constraint of an anonymous component and one of the own scope.
* `Routine.not_held_cornered` — a constraint that is assigned but not held.
-/

namespace ViewMarkup

open Element

variable {H : Type}

/-- **A statement renders a constraint of a definition**: it says what the constraint says, it relates
what the markup says, and the local name of the element stands for the element. -/
structure BuiltConstraint.Renders (d : Definition) (r : Routine) (b : BuiltConstraint) (s : Stated) :
    Prop where
  /-- It says what the constraint says. -/
  states : b.States r s
  /-- It is about the element at the place of the constraint, and about what its target means there. -/
  relates : b.Relates d.outline r.locals s
  /-- The local name stands for the element, if the local names of the routine are different. -/
  denotes : r.localNames.Nodup → r.denoted? b.element = some s.place

/-- **A handle means a constraint**: it is at the node that was reported for the element, in the same
place among the constraints, and what is there was declared so. -/
structure ConstraintHandle.Finds (report : ApplyReport) (t : ViewTree H) (handle : ConstraintHandle)
    (s : Stated) : Prop where
  /-- The node is that of the element. -/
  node_eq : report.named.get? s.element.name = some handle.node
  /-- The constraint is in the same place. -/
  index_eq : handle.index = s.index
  /-- It is the constraint that was declared. -/
  declared_eq : ∃ n lc, t.get? handle.node = some n ∧ n.constraints[handle.index]? = some lc ∧
    lc.declared = s.constraint

/-! ### What a binding holds -/

/-- The constraints of a list of elements, each with its place among those of its element. -/
def Element.constrainedAll (es : List Element) : List (Element × Constraint × Nat) :=
  es.flatMap fun e => e.layout.constraints.zipIdx.map fun (c, index) => (e, c, index)

namespace Definition

/-- Of the constraints of marked elements, those of the elements that are marked. -/
lemma map_filter_own (ps : List (Element × Bool)) (k : Nat) :
    (((ps.zipIdx k).flatMap fun (p, place) => p.1.layout.constraints.zipIdx.map
      fun (c, index) => (⟨place, p.1, p.2, index, c⟩ : Stated)).filter (·.own)).map
        (fun s => (s.element, s.constraint, s.index)) =
      constrainedAll ((ps.filter (·.2)).map (·.1)) := by
  induction ps generalizing k with
  | nil => rfl
  | cons p ps ih =>
    obtain ⟨e, own⟩ := p
    rw [List.zipIdx_cons, List.flatMap_cons, List.filter_append, List.map_append, ih]
    cases own with
    | false =>
      rw [List.filter_cons_of_neg Bool.false_ne_true, List.filter_eq_nil_iff.2]
      · rfl
      · intro s hs
        obtain ⟨_, -, rfl⟩ := List.mem_map.1 hs
        exact Bool.false_ne_true
    | true =>
      rw [List.filter_cons_of_pos rfl, List.filter_eq_self.2]
      · rw [List.map_map]
        rfl
      · intro s hs
        obtain ⟨_, -, rfl⟩ := List.mem_map.1 hs
        rfl

/-- The constraints of the own scope are those of its elements. -/
lemma map_filter_stated {d : Definition} (hd : d.IsParsed) :
    (d.stated.filter (·.own)).map (fun s => (s.element, s.constraint, s.index)) =
      constrainedAll d.elements := by
  rw [stated, map_filter_own, map_filter_inlinedAll _ hd.areSound.children_eq_nil]
  rfl

end Definition

namespace PlacedView

/-- The constraints of the views of a scope are those of its elements. -/
lemma map_constrained (views : List PlacedView) :
    (constrained views).map (fun y => (y.view.element, y.constraint, y.index)) =
      constrainedAll (views.map (·.element)) := by
  rw [constrained, constrainedAll, List.map_flatMap, List.flatMap_map]
  simp only [List.map_map]
  rfl

end PlacedView

namespace Applier

variable {views : List PlacedView}

/-- Of two lists that correspond, the last members do. -/
lemma rel_getLast? {α β : Type} {R : α → β → Prop} {xs : List α} {ys : List β}
    (h : List.Forall₂ R xs ys) : Option.Rel R xs.getLast? ys.getLast? := by
  rw [← List.head?_reverse, ← List.head?_reverse]
  have h := List.rel_reverse h
  revert h
  generalize xs.reverse = xs, ys.reverse = ys
  rintro (_ | ⟨hxy, _⟩)
  · exact .none
  · exact .some hxy

/-- What corresponds to nothing is nothing. -/
lemma eq_none_of_rel {α β : Type} {R : α → β → Prop} {x : Option α} (h : Option.Rel R x none) :
    x = none := by
  cases h
  rfl

/-- What corresponds to something is something. -/
lemma exists_of_rel_some {α β : Type} {R : α → β → Prop} {x : Option α} {b : β}
    (h : Option.Rel R x (some b)) : ∃ a, x = some a ∧ R a b := by
  cases h with
  | some h => exact ⟨_, rfl, h⟩

/-- If the last member satisfies a test, it is the last one that does. -/
lemma getLast?_filter {α : Type} {p : α → Bool} {xs : List α}
    (h : ∀ x ∈ xs.getLast?, p x = true) : (xs.filter p).getLast? = xs.getLast? := by
  induction xs using List.reverseRecOn with
  | nil => rfl
  | append_singleton xs x _ =>
    have hx : p x = true := h x (by simp)
    simp [List.filter_append, hx]

variable {a : Applier H} {t t' : ViewTree H} {b b' : Binding} {d : Definition} {report : ApplyReport}

/-- What was declared for a view is found at its node. -/
lemma Reflects.finds {deep : List NodeId} (R : a.Reflects d b t t' report views deep)
    {y : PlacedView.Constrained} (hy : y ∈ PlacedView.constrained views) {s : Stated}
    (h : (y.view.element, y.constraint, y.index) = (s.element, s.constraint, s.index)) :
    y.handle.Finds report t' s := by
  simp only [Prod.mk.injEq] at h
  obtain ⟨he, hc, hi⟩ := h
  obtain ⟨hv, hconstraint⟩ := PlacedView.mem_of_mem_constrained hy
  obtain ⟨slot, hslot, -, htied⟩ := R.shows.exists_tied y.view hv
  obtain ⟨lc, hlc, hdeclared, -⟩ := exists_getElem? (liveConstraints_spec htied).flip hconstraint
  exact
    { node_eq := by
        refine Table.get?_of_mem_entries R.nodup_names ?_
        rw [R.named_eq, ← he]
        exact List.mem_map.2 ⟨_, hv, rfl⟩
      index_eq := hi
      declared_eq := ⟨slot.node, lc, ViewTree.get?_of_slot? hslot, hlc, hdeclared.trans hc⟩ }

variable [Widget H]

/-- **What a binding holds** under a name is the last constraint of the own scope that is captured
under it. -/
theorem finds_of_apply (ha : a.KnowsParsed) (hd : d.IsParsed) (h : Holds b.node t b.fields)
    (hr : a.apply t b d = (.ok report, t', b')) (name : String) :
    Option.Rel (ConstraintHandle.Finds report t') (b'.captured.get? name)
      ((d.captured name).filter (·.own)).getLast? := by
  obtain ⟨views, deep, rebuilt, R, hrebuilt, hcaptured⟩ := exists_captured ha hd h hr
  have alike := List.forall₂_eq_eq_eq.symm ▸
    ((PlacedView.map_constrained views).trans (R.elements_eq ▸ (Definition.map_filter_stated hd).symm))
  rw [List.forall₂_map_left_iff, List.forall₂_map_right_iff] at alike
  have found := (List.forall₂_and_left _ _).2 ⟨fun y hy => hy, alike⟩
  have named := List.rel_filter (p := fun y : PlacedView.Constrained =>
    decide (y.constraint.captureName = some name)) (q := fun s : Stated =>
    decide (s.constraint.captureName = some name)) (fun y s h => by
      simp only [Prod.mk.injEq] at h
      simp only [h.2.2.1]) found
  rw [hcaptured, get?_capturedOf hrebuilt, Definition.captured, List.filter_comm,
    ← List.getLast?_map]
  exact rel_getLast? (List.forall₂_map_left_iff.2 (named.imp fun y s ⟨hy, h⟩ => R.finds hy h))

end Applier

/-! ### A routine and a binding -/

namespace Routine

open Applier (exists_of_rel_some)

variable {sheets : StyleSheets} {d : Definition}

/-- The first routine of a document is that of the definition that it declares. -/
lemma ofDocument_eq_cons (hd : d.isAnonymous = false) {rs : List (Routine × List BuildReport)}
    (h : ofDocument sheets d = .ok rs) : ∃ r reports rest,
      rs = (r, reports) :: rest ∧ ofDefinition sheets d = .ok (r, reports) := by
  obtain ⟨typeName, isRoot, isAnonymous, styles, properties, children⟩ := d
  rw [ofDocument, Definition.definitions, List.filter_cons_of_pos (by simpa using hd),
    Except.mapM_eq_ok, List.forall₂_cons_left_iff] at h
  obtain ⟨⟨r, reports⟩, rest, hone, -, rfl⟩ := h
  exact ⟨r, reports, rest, rfl, hone⟩

/-- The constraints of a routine render those of its definition, one by one. -/
lemma Consists.renders {r : Routine} {D : Draft} {ws : List Drafted}
    {css : List (List BuiltConstraint)} (h : r.Consists sheets d D ws css)
    (hnew : Draft.EachNew D.placed) (hd : d.IsParsed) :
    List.Forall₂ (BuiltConstraint.Renders d r) r.constraints d.stated :=
  List.Forall₂.mp (fun _ _ states relates =>
    ⟨states, relates, fun hn => denoted?_eq hn states.element_eq⟩) (h.states hd) (h.relates hnew)

/-- The constraints that a routine assigns to a field are those captured under its name. -/
lemma captured_renders {r : Routine}
    (h : List.Forall₂ (BuiltConstraint.Renders d r) r.constraints d.stated) (name : String) :
    List.Forall₂ (BuiltConstraint.Renders d r) (r.captured name) (d.captured name) :=
  List.rel_filter (fun b s hb => by simp only [hb.states.capture_eq]) h

/-- **A routine and a binding mean the same constraints** under every name whose last bearer belongs to
the component's own scope. Let the routines of a document be written and its definition be applied to a
component, such as one that begins without fields on a living node. Then the first routine assigns
to the field of a name all constraints that are captured under it, in document order, so that the
field ends up with the last one. The binding holds the last one that belongs to the component's own
scope. Where this is the last of all, the two mean the same constraint of the same element, and where
there is none at all, nothing is assigned and nothing is held.

**Proof sketch.** The routine's constraints are those of its elements one by one
(`Routine.Consists.renders`). The scope that an application notes at the end has just those among them
that belong to no anonymous component (`Element.map_filter_inlinedAll`), in the same order, and of
several under one name the last remains (`Applier.get?_capturedOf`). -/
theorem captured_agrees [Widget H] {a : Applier H} (ha : a.KnowsParsed) {text : String}
    (hd : Definition.ofText text = .ok d) {t t' : ViewTree H} {b b' : Binding}
    (h : Holds b.node t b.fields) {rs : List (Routine × List BuildReport)}
    (hrs : ofDocument a.sheets d = .ok rs) {report : ApplyReport}
    (hr : a.apply t b d = (.ok report, t', b')) :
    ∃ r reports rest, rs = (r, reports) :: rest ∧ ∀ name,
      List.Forall₂ (BuiltConstraint.Renders d r) (r.captured name) (d.captured name) ∧
        Option.Rel (ConstraintHandle.Finds report t') (b'.captured.get? name)
          ((d.captured name).filter (·.own)).getLast? ∧
        ((∀ s ∈ (d.captured name).getLast?, s.own = true) →
          Option.Rel (BuiltConstraint.Renders d r) (r.captured name).getLast?
              (d.captured name).getLast? ∧
            Option.Rel (ConstraintHandle.Finds report t') (b'.captured.get? name)
              (d.captured name).getLast?) := by
  obtain ⟨hparsed, hanonymous⟩ := Definition.isParsed_of_ofText hd
  obtain ⟨r, reports, rest, rfl, hone⟩ := ofDocument_eq_cons hanonymous hrs
  obtain ⟨D, ws, css, hD, hr'⟩ := exists_draft_of_ofDefinition hone
  refine ⟨r, reports, rest, rfl, fun name => ?_⟩
  have renders := captured_renders (hr'.renders (eachNew_of_draft hparsed hD) hparsed) name
  have finds := Applier.finds_of_apply ha hparsed h hr name
  refine ⟨renders, finds, fun hown => ⟨Applier.rel_getLast? renders, ?_⟩⟩
  rwa [Applier.getLast?_filter hown] at finds

/-! ### A constraint of the own scope, and one of an anonymous component -/

/-- A host node for a component. -/
def plainRoot : ViewTree Empty :=
  (({} : ViewTree Empty).insert { element := .generic (.wrapper "A") }).2

/-- The component holds its own root. -/
lemma holds_plainRoot :
    Holds (Binding.adopting ⟨0⟩ "A").node plainRoot (Binding.adopting ⟨0⟩ "A").fields :=
  .start (ViewTree.Forest.empty.insert _) rfl

/-- A definition with all components in place that has a routine is applied to a fresh node. -/
lemma exists_apply_plainRoot (hd : d.IsParsed) (hp : d.IsInPlace) {r : Routine}
    {reports : List BuildReport} (h : ofDefinition {} d = .ok (r, reports)) :
    ∃ report t' b', plainHost.apply plainRoot (.adopting ⟨0⟩ "A") d = (.ok report, t', b') := by
  obtain ⟨D, ws, css, hr⟩ := consists_of_ofDefinition h
  exact Applier.exists_apply_eq_ok rfl knowsParsed_plainHost hd (hd.areInPlace hp)
    holds_plainRoot rfl hr

/-- A document whose routine is written and whose components are all in place is applied to a fresh
node. Its routine has the local names, and the constraints captured under `c` are those, that are found
by reading it. -/
lemma exists_applied (text : String) (names : List String) (assigned : Nat)
    (bearers : List (String × Bool))
    (written : (Definition.ofText text).toOption.bind (fun d => (ofDocument {} d).toOption.map fun rs =>
      (decide d.IsInPlace, rs.map fun q => (q.1.localNames, (q.1.captured "c").length),
        (d.captured "c").map fun s => (s.element.name, s.own))) =
      some (true, [(names, assigned)], bearers)) :
    ∃ d r reports report t' b', Definition.ofText text = .ok d ∧
      ofDocument {} d = .ok [(r, reports)] ∧
      plainHost.apply plainRoot (.adopting ⟨0⟩ "A") d = (.ok report, t', b') ∧
      r.localNames = names ∧ (r.captured "c").length = assigned ∧
      (d.captured "c").map (fun s => (s.element.name, s.own)) = bearers := by
  obtain ⟨d, hd, written⟩ := Option.bind_eq_some_iff.1 written
  obtain ⟨rs, hrs, written⟩ := Option.map_eq_some_iff.1 written
  simp only [Prod.mk.injEq, decide_eq_true_eq] at written
  obtain ⟨hplace, hroutines, hbearers⟩ := written
  have hd := Except.toOption_eq_some.1 hd
  have hrs := Except.toOption_eq_some.1 hrs
  obtain ⟨⟨r, reports⟩, rest, rfl, hroutine, hrest⟩ := List.map_eq_cons_iff.1 hroutines
  obtain rfl := List.map_eq_nil_iff.1 hrest
  obtain ⟨hnames, hassigned⟩ := Prod.mk.inj hroutine
  obtain ⟨hparsed, hanonymous⟩ := Definition.isParsed_of_ofText hd
  obtain ⟨_, _, _, heq, hone⟩ := ofDocument_eq_cons hanonymous hrs
  cases heq
  obtain ⟨report, t', b', hr⟩ := exists_apply_plainRoot hparsed hplace hone
  exact ⟨d, r, reports, report, t', b', hd, hrs, hr, hnames, hassigned, hbearers⟩

/-- A component with an anonymous one inside. The labels of both have a constraint that is captured under
the same name. -/
def sided : String :=
  "<Component type=\"A\"><Component layout:id=\"b\"><Label layout:id=\"l\" layout:top=\"c = super\"/></Component><Label layout:id=\"k\" layout:top=\"c = super\"/></Component>"

/-- The routine assigns the constraints of both labels to the field, that of the own label last. This one
the binding holds. -/
theorem captured_agrees_sided : ∃ d r reports report t' b' b handle s,
    Definition.ofText sided = .ok d ∧ ofDocument {} d = .ok [(r, reports)] ∧
      plainHost.apply plainRoot (.adopting ⟨0⟩ "A") d = (.ok report, t', b') ∧
      r.localNames.Nodup ∧ (r.captured "c").length = 2 ∧ (d.captured "c").getLast? = some s ∧
      s.element.name = "k" ∧ s.own = true ∧ (r.captured "c").getLast? = some b ∧
      b.Renders d r s ∧ b'.captured.get? "c" = some handle ∧ handle.Finds report t' s := by
  obtain ⟨d, r, reports, report, t', b', hd, hrs, hr, hnames, hassigned, hbearers⟩ :=
    exists_applied sided ["b", "b_l", "k"] 2 [("l", false), ("k", true)] (by
        unfold sided
        rw [Definition.ofText_ofList]
        decide +kernel)
  obtain ⟨inner, rest, hlist, -, hrest⟩ := List.map_eq_cons_iff.1 hbearers
  obtain ⟨s, rest, rfl, hs, hrest⟩ := List.map_eq_cons_iff.1 hrest
  obtain rfl := List.map_eq_nil_iff.1 hrest
  obtain ⟨hname, hown⟩ := Prod.mk.inj hs
  obtain ⟨_, _, _, heq, agrees⟩ := captured_agrees knowsParsed_plainHost hd holds_plainRoot hrs hr
  cases heq
  obtain ⟨-, -, last⟩ := agrees "c"
  have hlast : (d.captured "c").getLast? = some s := by rw [hlist]; rfl
  rw [hlast] at last
  obtain ⟨hrenders, hfinds⟩ := last fun s' hs' => by cases hs'; exact hown
  obtain ⟨b, hb, hbs⟩ := exists_of_rel_some hrenders
  obtain ⟨handle, hhandle, hfound⟩ := exists_of_rel_some hfinds
  have hdifferent : r.localNames.Nodup := by
    rw [hnames]
    decide
  exact ⟨d, r, reports, report, t', b', b, handle, s, hd, hrs, hr, hdifferent, hassigned, hlast, hname,
    hown, hb, hbs, hhandle, hfound⟩

/-- A component with an anonymous one inside, whose label has a captured constraint. -/
def cornered : String :=
  "<Component type=\"A\"><Component layout:id=\"b\"><Label layout:id=\"l\" layout:width=\"c = == 1\"/></Component></Component>"

/-- **A constraint captured inside an anonymous component** is assigned to a field by the routine of
its document, but the binding holds nothing under its name. -/
theorem not_held_cornered : ∃ d r reports report t' b', Definition.ofText cornered = .ok d ∧
      ofDocument {} d = .ok [(r, reports)] ∧
      plainHost.apply plainRoot (.adopting ⟨0⟩ "A") d = (.ok report, t', b') ∧
      r.captured "c" ≠ [] ∧ b'.captured.get? "c" = none := by
  obtain ⟨d, r, reports, report, t', b', hd, hrs, hr, -, hassigned, hbearers⟩ :=
    exists_applied cornered ["b", "b_l"] 1 [("l", false)] (by
        unfold cornered
        rw [Definition.ofText_ofList]
        decide +kernel)
  obtain ⟨s, rest, hlist, hs, hrest⟩ := List.map_eq_cons_iff.1 hbearers
  obtain rfl := List.map_eq_nil_iff.1 hrest
  have hown : s.own = false := (Prod.mk.inj hs).2
  have finds := Applier.finds_of_apply knowsParsed_plainHost (Definition.isParsed_of_ofText hd).1
    holds_plainRoot hr "c"
  rw [hlist, List.filter_cons_of_neg (by rw [hown]; exact Bool.false_ne_true)] at finds
  refine ⟨d, r, reports, report, t', b', hd, hrs, hr, fun hnil => ?_, Applier.eq_none_of_rel finds⟩
  rw [hnil] at hassigned
  cases hassigned

end Routine

end ViewMarkup
