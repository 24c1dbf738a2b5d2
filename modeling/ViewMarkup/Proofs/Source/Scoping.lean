import ViewMarkup.Proofs.Source.Locals
import ViewMarkup.Proofs.Source.Stating

/-!
# Scoping

The statements of a routine speak of elements by local names. Each local name is bound by the
statement that creates its element, before it is used; and what a statement means by a local name is
what the markup means there: the element that another one is inside of, or the one that has the field
or layout id named by a target, among the elements of the scope that the target stands in. The outline
of the definition says which element that is.

A local name is the only one of its kind if its text reads as no other text that is given out. That is
so if the names of all elements are written like names; but a layout id may also have a comment in it,
and then two elements with different ids get the same local name.

## Main definitions

* `Statement.uses`, `Statement.AreBound` — the local names that statements use are bound before.
* `AreBuilt` — the statements that build the elements of an outline.
* `BuiltConstraint.Relates` — a constraint relates what the markup says.
* `Routine.IsScoped`, `Routine.IsNamed` — the scoping of a routine and its local names.

## Main statements

* `Follows.areBuilt` — the statements of drafted elements.
* `Draft.means_of_builtTarget` — what targets mean.
* `Routine.scoped_of_ofDocument` — the routines of a document.
-/

namespace ViewMarkup

open Element

/-! ### Local names in statements -/

/-- The local names in a holder. -/
def Holder.names : Holder → List Identifier
  | component => []
  | element name => [name]

/-- The local names in the other side of a constraint. -/
def BuiltTarget.names : BuiltTarget → List Identifier
  | constant _ => []
  | anchor holder _ => holder.names

namespace Statement

/-- The local name that a statement binds. -/
def bound? : Statement → Option Identifier
  | create name _ => some name
  | _ => none

/-- The local names that a statement uses: of its receiver, of what is attached, and of both sides of a
constraint. -/
def uses : Statement → List Identifier
  | create _ _ => []
  | assign holder _ => holder.names
  | useTemplate list _ => [list]
  | useCell list _ => [list]
  | attach parent child _ => parent.names ++ [child]
  | constrain c => c.element :: c.target.names

/-- **All local names are bound before they are used**: by a statement further in front, or among those
given. -/
def AreBound (given : List Identifier) : List Statement → Prop
  | [] => True
  | s :: ss => (∀ name ∈ s.uses, name ∈ given) ∧ AreBound (given ++ s.bound?.toList) ss

/-- Statements use bound names only if the first ones do, and the others with what the first ones bind.
-/
lemma areBound_append {given : List Identifier} {ss ss' : List Statement} :
    AreBound given (ss ++ ss') ↔ AreBound given ss ∧ AreBound (given ++ ss.filterMap bound?) ss' := by
  induction ss generalizing given with
  | nil => rw [List.nil_append, List.filterMap_nil, List.append_nil, AreBound, true_and]
  | cons s ss ih =>
    rw [List.cons_append, AreBound, AreBound, ih, and_assoc, List.append_assoc]
    cases hs : s.bound? with
    | none => rw [List.filterMap_cons_none hs, Option.toList_none, List.nil_append]
    | some name => rw [List.filterMap_cons_some hs, Option.toList_some, List.singleton_append]

/-- Statements that bind nothing and use what is given. -/
lemma areBound_of_forall {given : List Identifier} {ss : List Statement}
    (h : ∀ s ∈ ss, s.bound? = none ∧ ∀ name ∈ s.uses, name ∈ given) : AreBound given ss := by
  induction ss with
  | nil => exact trivial
  | cons s ss ih =>
    rw [List.forall_mem_cons] at h
    refine ⟨h.1.2, ?_⟩
    rw [h.1.1, Option.toList_none, List.append_nil]
    exact ih h.2

/-- A statement gives an element a property or its rows. -/
def IsAbout (name : Identifier) : Statement → Prop
  | assign holder _ => holder = .element name
  | useTemplate list _ => list = name
  | useCell list _ => list = name
  | _ => False

namespace IsAbout

variable {name : Identifier} {s : Statement}

/-- A statement about an element binds nothing. -/
lemma bound?_eq_none (h : s.IsAbout name) : s.bound? = none := by
  cases s <;> first | rfl | cases h

/-- Nor is it a constraint. -/
lemma constraint?_eq_none (h : s.IsAbout name) : s.constraint? = none := by
  cases s <;> first | rfl | cases h

/-- It uses the name of that element. -/
lemma uses_eq (h : s.IsAbout name) : s.uses = [name] := by
  cases s <;> cases h <;> rfl

end IsAbout

end Statement

/-! ### The statements that build elements -/

/-- **The statements that build the elements of an outline**, with the local names that are bound before
and those that they bind: each element is created, gets what is said about it, and is attached to what
the outline says. -/
inductive AreBuilt : List Identifier → List Outlined → List Identifier → List Statement → Prop where
  /-- No elements. -/
  | nil {given : List Identifier} : AreBuilt given [] [] []
  /-- An element and those after it. -/
  | cons {given names : List Identifier} {o : Outlined} {os : List Outlined} {name : Identifier}
      {construction : Construction} {own ss : List Statement} {parent : Holder} {arranged : Bool} :
      (∀ s ∈ own, s.IsAbout name) → parent.IsAt given o.above → AreBuilt (given ++ [name]) os names ss →
      AreBuilt given (o :: os) (name :: names)
        (.create name construction :: (own ++ .attach parent name arranged :: ss))

/-- The names of a holder are local names. -/
lemma Holder.IsAt.names_subset {locals : List Identifier} {above : Option Nat} {holder : Holder}
    (h : holder.IsAt locals above) : ∀ name ∈ holder.names, name ∈ locals := by
  cases above with
  | none =>
    obtain rfl : holder = .component := h
    exact fun _ hn => (List.not_mem_nil hn).elim
  | some place =>
    obtain ⟨name, hname, rfl⟩ := h
    exact List.forall_mem_singleton.2 (List.mem_of_getElem? hname)

namespace AreBuilt

variable {given names : List Identifier} {os : List Outlined} {ss : List Statement}

/-- They bind the local names. -/
lemma filterMap_bound? (h : AreBuilt given os names ss) : ss.filterMap Statement.bound? = names := by
  induction h with
  | nil => rfl
  | @cons given names o os name construction own ss parent arranged hown _ _ ih =>
    have hnone : own.filterMap Statement.bound? = [] :=
      List.filterMap_eq_nil_iff.2 fun s hs => (hown s hs).bound?_eq_none
    rw [List.filterMap_cons_some (f := Statement.bound?) (b := name) rfl, List.filterMap_append, hnone,
      List.nil_append, List.filterMap_cons_none (f := Statement.bound?) rfl, ih]

/-- They state no constraints. -/
lemma filterMap_constraint? (h : AreBuilt given os names ss) :
    ss.filterMap Statement.constraint? = [] := by
  induction h with
  | nil => rfl
  | @cons given names o os name construction own ss parent arranged hown _ _ ih =>
    have hnone : own.filterMap Statement.constraint? = [] :=
      List.filterMap_eq_nil_iff.2 fun s hs => (hown s hs).constraint?_eq_none
    rw [List.filterMap_cons_none (f := Statement.constraint?) rfl, List.filterMap_append, hnone,
      List.nil_append, List.filterMap_cons_none (f := Statement.constraint?) rfl, ih]

/-- **They use no local name before it is bound.** -/
theorem areBound (h : AreBuilt given os names ss) : Statement.AreBound given ss := by
  induction h with
  | nil => exact trivial
  | @cons given names o os name construction own ss parent arranged hown hparent _ ih =>
    have hname : name ∈ given ++ [name] := List.mem_append_right _ List.mem_cons_self
    have hnone : own.filterMap Statement.bound? = [] :=
      List.filterMap_eq_nil_iff.2 fun s hs => (hown s hs).bound?_eq_none
    refine ⟨fun _ hn => (List.not_mem_nil hn).elim, Statement.areBound_append.2 ⟨?_, ?_⟩⟩
    · refine Statement.areBound_of_forall fun s hs => ⟨(hown s hs).bound?_eq_none, ?_⟩
      rw [(hown s hs).uses_eq]
      exact List.forall_mem_singleton.2 hname
    · rw [hnone, List.append_nil]
      refine ⟨List.forall_mem_append.2 ⟨fun x hx => ?_, List.forall_mem_singleton.2 hname⟩, ?_⟩
      · exact List.mem_append_left _ (hparent.names_subset x hx)
      · exact (List.append_nil (given ++ [name])).symm ▸ ih

end AreBuilt

/-- What is said about the rows of an element. -/
lemma Draft.isAbout_of_cell {e : Element} {name : Identifier} {rows : List Statement}
    (h : cell e name = .ok rows) : ∀ s ∈ rows, s.IsAbout name := by
  unfold cell at h
  split at h
  · split at h
    · cases h
      exact List.forall_mem_singleton.2 rfl
    · obtain ⟨type, -, hs⟩ := Except.map_eq_ok.1 h
      rw [← hs]
      exact List.forall_mem_singleton.2 rfl
  · cases h
    exact fun _ hs => (List.not_mem_nil hs).elim

/-- **The statements of drafted elements** build the outline that they follow. -/
theorem Follows.areBuilt {sheets : StyleSheets} {before : List Placed} {os : List Outlined}
    {ws : List Drafted} (h : Follows before os ws) (hws : ∀ w ∈ ws, ∃ at_ e, Drafted.IsOf at_ e w) :
    AreBuilt (before.map (·.name)) os (ws.map (·.placed.name)) (ws.flatMap (·.statements sheets)) := by
  induction h with
  | nil => exact .nil
  | @cons before o os w ws _ hparent _ _ ih =>
    obtain ⟨⟨at_, e, hw⟩, hws⟩ := List.forall_mem_cons.1 hws
    have hown : ∀ s ∈ (w.properties sheets).map (.assign (.element w.placed.name)) ++ w.rows,
        s.IsAbout w.placed.name := by
      refine List.forall_mem_append.2 ⟨fun s hs => ?_, Draft.isAbout_of_cell hw.rows_eq⟩
      obtain ⟨p, -, rfl⟩ := List.mem_map.1 hs
      exact rfl
    have hrest := ih hws
    rw [List.map_append, List.map_singleton] at hrest
    have heq : (w :: ws).flatMap (·.statements sheets) =
        .create w.placed.name w.construction ::
          ((w.properties sheets).map (.assign (.element w.placed.name)) ++ w.rows ++
            .attach w.placed.parent w.placed.name w.arranged :: ws.flatMap (·.statements sheets)) := by
      simp [Drafted.statements]
    rw [heq]
    exact .cons hown hparent hrest

/-! ### What targets mean -/

namespace Outlined

/-- In a scope a place is the only one whose element satisfies a test. -/
def IsOnly (os : List Outlined) (home : Option Nat) (test : Element → Prop) (place : Nat) : Prop :=
  ∀ j, (∃ o, os[j]? = some o ∧ o.home = home ∧ test o.element) ↔ j = place

end Outlined

/-- **A target names the element at a place** in a scope: the only one with the field, or, if there is
none with the field, the only one with the layout id. -/
def Target.NamesAt (os : List Outlined) (home : Option Nat) (place : Nat) : Target → Prop
  | field name => Outlined.IsOnly os home (·.field = some name) place ∨
      (∀ o ∈ os, o.home = home → o.element.field ≠ some name) ∧
        Outlined.IsOnly os home (·.layout.id = some name) place
  | id name => Outlined.IsOnly os home (·.layout.id = some name) place
  | parent => False
  | constant _ => False

/-- **What a constraint of an element of an outline relates to**: a number, what the element is attached
to, or what its target names in its scope. -/
def BuiltTarget.Means (os : List Outlined) (locals : List Identifier) (o : Outlined) (c : Constraint) :
    BuiltTarget → Prop
  | .constant v => c.target = .constant v
  | .anchor holder a => a = c.targetAnchor.getD c.anchor ∧
      (c.target = .parent ∧ holder.IsAt locals o.above ∨
        ∃ place, c.target.NamesAt os o.home place ∧ holder.IsAt locals (some place))

/-- **A constraint relates what the markup says**: it is about the element at its place, and its other
side is what the target means there. -/
def BuiltConstraint.Relates (os : List Outlined) (locals : List Identifier) (b : BuiltConstraint)
    (s : Stated) : Prop :=
  ∃ o, os[s.place]? = some o ∧ o.element = s.element ∧ locals[s.place]? = some b.element ∧
    b.target.Means os locals o s.constraint

/-- What a constraint is about and what it relates to are local names of the routine. -/
lemma BuiltConstraint.Relates.uses_subset {os : List Outlined} {locals : List Identifier}
    {b : BuiltConstraint} {s : Stated} (h : b.Relates os locals s) :
    ∀ name ∈ (Statement.constrain b).uses, name ∈ locals := by
  obtain ⟨o, -, -, helement, hmeans⟩ := h
  refine List.forall_mem_cons.2 ⟨List.mem_of_getElem? helement, ?_⟩
  cases htarget : b.target with
  | constant v => exact fun _ hn => (List.not_mem_nil hn).elim
  | anchor holder a =>
    rw [htarget] at hmeans
    obtain ⟨-, ⟨-, hat⟩ | ⟨place, -, hat⟩⟩ := hmeans
    · exact hat.names_subset
    · exact hat.names_subset

/-- What a placed element is in an outline. -/
structure Outlined.IsDrawn (ps : List Placed) (o : Outlined) (p : Placed) : Prop where
  /-- It is the element. -/
  element_eq : p.element = o.element
  /-- It is attached to what the outline says. -/
  parent_isAt : p.parent.IsAt (ps.map (·.name)) o.above
  /-- It is in the scope that the outline says. -/
  scope_isAt : IsScopeAt (ps.map (·.element)) o.home p.scope

/-- **Drafted elements are drawn in the outline that they follow**, one by one. -/
theorem Follows.isDrawn {before : List Placed} {os : List Outlined} {ws : List Drafted}
    (h : Follows before os ws) :
    List.Forall₂ (Outlined.IsDrawn (before ++ ws.map (·.placed))) os (ws.map (·.placed)) := by
  induction h with
  | nil => exact .nil
  | @cons before o os w ws helement hparent hscope _ ih =>
    rw [List.append_assoc, List.singleton_append, ← List.map_cons] at ih
    refine .cons ⟨helement, ?_, ?_⟩ ih
    · rw [List.map_append]
      exact hparent.append _
    · rw [List.map_append]
      exact hscope.append _

namespace Draft

variable {D : Draft} {os : List Outlined}

/-- What is found is placed in the scope and satisfies the test. -/
lemma findPlaced?_spec {scope : Nat} {test : Element → Bool} {name : Identifier}
    (h : D.findPlaced? scope test = some name) :
    ∃ p ∈ D.placed, p.scope = scope ∧ test p.element = true ∧ p.name = name := by
  obtain ⟨p, hp, rfl⟩ := Option.map_eq_some_iff.1 h
  have hfound := List.find?_some hp
  rw [Bool.and_eq_true, decide_eq_true_eq] at hfound
  exact ⟨p, List.mem_reverse.1 (List.mem_of_find?_eq_some hp), hfound.1, hfound.2, rfl⟩

/-- Nothing is found in a scope if nothing there passes the test. -/
lemma findPlaced?_eq_none {scope : Nat} {test : Element → Bool} :
    D.findPlaced? scope test = none ↔ ∀ p ∈ D.placed, p.scope = scope → test p.element = false := by
  rw [findPlaced?, Option.map_eq_none_iff, List.find?_eq_none]
  simp only [List.mem_reverse, Bool.and_eq_true, decide_eq_true_eq, not_and, Bool.not_eq_true]

/-- Where each element that satisfies a test is new in the tables, no two of a scope satisfy it. -/
lemma eq_of_isNew {placed : List Placed} {test : Element → Bool}
    (hnew : ∀ (i : Nat) (p : Placed), placed[i]? = some p → test p.element = true →
      ({ placed := placed.take i } : Draft).findPlaced? p.scope test = none)
    {i j : Nat} {p q : Placed} (hp : placed[i]? = some p) (hq : placed[j]? = some q)
    (hscope : p.scope = q.scope) (htp : test p.element = true) (htq : test q.element = true) :
    i = j := by
  have before : ∀ (i j : Nat) (p q : Placed), placed[i]? = some p → placed[j]? = some q →
      p.scope = q.scope → test p.element = true → test q.element = true → ¬ i < j := by
    intro i j p q hp hq hscope htp htq hlt
    have hm : p ∈ placed.take j := List.mem_of_getElem? (by rw [List.getElem?_take_of_lt hlt, hp])
    have := findPlaced?_eq_none.1 (hnew j q hq htq) p hm hscope
    rw [htp] at this
    cases this
  rcases Nat.lt_trichotomy i j with hlt | heq | hlt
  · exact absurd hlt (before i j p q hp hq hscope htp htq)
  · exact heq
  · exact absurd hlt (before j i q p hq hp hscope.symm htq htp)

section Drawn

variable (hdrawn : List.Forall₂ (Outlined.IsDrawn D.placed) os D.placed)

include hdrawn

/-- Every element of the outline is placed. -/
lemma exists_placed {i : Nat} {o : Outlined} (ho : os[i]? = some o) :
    ∃ p, D.placed[i]? = some p ∧ Outlined.IsDrawn D.placed o p := by
  obtain ⟨hi, rfl⟩ := List.getElem?_eq_some_iff.1 ho
  have hi' : i < D.placed.length := hdrawn.length_eq ▸ hi
  exact ⟨_, List.getElem?_eq_getElem hi', hdrawn.get hi hi'⟩

/-- What was placed is drawn from the outline. -/
lemma exists_outlined {i : Nat} {p : Placed} (hp : D.placed[i]? = some p) :
    ∃ o, os[i]? = some o ∧ Outlined.IsDrawn D.placed o p := by
  obtain ⟨hi, rfl⟩ := List.getElem?_eq_some_iff.1 hp
  have hi' : i < os.length := hdrawn.length_eq.symm ▸ hi
  exact ⟨_, List.getElem?_eq_getElem hi', hdrawn.get hi' hi⟩

/-- **What is found is the only one of its scope**, and its local name is that of its place. -/
theorem exists_isOnly {test : Element → Bool}
    (hnew : ∀ (i : Nat) (p : Placed), D.placed[i]? = some p → test p.element = true →
      ({ placed := D.placed.take i } : Draft).findPlaced? p.scope test = none)
    {home : Option Nat} {scope : Nat} (hhome : IsScopeAt (D.placed.map (·.element)) home scope)
    {name : Identifier} (h : D.findPlaced? scope test = some name) :
    ∃ place, Outlined.IsOnly os home (test · = true) place ∧
      (D.placed.map (·.name))[place]? = some name := by
  obtain ⟨p, hp, hscope, ht, rfl⟩ := findPlaced?_spec h
  obtain ⟨place, hplace⟩ := List.mem_iff_getElem?.1 hp
  obtain ⟨o, ho, hdraw⟩ := exists_outlined hdrawn hplace
  refine ⟨place, fun j => ⟨?_, ?_⟩, by rw [List.getElem?_map, hplace]; rfl⟩
  · rintro ⟨o', ho', hhome', ht'⟩
    obtain ⟨q, hq, hdraw'⟩ := exists_placed hdrawn ho'
    refine eq_of_isNew hnew hq hplace ?_ (by rw [hdraw'.element_eq]; exact ht') ht
    exact ((hhome' ▸ hdraw'.scope_isAt).unique hhome).trans hscope.symm
  · rintro rfl
    refine ⟨o, ho, ?_, by rw [← hdraw.element_eq]; exact ht⟩
    exact hdraw.scope_isAt.inj (hscope ▸ hhome)

/-- **What a target means** for a draft is what it means in the outline. -/
theorem means_of_builtTarget (hnew : EachNew D.placed) {p : Placed} {o : Outlined}
    (hdraw : Outlined.IsDrawn D.placed o p) {typeName : String} {c : Constraint} {target : BuiltTarget}
    (h : D.builtTarget typeName p c = .ok target) :
    target.Means os (D.placed.map (·.name)) o c := by
  have byField : ∀ name holder, (D.findPlaced? p.scope fun e => e.field = some name) = some holder →
      ∃ place, Outlined.IsOnly os o.home (·.field = some name) place ∧
        (D.placed.map (·.name))[place]? = some holder := fun name holder hfound => by
    have := exists_isOnly hdrawn (fun i q hq ht => (hnew i q hq name (.inl (of_decide_eq_true ht))).1)
      hdraw.scope_isAt hfound
    simpa only [decide_eq_true_eq] using this
  have byId : ∀ name holder, (D.findPlaced? p.scope fun e => e.layout.id = some name) = some holder →
      ∃ place, Outlined.IsOnly os o.home (·.layout.id = some name) place ∧
        (D.placed.map (·.name))[place]? = some holder := fun name holder hfound => by
    have := exists_isOnly hdrawn
      (fun i q hq ht => (hnew i q hq name (.inr (.inl (of_decide_eq_true ht)))).2) hdraw.scope_isAt hfound
    simpa only [decide_eq_true_eq] using this
  rcases builtTarget_spec h with ⟨v, hv, rfl⟩ | ⟨holder, hholder, rfl⟩
  · exact hv
  · refine ⟨rfl, ?_⟩
    cases htarget : c.target with
    | constant v =>
      rw [htarget] at hholder
      cases hholder
    | parent =>
      rw [htarget] at hholder
      cases hholder
      exact .inl ⟨rfl, hdraw.parent_isAt⟩
    | id name =>
      rw [htarget] at hholder
      obtain ⟨found, hfound, rfl⟩ := Option.map_eq_some_iff.1 hholder
      obtain ⟨place, honly, hname⟩ := byId name found hfound
      exact .inr ⟨place, honly, found, hname, rfl⟩
    | field name =>
      rw [htarget] at hholder
      obtain ⟨found, hfound, rfl⟩ := Option.map_eq_some_iff.1 hholder
      rcases Option.or_eq_some_iff.1 hfound with hfound | ⟨hnone, hfound⟩
      · obtain ⟨place, honly, hname⟩ := byField name found hfound
        exact .inr ⟨place, .inl honly, found, hname, rfl⟩
      · obtain ⟨place, honly, hname⟩ := byId name found hfound
        refine .inr ⟨place, .inr ⟨fun o' ho' hhome hfield => ?_, honly⟩, found, hname, rfl⟩
        -- no element of the scope has the field, since none is found
        obtain ⟨i, hi⟩ := List.mem_iff_getElem?.1 ho'
        obtain ⟨q, hq, hdraw'⟩ := exists_placed hdrawn hi
        have := findPlaced?_eq_none.1 hnone q (List.mem_of_getElem? hq)
          ((hhome ▸ hdraw'.scope_isAt).unique hdraw.scope_isAt)
        rw [hdraw'.element_eq, hfield, decide_eq_false_iff_not] at this
        exact this rfl

end Drawn

end Draft

/-! ### Routines -/

namespace Routine

/-- The local names that the statements of a routine bind, in order. -/
def locals (r : Routine) : List Identifier := r.statements.filterMap Statement.bound?

/-- **The scoping of a routine** of a definition. -/
structure IsScoped (d : Definition) (r : Routine) : Prop where
  /-- All local names are bound before they are used. -/
  areBound : Statement.AreBound [] r.statements
  /-- After the properties of the component all elements are built, with a local name each, and then all
  constraints are stated. -/
  areBuilt : ∃ (root : List Property) (built : List Statement),
    r.statements = root.map (.assign .component) ++ (built ++ r.constraints.map .constrain) ∧
      AreBuilt [] d.outline r.locals built
  /-- The constraints relate what the markup says. -/
  relates : List.Forall₂ (BuiltConstraint.Relates d.outline r.locals) r.constraints d.stated

/-- **The local names of a routine** are what different texts read as, and different names if the names of
all elements read as themselves. -/
structure IsNamed (d : Definition) (r : Routine) : Prop where
  /-- They are what different texts read as. -/
  exists_texts : ∃ texts : List String, texts.Nodup ∧
    List.Forall₂ (fun text name => Identifier.ofText? text = some name) texts r.locals
  /-- They are different if the names of all elements read as themselves. -/
  nodup_localNames : (∀ o ∈ d.outline,
    Identifier.ofText? o.element.name = some ⟨false, o.element.name⟩) → r.localNames.Nodup

namespace Consists

variable {sheets : StyleSheets} {d : Definition} {r : Routine} {D : Draft} {ws : List Drafted}
  {css : List (List BuiltConstraint)}

/-- The properties of the component bind no local names. -/
lemma filterMap_bound?_root (ps : List Property) :
    (ps.map (Statement.assign .component)).filterMap Statement.bound? = [] :=
  List.filterMap_eq_nil_iff.2 fun s hs => by
    obtain ⟨p, -, rfl⟩ := List.mem_map.1 hs
    rfl

/-- A draft follows the outline of its definition. -/
lemma follows (h : r.Consists sheets d D ws css) : Follows [] d.outline ws := by
  obtain ⟨n', hdrafts⟩ := h.drafts
  have hparent : Holder.component.IsAt (([] : List Placed).map (·.name)) none := rfl
  have hscope : IsScopeAt (([] : List Placed).map (·.element)) none 0 := rfl
  exact (hdrafts.follows hparent hscope rfl).1

/-- The statements of the elements build the outline. -/
theorem areBuilt (h : r.Consists sheets d D ws css) :
    AreBuilt [] d.outline (ws.map (·.placed.name)) (ws.flatMap (·.statements sheets)) := by
  obtain ⟨n', hdrafts⟩ := h.drafts
  exact h.follows.areBuilt hdrafts.exists_isOf

/-- The local names of a routine are those of its drafts. -/
lemma locals_eq (h : r.Consists sheets d D ws css) : r.locals = ws.map (·.placed.name) := by
  have hconstraints : (css.flatten.map Statement.constrain).filterMap Statement.bound? = [] :=
    List.filterMap_eq_nil_iff.2 fun s hs => by
      obtain ⟨c, -, rfl⟩ := List.mem_map.1 hs
      rfl
  rw [locals, h.statements_eq, List.filterMap_append, List.filterMap_append, filterMap_bound?_root,
    hconstraints, h.areBuilt.filterMap_bound?, List.nil_append, List.append_nil]

/-- They are those of what was placed. -/
lemma locals_eq_placed (h : r.Consists sheets d D ws css) : r.locals = D.placed.map (·.name) := by
  rw [h.locals_eq, h.placed_eq, List.map_map]
  rfl

/-- **The constraints of a routine** relate what the markup says. -/
theorem relates (h : r.Consists sheets d D ws css) (hnew : Draft.EachNew D.placed) :
    List.Forall₂ (BuiltConstraint.Relates d.outline r.locals) r.constraints d.stated := by
  have hdrawn := h.follows.isDrawn
  rw [List.nil_append, ← h.placed_eq] at hdrawn
  have each := Except.mapM_eq_ok.1 h.constraints_eq
  rw [h.placed_eq, ← Drafted.map_constrained, List.forall₂_map_left_iff,
    List.forall₂_map_right_iff] at each
  have placed := (List.forall₂_and_left _ _).2
    ⟨fun y hy => Drafted.getElem?_of_mem_constrained hy, each⟩
  rw [h.constraints_eq_flatten, h.stated_eq, List.forall₂_map_right_iff]
  refine placed.flip.imp fun b y ⟨⟨hw, hc⟩, hb⟩ => ?_
  have hp : D.placed[y.place]? = some y.drafted.placed := by
    rw [h.placed_eq, List.getElem?_map, hw]
    rfl
  obtain ⟨o, ho, hdraw⟩ := Draft.exists_outlined hdrawn hp
  obtain ⟨capture, target, htarget, -, -, heq⟩ := Draft.constrain_spec hb
  cases heq
  refine ⟨o, ho, hdraw.element_eq.symm, ?_, ?_⟩
  · rw [h.locals_eq_placed, List.getElem?_map]
    exact congrArg (Option.map (·.name)) hp
  · rw [h.locals_eq_placed]
    exact Draft.means_of_builtTarget hdrawn hnew hdraw htarget

/-- **A routine is scoped.** -/
theorem isScoped (h : r.Consists sheets d D ws css) (hnew : Draft.EachNew D.placed) : r.IsScoped d := by
  have hrelates := h.relates hnew
  have hbuilt := h.areBuilt
  refine ⟨?_, ⟨(sheets.resolveRoot d).properties, ws.flatMap (·.statements sheets), ?_, ?_⟩, hrelates⟩
  · rw [h.statements_eq, Statement.areBound_append, Statement.areBound_append, filterMap_bound?_root,
      List.append_nil, hbuilt.filterMap_bound?, ← h.locals_eq, ← h.constraints_eq_flatten]
    refine ⟨Statement.areBound_of_forall fun s hs => ?_, hbuilt.areBound,
      Statement.areBound_of_forall fun s hs => ?_⟩
    · obtain ⟨p, -, rfl⟩ := List.mem_map.1 hs
      exact ⟨rfl, fun _ hn => (List.not_mem_nil hn).elim⟩
    · obtain ⟨b, hb, rfl⟩ := List.mem_map.1 hs
      obtain ⟨c, -, hc⟩ := Except.exists_of_forall₂ hrelates hb
      exact ⟨rfl, hc.uses_subset⟩
  · rw [h.constraints_eq_flatten, h.statements_eq]
  · rw [h.locals_eq]
    exact hbuilt

end Consists

variable {sheets : StyleSheets} {d : Definition} {r : Routine}

/-- **The local names of a routine** are what the texts of its draft read as. -/
theorem Consists.isNamed {D : Draft} {ws : List Drafted} {css : List (List BuiltConstraint)}
    (h : r.Consists sheets d D ws css) (hD : draft sheets d = .ok D) : r.IsNamed d := by
  obtain ⟨statements, -, hall⟩ := Except.bind_eq_ok.1 hD
  have hruns := Draft.Runs.of_placeAll _ _ _ D hall
  have hnamed : D.Named := hruns.named ⟨List.nodup_nil, .nil⟩
  refine ⟨⟨D.used.reverse, List.nodup_reverse.2 hnamed.nodup, ?_⟩, fun hplain => ?_⟩
  · rw [h.locals_eq_placed]
    exact List.forall₂_map_right_iff.2 hnamed.reads
  · have hused : ∀ text ∈ D.used, Identifier.IsPlain text := hruns.plain (fun _ h => nomatch h)
      (fun o ho => (Identifier.ofText?_eq_self_iff.1 (hplain o ho)).1) fun _ h => (List.not_mem_nil h).elim
    -- a plain text reads as itself, so the names are the texts
    have hreads := (List.forall₂_and_left _ _).2
      ⟨fun text ht => hused text (List.mem_reverse.1 ht), hnamed.reads⟩
    have heq : D.used.reverse = D.placed.map (·.name.name) := by
      rw [← List.forall₂_eq_eq_eq, List.forall₂_map_right_iff]
      exact hreads.imp fun text p ⟨ht, hp⟩ => by rw [ht.eq_of_ofText? hp]
    have hnames : r.localNames = D.placed.map (·.name.name) := by
      rw [h.localNames_eq, h.placed_eq, List.map_map]
      rfl
    rw [hnames, ← heq]
    exact List.nodup_reverse.2 hnamed.nodup

/-- **The routines of a document are scoped.** Each declared definition of a document has a routine. In
its statements all local names are bound before they are used; elements are created, filled and attached
in the order of the outline, each to what it is inside of, and after them all constraints are stated; and
what a constraint relates is what the markup says: the constrained element, and the element that the
target names in its scope, also if other scopes repeat the name. The local names are what different texts
read as, and different names if the names of all elements are written like names. The search for a free
text ends.

**Proof sketch.** The drafted elements follow the outline (`Drafts.follows`), which gives the statements
that build them. The scopes of a draft are the homes of the outline (`IsScopeAt.inj`), and no two elements
of a scope have the same field or layout id, so what is found for a target is the only one that it can
name. The texts given out are different because each is free when its turn comes. -/
theorem scoped_of_ofDocument {text : String} {document : Definition}
    (h : Definition.ofText text = .ok document) {rs : List (Routine × List BuildReport)}
    (hrs : ofDocument sheets document = .ok rs) :
    List.Forall₂ (fun d q => ofDefinition sheets d = .ok q ∧ Outlined.IsOutlineOf d.outline d ∧
        q.1.IsScoped d ∧ q.1.IsNamed d) (document.definitions.filter fun d => !d.isAnonymous) rs ∧
      ∀ used base, ∃ tries, tries ≤ used.length ∧ (∀ k < tries, Draft.candidate base k ∈ used) ∧
        Draft.candidate base tries ∉ used ∧
        Draft.freshText used base = Draft.candidate base tries := by
  refine ⟨?_, Draft.freshText_search⟩
  have each := (List.forall₂_and_left _ _).2
    ⟨fun d hd => List.mem_of_mem_filter hd, Except.mapM_eq_ok.1 hrs⟩
  refine each.imp fun d q ⟨hd, hq⟩ => ?_
  have parsed : d.IsParsed := ⟨text, document, h, hd⟩
  obtain ⟨r, reports⟩ := q
  obtain ⟨D, ws, css, hD, hr⟩ := exists_draft_of_ofDefinition hq
  exact ⟨hq, Definition.isOutlineOf_outline parsed, hr.isScoped (eachNew_of_draft parsed hD),
    hr.isNamed hD⟩

/-- A document whose anonymous component and the label inside it have the same layout id. -/
def repeatedId : String :=
  "<Component type=\"A\"><Component layout:id=\"b\"><Label layout:id=\"b\"/></Component></Component>"

/-- The two get different local names, and the label is attached to the component. -/
theorem scoped_repeatedId :
    ∃ d r reports, Definition.ofText repeatedId = .ok d ∧ ofDocument {} d = .ok [(r, reports)] ∧
      r.IsScoped d ∧ r.localNames.Nodup ∧ r.locals = [⟨false, "b"⟩, ⟨false, "b_b"⟩] ∧
      d.outline.map (fun o => (o.above, o.home)) = [(none, none), (some 0, some 0)] := by
  have hwritten : (Definition.ofText repeatedId).toOption.bind (fun d => (ofDocument {} d).toOption.map
      (fun rs => (d.outline.map (fun o => (o.element.name, o.above, o.home)), rs.map (·.1.locals)))) =
      some ([("b", none, none), ("b", some 0, some 0)], [[⟨false, "b"⟩, ⟨false, "b_b"⟩]]) := by
    unfold repeatedId
    rw [Definition.ofText_ofList]
    decide +kernel
  have hplain : Identifier.ofText? "b" = some ⟨false, "b"⟩ := by decide +kernel
  obtain ⟨d, hd, hwritten⟩ := Option.bind_eq_some_iff.1 hwritten
  obtain ⟨rs, hrs, hwritten⟩ := Option.map_eq_some_iff.1 hwritten
  obtain ⟨houtline, hlocals⟩ := Prod.mk.inj hwritten
  have hd := Except.toOption_eq_some.1 hd
  have hrs := Except.toOption_eq_some.1 hrs
  obtain ⟨⟨r, reports⟩, rest, rfl, hr, hrest⟩ := List.map_eq_cons_iff.1 hlocals
  obtain rfl := List.map_eq_nil_iff.1 hrest
  obtain ⟨each, -⟩ := scoped_of_ofDocument hd hrs
  have hfirst : (!d.isAnonymous) = true := by rw [(Definition.isParsed_of_ofText hd).2]; rfl
  rw [Definition.definitions_eq, List.filter_cons_of_pos (p := fun d : Definition => !d.isAnonymous) hfirst,
    List.forall₂_cons] at each
  obtain ⟨⟨-, -, hscoped, hnamed⟩, -⟩ := each
  refine ⟨d, r, reports, hd, hrs, hscoped, hnamed.nodup_localNames fun o ho => ?_, hr, ?_⟩
  · have hm := List.mem_map_of_mem (f := fun o : Outlined => (o.element.name, o.above, o.home)) ho
    rw [houtline] at hm
    obtain heq : o.element.name = "b" := by
      simp only [List.mem_cons, Prod.mk.injEq, List.not_mem_nil, or_false] at hm
      rcases hm with ⟨heq, -⟩ | ⟨heq, -⟩ <;> exact heq
    rw [heq, hplain]
  · have := congrArg (List.map Prod.snd) houtline
    rw [List.map_map] at this
    exact this

/-- A document with two labels whose layout ids are the same name, once with a comment behind it. -/
def commentedId : String :=
  "<Component type=\"A\"><Label layout:id=\"a\"/><Label layout:id=\"a/**/\"/></Component>"

/-- **Both labels get the same local name**, though the texts that it is read from are different. -/
theorem locals_commentedId :
    ∃ d r reports, Definition.ofText commentedId = .ok d ∧ ofDocument {} d = .ok [(r, reports)] ∧
      r.locals = [⟨false, "a"⟩, ⟨false, "a"⟩] := by
  have hwritten : (Definition.ofText commentedId).toOption.bind (fun d =>
      (ofDocument {} d).toOption.map (·.map (·.1.locals))) = some [[⟨false, "a"⟩, ⟨false, "a"⟩]] := by
    unfold commentedId
    rw [Definition.ofText_ofList]
    decide +kernel
  obtain ⟨d, hd, hwritten⟩ := Option.bind_eq_some_iff.1 hwritten
  obtain ⟨rs, hrs, hlocals⟩ := Option.map_eq_some_iff.1 hwritten
  have hd := Except.toOption_eq_some.1 hd
  have hrs := Except.toOption_eq_some.1 hrs
  obtain ⟨⟨r, reports⟩, rest, rfl, hr, hrest⟩ := List.map_eq_cons_iff.1 hlocals
  obtain rfl := List.map_eq_nil_iff.1 hrest
  exact ⟨d, r, reports, hd, hrs, hr⟩

end Routine

end ViewMarkup
