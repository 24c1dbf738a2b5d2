import ViewMarkup.Proofs.Source.Errors
import ViewMarkup.Proofs.Source.Twins
import ViewMarkup.Proofs.View.Mirror

/-!
# What the constraints of drafted elements are tied to

A target means the last element of the scope that fits, for a draft as for an application. So a
draft can write a constraint just when an application can tie it, and both mean the same element.

## Main definitions

* `BuiltConstraint.IsOf` — what a constraint is written as.

## Main statements

* `Draft.targets_iff` — the targets that a draft can write.
* `Draft.constraints_spec` — the statements of all constraints.
* `Draft.not_obstructed` — nothing is in the way of applying a definition whose constraints can be
  written.
* `Twin.holder_of_target?` — what a draft means by a target is the twin of what an application does.
-/

namespace ViewMarkup

open Element

variable {H : Type}

namespace Draft

variable {D : Draft} {ws : List Drafted}

/-- The last element of a scope is found among its drafted elements. -/
lemma findPlaced?_eq (h : D.placed = ws.map (·.placed)) (scope : Nat) (test : Element → Bool) :
    D.findPlaced? scope test =
      ((Drafted.inScope scope ws).reverse.find? fun w => test w.placed.element).map
        (·.placed.name) := by
  rw [findPlaced?, h, ← List.map_reverse, List.find?_map, Drafted.inScope, ← List.filter_reverse,
    List.find?_filter, Option.map_map]
  simp only [Function.comp_def, Bool.decide_and, Bool.decide_eq_true]

/-- An element is found in a scope if it is among those drafted there. -/
lemma isSome_findPlaced? (h : D.placed = ws.map (·.placed)) {scope : Nat}
    {test : Element → Bool} : (D.findPlaced? scope test).isSome = true ↔
      ∃ e ∈ (Drafted.inScope scope ws).map (·.placed.element), test e = true := by
  rw [findPlaced?_eq h, Option.isSome_map, List.find?_isSome]
  simp only [List.mem_reverse, List.mem_map, exists_exists_and_eq_and]

/-- **The targets that a draft can write** are those that mean something in the scope. -/
theorem targets_iff (h : D.placed = ws.map (·.placed)) {p : Placed} {target : Target} :
    D.Targets p target ↔
      target.IsFound ((Drafted.inScope p.scope ws).map (·.placed.element)) := by
  cases target with
  | parent => exact iff_of_true (.inr rfl) trivial
  | constant v => exact iff_of_true (.inl ⟨v, rfl⟩) trivial
  | field name =>
    rw [Targets, target?, Option.isSome_map, Option.isSome_or, Bool.or_eq_true,
      isSome_findPlaced? h, isSome_findPlaced? h, Target.IsFound]
    simp only [reduceCtorEq, exists_false, false_or, decide_eq_true_eq]
    rw [← exists_or]
    simp only [← and_or_left]
  | id name =>
    rw [Targets, target?, Option.isSome_map, isSome_findPlaced? h, Target.IsFound]
    simp only [reduceCtorEq, exists_false, false_or, decide_eq_true_eq]

end Draft

/-- What a constraint of a placed element is written as. -/
def BuiltConstraint.IsOf (D : Draft) (typeName : String) (p : Placed) (b : BuiltConstraint)
    (c : Constraint) : Prop :=
  ∃ capture target, D.builtTarget typeName p c = .ok target ∧
    b = ⟨capture, p.name, c.anchor, c.relation, target, c.multiplier, c.constant, c.priority⟩

namespace Draft

variable {D : Draft} {ws : List Drafted} {typeName : String}

/-- The statements of the constraints of one element. -/
lemma exists_of_constrain {p : Placed} {cs : List Constraint} {ss : List Statement}
    (h : List.Forall₂ (fun c s => D.constrain typeName p c = .ok s) cs ss) :
    ∃ bs : List BuiltConstraint, ss = bs.map .constrain ∧
      List.Forall₂ (BuiltConstraint.IsOf D typeName p) bs cs := by
  induction h with
  | nil => exact ⟨[], rfl, .nil⟩
  | cons hs _ ih =>
    obtain ⟨bs, rfl, hbs⟩ := ih
    obtain ⟨capture, target, ht, -, -, rfl⟩ := constrain_spec hs
    exact ⟨_ :: bs, rfl, .cons ⟨capture, target, ht, rfl⟩ hbs⟩

/-- **The statements of all constraints**, element by element. -/
theorem constraints_spec {ss : List Statement} (h : D.constraints typeName = .ok ss) :
    ∃ css : List (List BuiltConstraint), ss = css.flatten.map .constrain ∧
      List.Forall₂ (fun cs p =>
        List.Forall₂ (BuiltConstraint.IsOf D typeName p) cs p.element.layout.constraints)
        css D.placed := by
  have each := (Except.mapM_eq_ok.1 h).flip
  clear h
  generalize D.placed = ps at each ⊢
  induction ps generalizing ss with
  | nil =>
    cases each
    exact ⟨[], rfl, .nil⟩
  | cons p ps ih =>
    rw [List.flatMap_cons] at each
    have hone := (List.forall₂_take_append _ _ _ each).flip
    rw [List.forall₂_map_left_iff] at hone
    obtain ⟨bs, hbs, hof⟩ := exists_of_constrain hone
    obtain ⟨css, hcss, hofs⟩ := ih (List.forall₂_drop_append _ _ _ each)
    refine ⟨bs :: css, ?_, .cons hof hofs⟩
    rw [List.flatten_cons, List.map_append, ← hbs, ← hcss, List.take_append_drop]

/-- If the constraints could be built, then their targets are there. -/
lemma targets_of_constraints {ss : List Statement} (h : D.constraints typeName = .ok ss)
    {p : Placed} (hp : p ∈ D.placed) {c : Constraint} (hc : c ∈ p.element.layout.constraints) :
    D.Targets p c.target := by
  have hm : (p, c) ∈ D.placed.flatMap fun p => p.element.layout.constraints.map fun c => (p, c) :=
    List.mem_flatMap.2 ⟨p, hp, List.mem_map_of_mem hc⟩
  obtain ⟨s, -, hs⟩ := Except.exists_of_mapM_eq_ok h hm
  obtain ⟨capture, target, ht, -⟩ := constrain_spec hs
  exact targets_of_builtTarget ht

/-! ### Whether a definition can be applied -/

variable {d : Definition} {n' : Nat}

/-- Every definition has a scope for its elements. -/
lemma exists_scope (hp : AreInPlace d.typeName d.children)
    (hws : Drafts ⟨.component, false, 0, none, d.styles⟩ d.children 1 n' ws) {d' : Definition}
    (hd' : d' ∈ d.definitions) :
    ∃ scope, (Drafted.inScope scope ws).map (·.placed.element) = d'.elements := by
  rcases Definition.mem_definitions_iff.1 hd' with rfl | hd'
  · exact ⟨0, hws.elements_eq Nat.zero_lt_one fun e he => (hp.regular e he).children_eq_nil⟩
  · obtain ⟨scope, -, -, h⟩ := hws.exists_scope Nat.zero_lt_one hp d' hd'
    exact ⟨scope, h⟩

/-- **Nothing is in the way of applying a definition** with all components in place whose constraints
can be written. -/
theorem not_obstructed {a : Applier H} (ha : a.capabilities = .builtin)
    (hp : AreInPlace d.typeName d.children)
    (hws : Drafts ⟨.component, false, 0, none, d.styles⟩ d.children 1 n' ws)
    (hD : D.placed = ws.map (·.placed)) {ss : List Statement}
    (hss : D.constraints typeName = .ok ss) {active : List String} {d' : Definition}
    (hd' : d' ∈ d.definitions) : ¬ a.Obstructed true active d' := by
  intro h
  have inPlace : ∀ d' ∈ d.definitions, ∀ e ∈ d'.elements, e.IsInPlace := by
    intro d' hd'
    rcases Definition.mem_definitions_iff.1 hd' with rfl | hd'
    · exact hp.isInPlace
    · exact (hp.nested d' hd').2
  generalize hadopts : true = adopts at h
  induction h with
  | @element _ _ d' e he hrefuses =>
    have hplace := inPlace d' hd' e he
    rcases hrefuses with ⟨h, -⟩ | ⟨error, h⟩
    · rw [h] at hadopts
      cases hadopts
    · rw [Applier.create_builtin ha fun hk => ?_] at h
      · cases h
      · rw [IsInPlace, if_pos hk] at hplace
        obtain ⟨nested, hr, -⟩ := hplace
        exact ⟨nested, hr⟩
  | @target _ _ d' e c he hc hfound =>
    obtain ⟨scope, hscope⟩ := exists_scope hp hws hd'
    rw [← hscope] at he hfound
    obtain ⟨w, hw, rfl⟩ := List.mem_map.1 he
    obtain ⟨hw, hs⟩ := List.mem_filter.1 hw
    have htargets := targets_of_constraints hss (hD ▸ List.mem_map_of_mem hw) hc
    rw [targets_iff hD, of_decide_eq_true hs] at htargets
    exact hfound htargets
  | @nested _ active d' e nested he hn _ ih =>
    have hplace := inPlace d' hd' e he
    unfold Applier.nested? at hn
    split at hn
    · next hk =>
      rw [IsInPlace, if_pos hk] at hplace
      obtain ⟨inner, hr, -⟩ := hplace
      rw [hr, Applier.enters?] at hn
      split at hn
      · cases hn
      · cases hn
        refine ih (Definition.definitions_subset d hd' ?_) rfl
        exact Definition.mem_definitions_iff.2 (.inr (mem_definitionsAll hr _ he))
    · cases hn

end Draft

/-! ### What targets mean -/

namespace Twin

variable {D : Draft} {ts : List Twin}

/-- The views of a scope, with and without their nodes. -/
lemma inScope_toDrafted (scope : Nat) :
    Drafted.inScope scope (ts.map (·.toDrafted)) = (inScope scope ts).map (·.toDrafted) := by
  rw [Drafted.inScope, inScope, List.filter_map]
  rfl

/-- The last element of a scope is found for a draft and for an application alike. -/
lemma exists_found (h : D.placed = ts.map (·.placed)) (scope : Nat) (test : Element → Bool) :
    ∃ found : Option Twin, (∀ w, found = some w → w ∈ ts) ∧
      D.findPlaced? scope test = found.map (·.placed.name) ∧
      Applier.findPlaced? ((inScope scope ts).map view) test = found.map (·.node) := by
  refine ⟨(inScope scope ts).reverse.find? fun w => test w.placed.element, fun w hw => ?_, ?_, ?_⟩
  · exact List.mem_of_mem_filter (List.mem_reverse.1 (List.mem_of_find?_eq_some hw))
  · have hD : D.placed = (ts.map (·.toDrafted)).map (·.placed) := by rw [h, List.map_map]; rfl
    rw [Draft.findPlaced?_eq hD, inScope_toDrafted, ← List.map_reverse, List.find?_map,
      Option.map_map]
    rfl
  · rw [Applier.findPlaced?, ← List.map_reverse, List.find?_map, Option.map_map]
    rfl

/-- **What a draft means by a target** is the twin of what an application means, or what the element
is attached to. -/
theorem holder_of_target? (h : D.placed = ts.map (·.placed)) {w : Twin} {target : Target}
    {holder : Holder} {live : LiveTarget} (hholder : D.target? w.placed target = some holder)
    (hlive : Applier.target? ((inScope w.placed.scope ts).map view) w.view target = some live) :
    ∃ id, live = .node id ∧ (holder = w.placed.parent ∧ id = w.above ∨
      ∃ w' ∈ ts, holder = .element w'.placed.name ∧ id = w'.node) := by
  cases target with
  | parent =>
    cases hholder
    cases hlive
    exact ⟨w.above, rfl, .inl ⟨rfl, rfl⟩⟩
  | constant v => cases hholder
  | field name =>
    obtain ⟨found, hmem, hdraft, happlier⟩ := exists_found h w.placed.scope fun e => e.field = some name
    obtain ⟨found', hmem', hdraft', happlier'⟩ :=
      exists_found h w.placed.scope fun e => e.layout.id = some name
    rw [Draft.target?, hdraft, hdraft', ← Option.map_or, Option.map_map] at hholder
    rw [Applier.target?, happlier, happlier', ← Option.map_or, Option.map_map] at hlive
    obtain ⟨w', hw', rfl⟩ := Option.map_eq_some_iff.1 hholder
    rw [hw'] at hlive
    cases hlive
    refine ⟨w'.node, rfl, .inr ⟨w', ?_, rfl, rfl⟩⟩
    rcases Option.or_eq_some_iff.1 hw' with hw' | ⟨-, hw'⟩
    · exact hmem w' hw'
    · exact hmem' w' hw'
  | id name =>
    obtain ⟨found, hmem, hdraft, happlier⟩ :=
      exists_found h w.placed.scope fun e => e.layout.id = some name
    rw [Draft.target?, hdraft, Option.map_map] at hholder
    rw [Applier.target?, happlier, Option.map_map] at hlive
    obtain ⟨w', hw', rfl⟩ := Option.map_eq_some_iff.1 hholder
    rw [hw'] at hlive
    cases hlive
    exact ⟨w'.node, rfl, .inr ⟨w', hmem w' hw', rfl, rfl⟩⟩

end Twin

end ViewMarkup
