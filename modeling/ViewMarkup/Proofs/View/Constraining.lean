import ViewMarkup.Proofs.View.Placement

/-!
# Setting constraints

When all elements of a scope are placed, every node gets the constraints of its element. No node
moves by this, and nodes of other scopes are not changed.

## Main definitions

* `ViewTree.SameLinks` — two trees differ in what their nodes hold, and in nothing else.

## Main statements

* `Applier.constrain_meets` — what setting the constraints of a scope does to the tree.
-/

namespace ViewMarkup

variable {H : Type}

namespace ViewTree

variable {t t' t'' : ViewTree H}

/-- A tree differs from another in what its nodes hold, and in nothing else. -/
def SameLinks (t t' : ViewTree H) : Prop :=
  ∃ g : NodeId → ViewNode H → ViewNode H,
    ∀ x, t'.slot? x = (t.slot? x).map fun s => { s with node := g x s.node }

namespace SameLinks

/-- A tree has its own links. -/
lemma refl (t : ViewTree H) : t.SameLinks t := ⟨fun _ n => n, fun _ => by simp⟩

/-- What has the links of a tree has those of an earlier one. -/
lemma trans (h : t.SameLinks t') (h' : t'.SameLinks t'') : t.SameLinks t'' := by
  obtain ⟨g, hg⟩ := h
  obtain ⟨g', hg'⟩ := h'
  refine ⟨fun x n => g' x (g x n), fun x => ?_⟩
  rw [hg', hg, Option.map_map]
  rfl

/-- Changing a node keeps the links. -/
lemma modify (t : ViewTree H) (id : NodeId) (f : ViewNode H → ViewNode H) :
    t.SameLinks (t.modify id f) := by
  refine ⟨fun x n => if id = x then f n else n, fun x => ?_⟩
  rw [slot?_modify]
  by_cases h : id = x <;> simp [h]

/-- The parents are the same. -/
lemma parent?_eq (h : t.SameLinks t') (x : NodeId) : t'.parent? x = t.parent? x := by
  obtain ⟨g, hg⟩ := h
  rw [parent?, parent?, hg]
  cases t.slot? x <;> rfl

/-- The children are the same. -/
lemma children_eq (h : t.SameLinks t') (x : NodeId) : t'.children x = t.children x := by
  obtain ⟨g, hg⟩ := h
  rw [children, children, hg]
  cases t.slot? x <;> rfl

/-- The same nodes are there. -/
lemma contains_eq (h : t.SameLinks t') (x : NodeId) : t'.contains x = t.contains x := by
  obtain ⟨g, hg⟩ := h
  rw [contains, contains, hg, Option.isSome_map]

/-- A tree with the links of a forest is a forest. -/
lemma forest (h : t.SameLinks t') (F : Forest t) : Forest t' := F.congr h.parent?_eq h.children_eq

/-- The same nodes are loose. -/
lemma isLoose (h : t.SameLinks t') {x : NodeId} (hl : t.IsLoose x) : t'.IsLoose x := by
  obtain ⟨g, hg⟩ := h
  obtain ⟨n, hn⟩ := hl
  exact ⟨g x n, by rw [hg, hn]; rfl⟩

/-- The same nodes are below others. -/
lemma isBelow (h : t.SameLinks t') {x above : NodeId} (hb : t.IsBelow x above) :
    t'.IsBelow x above :=
  hb.mono fun c p hc => by rw [h.parent?_eq, hc]

end SameLinks

end ViewTree

/-- A target means something among the elements of a scope. A field name may be a layout id. -/
def Target.IsFound (es : List Element) : Target → Prop
  | .parent | .constant _ => True
  | .field name => ∃ e ∈ es, e.field = some name ∨ e.layout.id = some name
  | .id name => ∃ e ∈ es, e.layout.id = some name

namespace Applier

/-- A node with given constraints instead of its own. -/
def withConstraints (cs : List LiveConstraint) (n : ViewNode H) : ViewNode H :=
  { n with constraints := cs }

variable {t : ViewTree H} {rebuilt : List (NodeId × List LiveConstraint)}

/-- Replacing constraints keeps the links. -/
lemma sameLinks_foldl_modify (t : ViewTree H) (rebuilt : List (NodeId × List LiveConstraint)) :
    t.SameLinks (rebuilt.foldl (fun t e => t.modify e.1 (withConstraints e.2)) t) := by
  induction rebuilt generalizing t with
  | nil => exact .refl t
  | cons e rebuilt ih => exact (ViewTree.SameLinks.modify t e.1 _).trans (ih _)

/-- The constraints of other nodes stay. -/
lemma slot?_foldl_modify_of_not_mem {x : NodeId} (hx : x ∉ rebuilt.map (·.1)) :
    (rebuilt.foldl (fun t e => t.modify e.1 (withConstraints e.2)) t).slot? x = t.slot? x := by
  induction rebuilt generalizing t with
  | nil => rfl
  | cons e rebuilt ih =>
    rw [List.map_cons, List.mem_cons, not_or] at hx
    rw [List.foldl_cons, ih hx.2, ViewTree.slot?_modify, if_neg (Ne.symm hx.1)]

/-- The constraints of a node that is listed are replaced. -/
lemma slot?_foldl_modify_of_mem (hn : (rebuilt.map (·.1)).Nodup) {x : NodeId}
    {cs : List LiveConstraint} (hx : (x, cs) ∈ rebuilt) :
    (rebuilt.foldl (fun t e => t.modify e.1 (withConstraints e.2)) t).slot? x =
      (t.slot? x).map fun s => { s with node := withConstraints cs s.node } := by
  induction rebuilt generalizing t with
  | nil => cases hx
  | cons e rebuilt ih =>
    obtain ⟨he, hn⟩ := List.nodup_cons.1 hn
    rw [List.foldl_cons]
    rcases List.mem_cons.1 hx with rfl | hx
    · rw [slot?_foldl_modify_of_not_mem he, ViewTree.slot?_modify, if_pos rfl]
    · have hne : e.1 ≠ x := by
        rintro rfl
        exact he (List.mem_map.2 ⟨_, hx, rfl⟩)
      rw [ih hn hx, ViewTree.slot?_modify, if_neg hne]

/-! ### Whether targets are found -/

/-- A view is found if one of those placed passes the test. -/
lemma isSome_findPlaced? {placed : List PlacedView} {test : Element → Bool} :
    (findPlaced? placed test).isSome = true ↔ ∃ p ∈ placed, test p.element = true := by
  rw [findPlaced?, Option.isSome_map, List.find?_isSome]
  simp only [List.mem_reverse]

/-- A target is found if an element of the scope is meant. -/
lemma isSome_target?_iff {placed : List PlacedView} {p : PlacedView} {target : Target} :
    (target? placed p target).isSome = true ↔ target.IsFound (placed.map (·.element)) := by
  cases target with
  | parent => exact iff_of_true rfl trivial
  | constant v => exact iff_of_true rfl trivial
  | field name =>
    rw [target?, Option.isSome_map, Option.isSome_or, Bool.or_eq_true, isSome_findPlaced?,
      isSome_findPlaced?]
    simp only [Target.IsFound, decide_eq_true_eq, List.mem_map]
    grind
  | id name =>
    rw [target?, Option.isSome_map, isSome_findPlaced?]
    simp only [Target.IsFound, decide_eq_true_eq, List.mem_map]
    grind

/-- The constraints of an element are those declared, each with what its target means. -/
lemma liveConstraints_spec {typeName : String} {placed : List PlacedView} {p : PlacedView}
    {cs : List LiveConstraint} (h : liveConstraints typeName placed p = .ok cs) :
    List.Forall₂ (fun c lc => lc.declared = c ∧ target? placed p c.target = some lc.target)
      p.element.layout.constraints cs := by
  refine (Except.mapM_eq_ok.1 h).imp fun c lc hlc => ?_
  split at hlc
  · next target ht =>
    cases hlc
    exact ⟨rfl, ht⟩
  · cases hlc

/-- If the constraints of a view could be resolved, then their targets are found. -/
lemma isFound_of_liveConstraints {typeName : String} {placed : List PlacedView} {p : PlacedView}
    {cs : List LiveConstraint} (h : liveConstraints typeName placed p = .ok cs) :
    ∀ c ∈ p.element.layout.constraints, c.target.IsFound (placed.map (·.element)) := by
  intro c hc
  obtain ⟨lc, -, hlc⟩ := Except.exists_of_mapM_eq_ok h hc
  rw [← isSome_target?_iff (p := p)]
  split at hlc
  · next target ht => rw [ht, Option.isSome_some]
  · cases hlc

/-- If they could not, then there is one whose target is not found. -/
lemma exists_of_allConstraints {typeName : String} {placed : List PlacedView}
    {error : ApplyError} (h : allConstraints typeName placed = .error error) :
    ∃ p ∈ placed, ∃ c ∈ p.element.layout.constraints,
      ¬ c.target.IsFound (placed.map (·.element)) := by
  obtain ⟨p, hp, hcs⟩ := Except.mapM_eq_error h
  cases hl : liveConstraints typeName placed p with
  | ok cs =>
    rw [hl] at hcs
    cases hcs
  | error e =>
    obtain ⟨c, hc, he⟩ := Except.mapM_eq_error hl
    refine ⟨p, hp, c, hc, fun hf => ?_⟩
    obtain ⟨target, ht⟩ := Option.isSome_iff_exists.1 (isSome_target?_iff (p := p) |>.2 hf)
    rw [ht] at he
    cases he

/-- The constraints of a scope are found for its nodes one by one. -/
lemma allConstraints_spec {typeName : String} {views placed : List PlacedView}
    (h : placed.mapM (fun p => (liveConstraints typeName views p).map fun cs => (p.node, cs)) =
      .ok rebuilt) :
    rebuilt.map (·.1) = placed.map (·.node) ∧
      ∀ p ∈ placed, ∃ cs, liveConstraints typeName views p = .ok cs ∧ (p.node, cs) ∈ rebuilt := by
  have found : ∀ p entry, (liveConstraints typeName views p).map (fun cs => (p.node, cs)) =
      .ok entry → ∃ cs, liveConstraints typeName views p = .ok cs ∧ entry = (p.node, cs) := by
    intro p entry he
    cases hl : liveConstraints typeName views p with
    | error e =>
      rw [hl] at he
      cases he
    | ok cs =>
      rw [hl] at he
      cases he
      exact ⟨cs, rfl, rfl⟩
  refine ⟨?_, fun p hp => ?_⟩
  · have keys : List.Forall₂ (fun entry p => entry.1 = p.node) rebuilt placed :=
      ((Except.mapM_eq_ok.1 h).imp fun p entry he => by
        obtain ⟨cs, -, rfl⟩ := found p entry he
        rfl).flip
    rw [← List.forall₂_map_right_iff, ← List.forall₂_map_left_iff] at keys
    rwa [List.forall₂_eq_eq_eq] at keys
  · obtain ⟨entry, hm, he⟩ := Except.exists_of_mapM_eq_ok h hp
    obtain ⟨cs, hcs, rfl⟩ := found p entry he
    exact ⟨cs, hcs, hm⟩

/-- **Setting the constraints of a scope** gives every placed node its constraints, if all targets
are found, and changes nothing else. If one is not, nothing changes. -/
theorem constrain_meets (typeName : String) (s : Run H) :
    Live.Meets s (constrain typeName)
      (fun _ s' => s'.fields = s.fields ∧ s'.placed = s.placed ∧ s.tree.SameLinks s'.tree ∧
        (∀ x ∉ s.placed.map (·.node), s'.tree.slot? x = s.tree.slot? x) ∧
        ((s.placed.map (·.node)).Nodup → ∀ p ∈ s.placed, ∃ cs,
          liveConstraints typeName s.placed p = .ok cs ∧
          s'.tree.slot? p.node = (s.tree.slot? p.node).map fun slot =>
            { slot with node := { slot.node with constraints := cs } }))
      (fun s' => s = s' ∧ ∃ p ∈ s.placed, ∃ c ∈ p.element.layout.constraints,
        ¬ c.target.IsFound (s.placed.map (·.element))) := by
  unfold Live.Meets constrain
  cases hr : allConstraints typeName s.placed with
  | error e => exact ⟨rfl, exists_of_allConstraints hr⟩
  | ok rebuilt =>
    obtain ⟨keys, found⟩ := allConstraints_spec hr
    refine ⟨rfl, rfl, sameLinks_foldl_modify _ _, fun x hx => ?_, fun hn p hp => ?_⟩
    · exact slot?_foldl_modify_of_not_mem (keys ▸ hx)
    · obtain ⟨cs, hcs, hm⟩ := found p hp
      exact ⟨cs, hcs, slot?_foldl_modify_of_mem (keys ▸ hn) hm⟩

end Applier

end ViewMarkup
