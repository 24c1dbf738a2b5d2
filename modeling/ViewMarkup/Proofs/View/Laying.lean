import ViewMarkup.Proofs.View.Growth

/-!
# Placing elements lays out views that show them

Where elements are placed one by one, each with what is inside it, the tree shows them afterwards:
what is placed later does not disturb what is there already.

## Main definitions

* `Applier.Lays` — elements were placed below a node, and the tree shows them.
* `Applier.Enters` — what was applied inside the node of a component.

## Main statements

* `Applier.Lays.cons` — one element after the other.
* `Applier.Lays.container`, `Applier.Lays.single` — an element with what is inside it.
-/

namespace ViewMarkup

open Element

variable {H : Type}

namespace Applier

/-- **Elements were placed below a node**, and the tree shows them. -/
structure Lays (a : Applier H) (σ : Scene H) (parent : NodeId) (arranged : Bool)
    (es : List Element) (ids : List NodeId) (views : List PlacedView) (deep : List NodeId)
    (s s' : Run H) : Prop where
  /-- Nothing else has happened. -/
  grows : Grows parent es s s'
  /-- The tree shows the elements. -/
  shows : a.Shows s'.tree σ parent arranged es ids views deep
  /-- Their nodes are the last ones below the node. -/
  slot?_parent : s'.tree.slot? parent = (s.tree.slot? parent).map fun slot =>
    { slot with children := slot.children ++ ids }
  /-- The elements are noted as placed. -/
  placed_eq : s'.placed = s.placed ++ views
  /-- All these nodes are different. -/
  nodup : (views.map (·.node) ++ deep).Nodup
  /-- All these nodes are new or were held by fields. -/
  source : ∀ x ∈ views.map (·.node) ++ deep, s.tree.contains x = true →
    ∃ f ∈ fieldsOf es, s.fields.get? f = some x
  /-- Fields hold the nodes of their elements. -/
  get?_field : ∀ v ∈ views, ∀ f, v.element.field = some f → s'.fields.get? f = some v.node

variable {a : Applier H} {σ : Scene H} {parent : NodeId} {arranged : Bool} {e : Element}
  {es : List Element} {s s₁ s' : Run H} {id : NodeId} {start : VisualElement H}

/-- A node that an element's field held, or a new one, begins as the scene has it. -/
lemma starts_of_source (R : Ready σ parent [e] s)
    (h : (∃ field n, e.field = some field ∧ s.fields.get? field = some id ∧
        s.tree.get? id = some n ∧ start = n.element) ∨
      (∀ field, e.field = some field → s.fields.get? field = none) ∧ a.create e = .ok start ∧
        s.tree.contains id = false) : a.Starts σ e start := by
  have hf : ∀ f, e.field = some f → f ∈ fieldsOf [e] := fun f he => by
    rw [fieldsOf_singleton, he]
    exact List.mem_cons_self
  unfold Starts
  rcases h with ⟨field, n, he, hg, hn, hs⟩ | ⟨hnone, hc, _⟩
  · rw [he, Option.bind_some, R.old_eq field (hf field he), hg, Option.bind_some, hn]
    exact hs
  · cases he : e.field with
    | none => exact hc
    | some field =>
      rw [Option.bind_some, R.old_eq field (hf field he), hnone field he]
      exact hc

namespace Lays

/-- No elements, nothing to do. -/
lemma nil (R : Ready σ parent [] s) : a.Lays σ parent arranged [] [] [] [] s s where
  grows := .refl R
  shows := .nil
  slot?_parent := by simp
  placed_eq := (List.append_nil _).symm
  nodup := List.nodup_nil
  source _ h := (List.not_mem_nil h).elim
  get?_field _ h := (List.not_mem_nil h).elim

section Cons

variable {ids ids' : List NodeId} {views views' : List PlacedView} {deep deep' : List NodeId}

/-- The node below which elements are placed is none of their nodes. -/
lemma ne_parent (R : Ready σ parent es s) (L : a.Lays σ parent arranged es ids views deep s s₁)
    {x : NodeId} (hx : x ∈ views.map (·.node) ++ deep) : x ≠ parent := by
  rintro rfl
  obtain ⟨f, hf, hg⟩ := L.source x hx R.contains
  exact (R.isLoose f hf x hg).2 rfl

/-- Placed nodes are not held for elements that are still to be placed. -/
lemma not_held (L : a.Lays σ parent arranged [e] ids views deep s s₁)
    (R₁ : Ready σ parent es s₁) {x : NodeId} (hx : x ∈ views.map (·.node) ++ deep) :
    ∀ f ∈ fieldsOf es, s₁.fields.get? f ≠ some x := fun f hf hg =>
  L.shows.not_mem_of_isLoose (R₁.isLoose f hf x hg).1 hx

/-- **Elements are placed one after the other.** -/
theorem cons (R : Ready σ parent (e :: es) s) (S : AreSound (e :: es))
    (L : a.Lays σ parent arranged [e] ids views deep s s₁)
    (L' : a.Lays σ parent arranged es ids' views' deep' s₁ s') :
    a.Lays σ parent arranged (e :: es) (ids ++ ids') (views ++ views') (deep ++ deep') s s' := by
  have R₁ := R.tail S L.grows
  have alive : ∀ x ∈ views.map (·.node) ++ deep, s₁.tree.contains x = true := fun x hx => by
    obtain ⟨slot, _, hs, _⟩ := L.shows.exists_slot? x hx
    exact ViewTree.contains_iff.2 ⟨slot, hs⟩
  have kept : ∀ x ∈ views.map (·.node) ++ deep, s'.tree.slot? x = s₁.tree.slot? x := fun x hx =>
    L'.grows.slot?_eq x (alive x hx) (L.ne_parent R.head hx) (L.not_held R₁ hx)
  -- Nodes placed later are not among those placed before.
  have apart : ∀ x ∈ views.map (·.node) ++ deep, x ∉ views'.map (·.node) ++ deep' :=
    fun x hx hx' => by
      obtain ⟨f, hf, hg⟩ := L'.source x hx' (alive x hx)
      exact L.not_held R₁ hx f hf hg
  refine
    { grows := L.grows.cons R S L'.grows
      shows := (L.shows.congr kept).append L'.shows
      slot?_parent := ?_
      placed_eq := by rw [L'.placed_eq, L.placed_eq, List.append_assoc]
      nodup := ?_
      source := fun x hx hc => ?_
      get?_field := fun v hv f hf => ?_ }
  · rw [L'.slot?_parent, L.slot?_parent, Option.map_map]
    simp only [Function.comp_def, List.append_assoc]
  · have both := List.nodup_append'.2 ⟨L.nodup, L'.nodup, apart⟩
    refine List.Perm.nodup ?_ both
    rw [List.map_append, List.append_assoc, List.append_assoc]
    exact (List.perm_append_comm_assoc _ _ _).append_left _
  · have hx : x ∈ views.map (·.node) ++ deep ∨ x ∈ views'.map (·.node) ++ deep' := by
      simp only [List.map_append, List.mem_append] at hx ⊢
      tauto
    rcases hx with hx | hx
    · obtain ⟨f, hf, hg⟩ := L.source x hx hc
      exact ⟨f, fieldsOf_cons e es ▸ List.mem_append_left _ hf, hg⟩
    · obtain ⟨f, hf, hg⟩ := L'.source x hx (L.grows.contains hc)
      exact ⟨f, fieldsOf_cons e es ▸ List.mem_append_right _ hf,
        L.grows.get?_of_not_mem (fun hf' => S.not_mem_tail hf' hf) hg⟩
  · rcases List.mem_append.1 hv with hv | hv
    · exact L'.grows.fields_mono f _ (L.get?_field v hv f hf)
    · exact L'.get?_field v hv f hf

end Cons

/-! ### An element with what is inside it -/

section Inside

variable {views : List PlacedView} {deep inside : List NodeId}

/-- The node of a placed element begins with what it was or with a fresh visual element. -/
lemma starts (R : Ready σ parent [e] s)
    (P : a.Places σ.definition parent arranged e s id start s₁) : a.Starts σ e start :=
  starts_of_source R P.source

/-- An element is placed, and then what is inside it, by whatever way. -/
lemma around (R : Ready σ parent [e] s) (S : AreSound [e])
    (P : a.Places σ.definition parent arranged e s id start s₁)
    (G : Grows id e.children s₁ s')
    (shows : a.Shows s'.tree σ parent arranged [e] [id] (⟨e, id, parent⟩ :: views) deep)
    (placed_eq : s'.placed = s₁.placed ++ views) (nodup : (views.map (·.node) ++ deep).Nodup)
    (source : ∀ x ∈ views.map (·.node) ++ deep, s₁.tree.contains x = true →
      ∃ f ∈ fieldsOf e.children, s₁.fields.get? f = some x)
    (get?_field : ∀ v ∈ views, ∀ f, v.element.field = some f → s'.fields.get? f = some v.node) :
    a.Lays σ parent arranged [e] [id] (⟨e, id, parent⟩ :: views) deep s s' := by
  have R₁ := R.inside S P
  have hid : s₁.tree.contains id = true := ViewTree.contains_iff.2 ⟨_, P.slot?_id⟩
  have fresh : id ∉ views.map (·.node) ++ deep := fun hx => by
    obtain ⟨f, hf, hg⟩ := source id hx hid
    exact (R₁.isLoose f hf id hg).2 rfl
  refine
    { grows := .inside R S P G
      shows
      slot?_parent := ?_
      placed_eq := by rw [placed_eq, P.placed_eq, List.append_assoc]; rfl
      nodup := List.nodup_cons.2 ⟨fresh, nodup⟩
      source := List.forall_mem_cons.2 ⟨fun hc => ?_, fun x hx hc => ?_⟩
      get?_field := List.forall_mem_cons.2 ⟨fun f hf => ?_, get?_field⟩ }
  · rw [← P.slot?_parent]
    refine G.slot?_eq parent (P.contains R.contains) P.ne_parent.symm fun f hf hg => ?_
    rw [P.get?_of_ne f (S.field_ne hf)] at hg
    exact (R.isLoose f (fieldsOf_singleton e ▸ List.mem_append_right _ hf) parent hg).2 rfl
  · rcases P.source with ⟨field, n, he, hg, _⟩ | ⟨_, _, hn⟩
    · refine ⟨field, ?_, hg⟩
      rw [fieldsOf_singleton, he]
      exact List.mem_cons_self
    · rw [hc] at hn
      cases hn
  · obtain ⟨f, hf, hg⟩ := source x hx (P.contains hc)
    rw [P.get?_of_ne f (S.field_ne hf)] at hg
    exact ⟨f, fieldsOf_singleton e ▸ List.mem_append_right _ hf, hg⟩
  · exact G.fields_mono f id (P.get?_field f hf)

/-- **An element and then those inside it.** -/
theorem container (hties : ∀ p, σ.ties p []) (R : Ready σ parent [e] s) (S : AreSound [e])
    (hk : e.kind.acceptsChildren = true)
    (P : a.Places σ.definition parent arranged e s id start s₁)
    (L : a.Lays σ id e.kind.arrangesChildren e.children inside views deep s₁ s') :
    a.Lays σ parent arranged [e] [id] (⟨e, id, parent⟩ :: views) deep s s' := by
  have hslot : s'.tree.slot? id =
      some ⟨{ a.dress σ.definition e start with constraints := [] },
        some ⟨parent, arranged⟩, inside⟩ := by
    rw [L.slot?_parent, P.slot?_id]
    rfl
  have shows := Shows.container hk (starts R P) (hties _) hslot L.shows .nil
  simp only [List.append_nil] at shows
  exact around R S P L.grows shows L.placed_eq L.nodup L.source L.get?_field

end Inside

end Lays

/-! ### Components -/

/-- What was applied inside the node of a component: nothing, or a definition, which it shows. All
nodes below it are new. -/
inductive Enters (a : Applier H) (active : List String) (id : NodeId) (t t' : ViewTree H) :
    Option Definition → Prop where
  /-- There was no definition to be applied. -/
  | skipped : t' = t → Enters a active id t t' none
  /-- A definition was applied. -/
  | entered {nested : Definition} {inside : List NodeId} {views : List PlacedView}
      {deep : List NodeId} :
      t'.slot? id = (t.slot? id).map (fun slot =>
        { slot with
          node := a.capabilities.setOn .container (a.sheets.resolveRoot nested).properties slot.node
          children := inside }) →
      a.Shows t' ⟨nested.typeName :: active, nested, fun _ => none, Tied nested.typeName views⟩ id
        false nested.children inside views deep →
      (views.map (·.node) ++ deep).Nodup → (∀ x ∈ views.map (·.node) ++ deep, t.contains x = false) →
      Enters a active id t t' (some nested)

/-- **An element without others inside**, and then the definition of its component. -/
theorem Lays.single (hties : ∀ p, σ.ties p []) (R : Ready σ parent [e] s) (S : AreSound [e])
    (hk : e.kind.acceptsChildren = false)
    (P : a.Places σ.definition parent arranged e s id start s₁) (G : Grows id e.children s₁ s')
    (hplaced : s'.placed = s₁.placed)
    (E : a.Enters σ.active id s₁.tree s'.tree (a.nested? σ.active e)) :
    ∃ deep, a.Lays σ parent arranged [e] [id] [⟨e, id, parent⟩] deep s s' := by
  generalize hn : a.nested? σ.active e = nested at E
  have hplaced' : s'.placed = s₁.placed ++ [] := by rw [hplaced, List.append_nil]
  cases E with
  | skipped ht =>
    have hslot := P.slot?_id
    rw [← ht] at hslot
    have shows := Shows.leaf hk hn (Lays.starts R P) (hties ⟨e, id, parent⟩) hslot .nil
    exact ⟨[], around R S P G shows hplaced' List.nodup_nil
      (fun _ h => (List.not_mem_nil h).elim) fun _ h => (List.not_mem_nil h).elim⟩
  | @entered nested inside views deep hslot hin hnodup hnew =>
    rw [P.slot?_id, Option.map_some] at hslot
    have shows := Shows.component hn (Lays.starts R P) (hties ⟨e, id, parent⟩) hslot hin .nil
    rw [List.append_nil] at shows
    refine ⟨_, around R S P G shows hplaced' hnodup (fun x hx hc => ?_)
      fun _ h => (List.not_mem_nil h).elim⟩
    rw [hnew x hx] at hc
    cases hc

end Applier

end ViewMarkup
