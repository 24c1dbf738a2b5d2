import ViewMarkup.Proofs.Table
import ViewMarkup.Proofs.View.Constraining
import ViewMarkup.Proofs.View.Laying

/-!
# An application makes the tree show the definition

An application takes apart what is below a component's node, places the elements of the definition
with the components inside them, and sets the constraints of every scope. If it succeeds the tree
shows the definition. Whether it succeeds or not, the nodes that the component's fields hold stand by
themselves or are below the component's node, so that the next application can place them again.

## Main definitions

* `Holds` — what is invariant about a component's node and the nodes of its fields.
* `Applier.Obstructed` — why an application fails.
* `Applier.Keeps` — what holds after an application that may have failed.
* `Applier.Mirrors` — what holds after an application that has succeeded.

## Main statements

* `Applier.applyScope_meets` — what applying a definition to a node does.
-/

namespace ViewMarkup

open Element

variable {H : Type}

/-- **The invariant of a component**: its node is alive, and every node that its fields hold stands
by itself or is below that node. No two fields hold the same node. -/
structure Holds (root : NodeId) (t : ViewTree H) (fields : Table String NodeId) : Prop where
  /-- The links of the tree fit together. -/
  forest : t.Forest
  /-- The node is alive. -/
  contains : t.contains root = true
  /-- Nodes that fields hold are other nodes, and are not elsewhere in the tree. -/
  held : ∀ f id, fields.get? f = some id → id ≠ root ∧ (t.IsLoose id ∨ t.IsBelow id root)
  /-- No two fields hold the same node. -/
  injective : ∀ f f' id, fields.get? f = some id → fields.get? f' = some id → f = f'
  /-- No field is there twice. -/
  nodup_keys : fields.keys.Nodup

/-- A component begins without fields. -/
lemma Holds.start {t : ViewTree H} {root : NodeId} (F : t.Forest) (h : t.contains root = true) :
    Holds root t {} where
  forest := F
  contains := h
  held _ _ hg := nomatch hg
  injective _ _ _ hg := nomatch hg
  nodup_keys := List.nodup_nil

/-- The visual element of the node that a field holds. -/
def Run.old (s : Run H) (field : String) : Option (VisualElement H) :=
  (s.fields.get? field).bind fun id => (s.tree.get? id).map (·.element)

/-! ### Beginning a scope -/

/-- What the beginning of a scope leaves: the component's node with the properties of the
definition's root and nothing below it, all nodes that fields hold by themselves, and nothing else
of what was below. -/
structure Applier.Begins (a : Applier H) (d : Definition) (root : NodeId) (s s₁ : Run H) : Prop where
  /-- The links of the tree fit together. -/
  forest : s₁.tree.Forest
  /-- The component's node has nothing below it. -/
  slot?_root : s₁.tree.slot? root = (s.tree.slot? root).map fun slot =>
    { slot with
      node := a.capabilities.setOn .container (a.sheets.resolveRoot d).properties slot.node
      children := [] }
  /-- Nodes that are not below it are as they were. -/
  slot?_eq : ∀ x, x ≠ root → ¬ s.tree.IsBelow x root → s₁.tree.slot? x = s.tree.slot? x
  /-- Nodes that fields hold stand by themselves. -/
  slot?_held : ∀ f id, s.fields.get? f = some id → ∃ n : ViewNode H, s.tree.get? id = some n ∧
    s₁.tree.slot? id = some { node := n }
  /-- Of the nodes that were below it no others are left. -/
  mem_values : ∀ x, s.tree.IsBelow x root → s₁.tree.contains x = true → x ∈ s.fields.values
  /-- Fields hold what they held. -/
  fields_eq : s₁.fields = s.fields
  /-- Nothing is placed. -/
  placed_eq : s₁.placed = s.placed

/-- The beginning of a scope does what it is for, and it does not fail. -/
lemma Applier.beginScope_meets [Widget H] (a : Applier H) {root : ScopeRoot} (d : Definition)
    {s : Run H} (h : Holds root.node s.tree s.fields) :
    Live.Meets s (a.beginScope root d) (fun _ s₁ => a.Begins d root.node s s₁) (fun _ => False) := by
  unfold beginScope
  refine Live.Meets.bind ?_
  rw [Live.meets_get, if_pos h.contains]
  refine Live.Meets.bind ?_
  rw [Live.meets_set]
  obtain ⟨warnings, hassign⟩ := a.assign_eq root.node .container d.typeName "self"
    (a.sheets.resolveRoot d)
    { s with
      tree := clear s.tree root.node s.fields.values
      definitions := s.definitions ++ [d.typeName] }
  rw [Live.Meets, hassign]
  have F := h.forest
  have hroot : root.node ∉ s.tree.descendants root.node := fun hm =>
    F.acyclic _ (F.mem_descendants_iff.1 hm)
  have cleared := slot?_clear root.node s.fields.values F
  exact
    { forest := (forest_clear root.node s.fields.values F).modify _ _
      slot?_root := by
        rw [ViewTree.slot?_modify, if_pos rfl, cleared, if_neg hroot, if_pos rfl, Option.map_map]
        rfl
      slot?_eq := fun x hx hb => by
        rw [ViewTree.slot?_modify, if_neg hx.symm, cleared,
          if_neg fun hm => hb (F.mem_descendants_iff.1 hm), if_neg hx]
      slot?_held := fun f id hg => by
        obtain ⟨hne, hl | hb⟩ := h.held f id hg
        · obtain ⟨n, hn⟩ := hl
          refine ⟨n, ViewTree.get?_of_slot? hn, ?_⟩
          rw [ViewTree.slot?_modify, if_neg hne.symm, cleared, if_neg, if_neg hne, hn]
          intro hm
          obtain ⟨p, hp, _⟩ := Relation.TransGen.head'_iff.1 (F.mem_descendants_iff.1 hm)
          rw [ViewTree.parent?_of_slot? hn] at hp
          cases hp
        · obtain ⟨slot, hs⟩ := ViewTree.contains_iff.1 hb.contains
          refine ⟨slot.node, ViewTree.get?_of_slot? hs, ?_⟩
          rw [ViewTree.slot?_modify, if_neg hne.symm, cleared, if_pos (F.mem_descendants_iff.2 hb),
            if_pos (Table.mem_values_of_get? hg), hs]
          rfl
      mem_values := fun x hb hx => by
        obtain ⟨slot, hs⟩ := ViewTree.contains_iff.1 hx
        have hne : root.node ≠ x := by
          rintro rfl
          exact F.acyclic _ hb
        rw [ViewTree.slot?_modify, if_neg hne, cleared, if_pos (F.mem_descendants_iff.2 hb)] at hs
        split at hs
        · assumption
        · cases hs
      fields_eq := rfl
      placed_eq := rfl }

/-! ### What an application leaves -/

/-- The scope of a definition that is applied to a component. -/
def Scene.of (active : List String) (d : Definition) (s : Run H) (views : List PlacedView) :
    Scene H :=
  ⟨active, d, s.old, Applier.Tied d.typeName views⟩

/-- The same scope before its constraints are set. -/
def Scene.untied (active : List String) (d : Definition) (s : Run H) : Scene H :=
  ⟨active, d, s.old, fun _ cs => cs = []⟩

namespace Applier

/-- **Why an application fails**: there is an element for which no node can be had, a constraint whose
target means nothing in its scope, or a component inside with the same fate. Only the component's
own fields may be missing. -/
inductive Obstructed (a : Applier H) : Bool → List String → Definition → Prop where
  /-- No node can be had for an element. -/
  | element {adopts : Bool} {active : List String} {d : Definition} {e : Element} :
      e ∈ d.elements → a.Refuses adopts e → Obstructed a adopts active d
  /-- The target of a constraint means nothing. -/
  | target {adopts : Bool} {active : List String} {d : Definition} {e : Element} {c : Constraint} :
      e ∈ d.elements → c ∈ e.layout.constraints → ¬ c.target.IsFound d.elements →
      Obstructed a adopts active d
  /-- The definition of a component inside cannot be applied. -/
  | nested {adopts : Bool} {active : List String} {d : Definition} {e : Element}
      {nested : Definition} : e ∈ d.elements → a.nested? active e = some nested →
      Obstructed a true (nested.typeName :: active) nested → Obstructed a adopts active d

/-- **What holds after an application that may have failed**: the component's invariant, and that
the tree outside is as it was. -/
structure Keeps (root : NodeId) (fs : List String) (s s' : Run H) : Prop where
  /-- The invariant of the component. -/
  holds : Holds root s'.tree s'.fields
  /-- The component's node is where it was. -/
  parent?_root : s'.tree.parent? root = s.tree.parent? root
  /-- Nodes that are not below it are as they were, unless fields of the definition held them. -/
  slot?_eq : ∀ x, s.tree.contains x = true → x ≠ root → ¬ s.tree.IsBelow x root →
    (∀ f ∈ fs, s.fields.get? f ≠ some x) → s'.tree.slot? x = s.tree.slot? x
  /-- Fields hold what they held. -/
  fields_mono : ∀ f id, s.fields.get? f = some id → s'.fields.get? f = some id
  /-- Fields that the definition does not have hold nothing else. -/
  get?_of_not_mem : ∀ f ∉ fs, ∀ id, s'.fields.get? f = some id → s.fields.get? f = some id
  /-- The nodes that they hold stand by themselves. -/
  isLoose : ∀ f ∉ fs, ∀ id, s'.fields.get? f = some id → s'.tree.IsLoose id
  /-- New nodes have come below the node, and of what was below it the rest is held by fields. -/
  below_of_contains : ∀ x, s'.tree.contains x = true → s'.tree.IsBelow x root ∨
    s.tree.contains x = true ∧ (s.tree.IsBelow x root → x ∈ s.fields.values)

/-- **What holds after an application that has succeeded**: the tree shows the definition below the
component's node. -/
structure Mirrors (a : Applier H) (active : List String) (d : Definition) (root : NodeId)
    (ids : List NodeId) (views : List PlacedView) (deep : List NodeId) (s s' : Run H) : Prop where
  /-- The component's node has the properties of the definition's root, and the nodes of the
  elements at the top below it. -/
  slot?_root : s'.tree.slot? root = (s.tree.slot? root).map fun slot =>
    { slot with
      node := a.capabilities.setOn .container (a.sheets.resolveRoot d).properties slot.node
      children := ids }
  /-- The tree shows the elements. -/
  shows : a.Shows s'.tree (.of active d s views) root false d.children ids views deep
  /-- The elements are noted as placed. -/
  placed_eq : s'.placed = views
  /-- All nodes are different. -/
  nodup : (views.map (·.node) ++ deep).Nodup
  /-- All nodes are new, were below the component's node or were held by its fields. -/
  source : ∀ x ∈ views.map (·.node) ++ deep, s.tree.contains x = true →
    s.tree.IsBelow x root ∨ ∃ f ∈ fieldsOf d.children, s.fields.get? f = some x
  /-- Fields hold the nodes of their elements. -/
  get?_field : ∀ v ∈ views, ∀ f, v.element.field = some f → s'.fields.get? f = some v.node

variable {a : Applier H} {active : List String} {d : Definition} {root : NodeId} {s s₁ s₂ s' : Run H}

/-- When a scope has begun, its elements can be placed. -/
lemma Begins.ready (B : a.Begins d root s s₁) (h : Holds root s.tree s.fields) :
    Ready (.untied active d s) root d.children s₁ where
  forest := B.forest
  contains := by
    obtain ⟨slot, hs⟩ := ViewTree.contains_iff.1 h.contains
    exact ViewTree.contains_iff.2 ⟨_, by rw [B.slot?_root, hs, Option.map_some]⟩
  isLoose f _ id hg := by
    rw [B.fields_eq] at hg
    obtain ⟨n, _, hn⟩ := B.slot?_held f id hg
    exact ⟨⟨n, hn⟩, (h.held f id hg).1⟩
  old_eq f _ := by
    rw [B.fields_eq]
    change (s.fields.get? f).bind _ = _
    cases hg : s.fields.get? f with
    | none => rfl
    | some id =>
      obtain ⟨n, hn, hn'⟩ := B.slot?_held f id hg
      rw [Option.bind_some, Option.bind_some, hn, ViewTree.get?_of_slot? hn']
  contains_field f id hg := by
    rw [B.fields_eq] at hg
    obtain ⟨n, _, hn⟩ := B.slot?_held f id hg
    exact ViewTree.contains_iff.2 ⟨_, hn⟩
  injective f f' id hg hg' := by
    rw [B.fields_eq] at hg hg'
    exact h.injective f f' id hg hg'

/-- A node outside is untouched when a scope has begun. -/
lemma Begins.contains (B : a.Begins d root s s₁) {x : NodeId} (hx : s.tree.contains x = true)
    (hb : ¬ s.tree.IsBelow x root) : s₁.tree.contains x = true := by
  by_cases hr : x = root
  · obtain ⟨slot, hs⟩ := ViewTree.contains_iff.1 hx
    subst hr
    exact ViewTree.contains_iff.2 ⟨_, by rw [B.slot?_root, hs, Option.map_some]⟩
  · rw [ViewTree.contains_congr (B.slot?_eq x hr hb)]
    exact hx

/-- No node comes into being when a scope begins. -/
lemma Begins.contains_of_contains (B : a.Begins d root s s₁) (h : Holds root s.tree s.fields)
    {x : NodeId} (hx : s₁.tree.contains x = true) : s.tree.contains x = true := by
  by_cases hr : x = root
  · exact hr ▸ h.contains
  · by_cases hb : s.tree.IsBelow x root
    · exact hb.contains
    · rwa [ViewTree.contains_congr (B.slot?_eq x hr hb)] at hx

/-- However far the placing of the elements has come, the component's invariant holds. -/
lemma Begins.keeps (B : a.Begins d root s s₁) (h : Holds root s.tree s.fields)
    (G : Grows root d.children s₁ s₂) : Keeps root (fieldsOf d.children) s s₂ := by
  have R : Ready (.untied [] d s) root d.children s₁ := B.ready h
  have ne_root : ∀ f id, s₂.fields.get? f = some id → id ≠ root := by
    intro f id hg
    rcases G.fields_new f id hg with hg | ⟨_, hn, _⟩
    · exact (h.held f id (B.fields_eq ▸ hg)).1
    · rintro rfl
      rw [R.contains] at hn
      cases hn
  have isLoose : ∀ f ∉ fieldsOf d.children, ∀ id, s₂.fields.get? f = some id →
      s₂.tree.IsLoose id := by
    intro f hf id hg
    have hg₁ := G.get?_of_not_mem hf hg
    obtain ⟨n, _, hn⟩ := B.slot?_held f id (B.fields_eq ▸ hg₁)
    have hl : s₁.tree.IsLoose id := ⟨n, hn⟩
    exact hl.of_slot? (G.slot?_eq id hl.contains (ne_root f id hg) fun f' hf' hg' =>
      hf (R.injective f f' id hg₁ hg' ▸ hf'))
  refine
    { holds :=
        { forest := G.forest
          contains := G.contains_parent
          held := fun f id hg => ⟨ne_root f id hg, ?_⟩
          injective := G.injective
          nodup_keys := G.nodup_keys (B.fields_eq ▸ h.nodup_keys) }
      parent?_root := ?_
      slot?_eq := fun x hx hr hb hh => ?_
      fields_mono := fun f id hg => G.fields_mono f id (B.fields_eq ▸ hg)
      get?_of_not_mem := fun f hf id hg => B.fields_eq ▸ G.get?_of_not_mem hf hg
      isLoose
      below_of_contains := fun x hx => (G.below_of_contains x hx).symm.imp_right fun hx =>
        ⟨B.contains_of_contains h hx, fun hb => B.mem_values x hb hx⟩ }
  · by_cases hf : f ∈ fieldsOf d.children
    · exact G.held f hf id hg
    · exact .inl (isLoose f hf id hg)
  · obtain ⟨slot, hs⟩ := ViewTree.contains_iff.1 h.contains
    have hs₁ := B.slot?_root
    rw [hs, Option.map_some] at hs₁
    rw [G.parent?_parent, ViewTree.parent?_of_slot? hs, ViewTree.parent?_of_slot? hs₁]
  · rw [G.slot?_eq x (B.contains hx hb) hr, B.slot?_eq x hr hb]
    rw [B.fields_eq]
    exact hh

/-- When all elements are placed and their constraints are set, the tree shows the definition. -/
lemma Begins.mirrors {ids : List NodeId} {views : List PlacedView} {deep : List NodeId}
    (B : a.Begins d root s s₁) (h : Holds root s.tree s.fields) (hplaced : s.placed = [])
    (L : a.Lays (.untied active d s) root false d.children ids views deep s₁ s₂)
    (hfields : s'.fields = s₂.fields) (hplaced' : s'.placed = s₂.placed)
    (hlinks : s₂.tree.SameLinks s'.tree)
    (hother : ∀ x ∉ s₂.placed.map (·.node), s'.tree.slot? x = s₂.tree.slot? x)
    (hset : (s₂.placed.map (·.node)).Nodup → ∀ p ∈ s₂.placed, ∃ cs,
      liveConstraints d.typeName s₂.placed p = .ok cs ∧
      s'.tree.slot? p.node = (s₂.tree.slot? p.node).map fun slot =>
        { slot with node := { slot.node with constraints := cs } }) :
    Keeps root (fieldsOf d.children) s s' ∧ a.Mirrors active d root ids views deep s s' := by
  have R : Ready (.untied active d s) root d.children s₁ := B.ready h
  have K := B.keeps h L.grows
  have hviews : s₂.placed = views := by rw [L.placed_eq, B.placed_eq, hplaced, List.nil_append]
  rw [hviews] at hother hset hplaced'
  have hroot : s'.tree.slot? root = s₂.tree.slot? root :=
    hother root fun hm => L.ne_parent R (List.mem_append_left _ hm) rfl
  refine ⟨?_, ?_⟩
  · exact
      { holds :=
          { forest := hlinks.forest K.holds.forest
            contains := by rw [hlinks.contains_eq]; exact K.holds.contains
            held := fun f id hg => by
              obtain ⟨hne, hl⟩ := K.holds.held f id (hfields ▸ hg)
              exact ⟨hne, hl.imp hlinks.isLoose hlinks.isBelow⟩
            injective := hfields ▸ K.holds.injective
            nodup_keys := hfields ▸ K.holds.nodup_keys }
        parent?_root := (hlinks.parent?_eq root).trans K.parent?_root
        slot?_eq := fun x hx hr hb hh => by
          rw [hother x fun hm => ?_, K.slot?_eq x hx hr hb hh]
          obtain ⟨f, hf, hg⟩ := L.source x (List.mem_append_left _ hm) (B.contains hx hb)
          exact hh f hf (B.fields_eq ▸ hg)
        fields_mono := fun f id hg => hfields ▸ K.fields_mono f id hg
        get?_of_not_mem := fun f hf id hg => K.get?_of_not_mem f hf id (hfields ▸ hg)
        isLoose := fun f hf id hg => hlinks.isLoose (K.isLoose f hf id (hfields ▸ hg))
        below_of_contains := fun x hx => by
          rw [hlinks.contains_eq] at hx
          exact (K.below_of_contains x hx).imp_left hlinks.isBelow }
  · exact
      { slot?_root := by
          rw [hroot, L.slot?_parent, B.slot?_root, Option.map_map]
          rfl
        shows := L.shows.tie (fun x hx => hother x fun hm => List.disjoint_of_nodup_append L.nodup hm hx)
          (hset L.nodup.of_append_left)
        placed_eq := hplaced'
        nodup := L.nodup
        source := fun x hx hc => by
          by_cases hb : s.tree.IsBelow x root
          · exact .inl hb
          · obtain ⟨f, hf, hg⟩ := L.source x hx (B.contains hc hb)
            exact .inr ⟨f, hf, B.fields_eq ▸ hg⟩
        get?_field := fun v hv f hf => hfields ▸ L.get?_field v hv f hf }

/-! ### The induction over the application -/

section Induction

variable [Widget H] (a : Applier H)

/-- What is to be shown of applying a definition to a node. -/
def ScopeMeets (active : List String) (root : ScopeRoot) (d : Definition) : Prop :=
  ∀ s : Run H, AreSound d.children → s.placed = [] → Holds root.node s.tree s.fields →
    Live.Meets s (a.applyScope active root d)
      (fun _ s' => Keeps root.node (fieldsOf d.children) s s' ∧
        ∃ ids views deep, a.Mirrors active d root.node ids views deep s s')
      (fun s' => Keeps root.node (fieldsOf d.children) s s' ∧ a.Obstructed root.adopts active d)

/-- What is to be shown of placing elements. -/
def AllMeet (active : List String) (root : ScopeRoot) (d : Definition) (parent : NodeId)
    (parentKind : Kind) (es : List Element) : Prop :=
  ∀ (σ : Scene H) (s : Run H), σ.active = active → σ.definition = d → (∀ p, σ.ties p []) →
    AreSound es → walkAll es ⊆ d.elements → Ready σ parent es s →
    Live.Meets s (a.placeAll active root d parent parentKind es)
      (fun _ s' => ∃ ids views deep,
        a.Lays σ parent parentKind.arrangesChildren es ids views deep s s')
      (fun s' => Grows parent es s s' ∧ a.Obstructed root.adopts active d)

/-- What is to be shown of placing an element. -/
def OneMeets (active : List String) (root : ScopeRoot) (d : Definition) (parent : NodeId)
    (parentKind : Kind) (e : Element) : Prop :=
  ∀ (σ : Scene H) (s : Run H), σ.active = active → σ.definition = d → (∀ p, σ.ties p []) →
    AreSound [e] → walkAll [e] ⊆ d.elements → Ready σ parent [e] s →
    Live.Meets s (a.place active root d parent parentKind e)
      (fun _ s' => ∃ id views deep,
        a.Lays σ parent parentKind.arrangesChildren [e] [id] views deep s s')
      (fun s' => Grows parent [e] s s' ∧ a.Obstructed root.adopts active d)

/-- What is to be shown of applying the definition of a component inside a node that has nothing
below it. -/
def ReferenceMeets (active : List String) (typeName element : String) (id : NodeId)
    (r : Option TypeReference) : Prop :=
  ∀ (σ : Scene H) (s : Run H), (∀ d, r = some (.inline d) → AreSound d.children) →
    Ready σ id [] s → s.tree.children id = [] →
    Live.Meets s (a.applyReference active typeName element id r)
      (fun _ s' => s'.placed = s.placed ∧ Grows id [] s s' ∧
        a.Enters active id s.tree s'.tree (a.enters? active r))
      (fun s' => Grows id [] s s' ∧ ∃ nested, a.enters? active r = some nested ∧
        a.Obstructed true (nested.typeName :: active) nested)

variable {a}

/-- A scope begins, its elements are placed, and their constraints are set. -/
lemma scopeMeets {active : List String} {root : ScopeRoot} {d : Definition}
    (h : a.AllMeet active root d root.node .container d.children) : a.ScopeMeets active root d := by
  intro s S hplaced hs
  rw [applyScope]
  refine Live.Meets.bind ((a.beginScope_meets d hs).imp (fun _ s₁ B => ?_) fun _ h => h.elim)
  refine Live.Meets.bind ((h _ s₁ rfl rfl (fun _ => rfl) S (List.Subset.refl _)
    (B.ready hs)).imp ?_ ?_)
  · rintro _ s₂ ⟨ids, views, deep, L⟩
    have hviews : s₂.placed = views := by rw [L.placed_eq, B.placed_eq, hplaced, List.nil_append]
    have helements : views.map (·.element) = d.elements := L.shows.elements_eq S.children_eq_nil
    refine (constrain_meets d.typeName s₂).imp ?_ ?_
    · rintro _ s' ⟨hfields, hplaced', hlinks, hother, hset⟩
      obtain ⟨K, M⟩ := B.mirrors hs hplaced L hfields hplaced' hlinks hother hset
      exact ⟨K, ids, views, deep, M⟩
    · rintro _ ⟨rfl, p, hp, c, hc, hf⟩
      rw [hviews, helements] at hf
      refine ⟨B.keeps hs L.grows, .target ?_ hc hf⟩
      rw [← helements, ← hviews]
      exact List.mem_map_of_mem hp
  · exact fun s₂ ⟨G, O⟩ => ⟨B.keeps hs G, O⟩

/-- Elements are placed one after the other. -/
lemma allMeet_cons {active : List String} {root : ScopeRoot} {d : Definition} {parent : NodeId}
    {parentKind : Kind} {e : Element} {es : List Element}
    (h : a.OneMeets active root d parent parentKind e)
    (h' : a.AllMeet active root d parent parentKind es) :
    a.AllMeet active root d parent parentKind (e :: es) := by
  intro σ s hσ hd hties S hes R
  have hwalk : walkAll (e :: es) = walkAll [e] ++ walkAll es := by simp [walkAll]
  rw [hwalk, List.append_subset] at hes
  rw [placeAll]
  refine Live.Meets.bind ((h σ s hσ hd hties S.head hes.1 R.head).imp ?_ ?_)
  · rintro _ s₁ ⟨id, views, deep, L⟩
    have R₁ := R.tail S L.grows
    refine (h' σ s₁ hσ hd hties S.tail hes.2 R₁).imp ?_ fun s' F => ⟨L.grows.cons R S F.1, F.2⟩
    rintro _ s' ⟨ids, views', deep', L'⟩
    exact ⟨_, _, _, L.cons R S L'⟩
  · rintro s₁ ⟨G, O⟩
    exact ⟨G.cons R S (.refl (R.tail S G)), O⟩

/-- An element is placed, and then what is inside it. -/
lemma oneMeets {active : List String} {root : ScopeRoot} {d : Definition} {parent : NodeId}
    {parentKind : Kind} {e : Element}
    (hr : ∀ id, a.ReferenceMeets active d.typeName e.name id e.reference)
    (hc : ∀ id, a.AllMeet active root d id e.kind e.children) :
    a.OneMeets active root d parent parentKind e := by
  intro σ s hσ hd hties S hes R
  subst hσ hd
  rw [walkAll_cons, walkAll, List.append_nil, List.cons_subset] at hes
  obtain ⟨he, hes⟩ := hes
  rw [place]
  have hl : ∀ f id, e.field = some f → s.fields.get? f = some id →
      s.tree.IsLoose id ∧ id ≠ parent := fun f id he hg =>
    R.isLoose f (by rw [fieldsOf_singleton, he]; exact List.mem_cons_self) id hg
  refine Live.Meets.bind ((a.placeOne_meets root σ.definition parentKind R.forest R.contains hl).imp
    ?_ ?_)
  swap
  · rintro _ ⟨rfl, hrefuse⟩
    exact ⟨.refl R, .element he hrefuse⟩
  rintro id s₁ ⟨start, P⟩
  have R₁ := R.inside S P
  simp only
  by_cases hk : e.kind.acceptsChildren = true
  · have hcomp : e.kind ≠ .component := by
      intro h
      rw [h] at hk
      cases hk
    rw [if_pos hk, if_neg hcomp]
    refine Live.Meets.bind ((hc id σ s₁ rfl rfl hties S.children hes R₁).imp ?_ fun s' F =>
      ⟨.inside R S P F.1, F.2⟩)
    rintro _ s' ⟨inside, views, deep, L⟩
    exact ⟨id, _, _, .container hties R S hk P L⟩
  · rw [if_neg hk]
    have hk : e.kind.acceptsChildren = false := by simpa using hk
    have hnil : e.children = [] := S.children_eq_nil e (by
      rw [walkAll_cons]
      exact List.mem_cons_self) hk
    by_cases hcomp : e.kind = .component
    · rw [if_pos hcomp]
      rw [hnil] at R₁
      have hn : a.nested? σ.active e = a.enters? σ.active e.reference := if_pos hcomp
      refine (hr id σ s₁ (fun d' hd' => Definition.areSound_inline S hd') R₁
        (ViewTree.children_of_slot? P.slot?_id)).imp ?_ ?_
      · rintro _ s' ⟨hplaced, G, E⟩
        obtain ⟨deep, L⟩ := Lays.single hties R S hk P (hnil ▸ G) hplaced (hn ▸ E)
        exact ⟨id, _, deep, L⟩
      · rintro s' ⟨G, nested, hnested, O⟩
        exact ⟨.inside R S P (hnil ▸ G), .nested he (hn.trans hnested) O⟩
    · rw [if_neg hcomp]
      have hn : a.nested? σ.active e = none := if_neg hcomp
      obtain ⟨deep, L⟩ := Lays.single hties R S hk P (.refl R₁) rfl (hn ▸ .skipped rfl)
      exact ⟨id, _, deep, L⟩

omit [Widget H] in
/-- A step in a scope of its own begins without fields, and the scope around goes on with its own. -/
lemma meets_inNewScope {α : Type} {x : Live H α} {s : Run H} {ok : α → Run H → Prop}
    {fail : Run H → Prop} (h : Live.Meets { s with fields := {}, placed := [] } x
      (fun v s' => ok v { s' with fields := s.fields, placed := s.placed })
      (fun s' => fail { s' with fields := s.fields, placed := s.placed })) :
    Live.Meets s (inNewScope x) ok fail := by
  unfold Live.Meets at h ⊢
  unfold inNewScope
  cases hx : x { s with fields := {}, placed := [] } with
  | ok v s' =>
    rw [hx] at h
    exact h
  | error e s' =>
    rw [hx] at h
    exact h

/-- A definition is applied inside a node that has nothing below it. -/
lemma meets_entered {active : List String} {id : NodeId} {nested : Definition}
    (S : AreSound nested.children)
    (h : a.ScopeMeets (nested.typeName :: active) ⟨id, nested.typeName, true⟩ nested)
    {σ : Scene H} {s : Run H} (R : Ready σ id [] s) (hid : s.tree.children id = []) :
    Live.Meets s
      (inNewScope do
        let _ ← a.applyScope (nested.typeName :: active) ⟨id, nested.typeName, true⟩ nested)
      (fun _ s' => s'.placed = s.placed ∧ Grows id [] s s' ∧
        a.Enters active id s.tree s'.tree (some nested))
      (fun s' => Grows id [] s s' ∧ ∃ nested', some nested = some nested' ∧
        a.Obstructed true (nested'.typeName :: active) nested') := by
  have below := R.forest.not_isBelow hid
  have hs : Holds id s.tree {} := .start R.forest R.contains
  have grows : ∀ s' : Run H,
      Keeps id (fieldsOf nested.children) { s with fields := {}, placed := [] } s' →
      Grows id [] s { s' with fields := s.fields, placed := s.placed } := fun s' K =>
    { forest := K.holds.forest
      contains_parent := K.holds.contains
      parent?_parent := K.parent?_root
      slot?_eq := fun x hx hne _ => K.slot?_eq x hx hne (below x) fun f _ hg => by cases hg
      fields_mono := fun f x hg => hg
      fields_new := fun f x hg => .inl hg
      injective := R.injective
      held := fun f hf => by cases hf
      nodup_keys := fun h => h
      below_of_contains := fun x hx => (K.below_of_contains x hx).symm.imp_left And.left }
  refine meets_inNewScope (Live.Meets.bind ((h _ S rfl hs).imp ?_ fun s' ⟨K, O⟩ =>
    ⟨grows s' K, nested, rfl, O⟩))
  rintro _ s' ⟨K, ids, views, deep, M⟩
  refine ⟨rfl, grows s' K, .entered M.slot?_root M.shows M.nodup fun x hx => ?_⟩
  refine Bool.eq_false_iff.2 fun hc => ?_
  rcases M.source x hx hc with hb | ⟨f, _, hg⟩
  · exact below x hb
  · cases hg

omit [Widget H] in
/-- A component that contains itself is passed over with a warning. -/
lemma meets_selfContained {active : List String} {id : NodeId} {w : ApplyWarning} {σ : Scene H}
    {s : Run H} {fail : Run H → Prop} (R : Ready σ id [] s) :
    Live.Meets s (warn w)
      (fun _ s' => s'.placed = s.placed ∧ Grows id [] s s' ∧ a.Enters active id s.tree s'.tree none)
      fail := by
  have G : Grows id [] s s := .refl R
  exact ⟨rfl, ⟨G.forest, G.contains_parent, rfl, G.slot?_eq, G.fields_mono, G.fields_new,
    G.injective, G.held, G.nodup_keys, G.below_of_contains⟩, .skipped rfl⟩

variable (a)

/-- What each function of an application does.

**Proof sketch.** Induction over the application, with one case for each of its functions. A node
that a component's definition is applied to is new or was just cleared, so nothing is below it and
the scope inside begins with no more than that. -/
lemma application_meets (hlib : ∀ name d, a.library.get? name = some d → AreSound d.children) :
    (∀ active root d, a.ScopeMeets active root d) ∧
      (∀ active root d parent parentKind es, a.AllMeet active root d parent parentKind es) ∧
      (∀ active root d parent parentKind e, a.OneMeets active root d parent parentKind e) ∧
      ∀ active typeName element id r, a.ReferenceMeets active typeName element id r := by
  refine applyScope.mutual_induct a a.ScopeMeets a.AllMeet a.OneMeets a.ReferenceMeets
    ?scope ?nil ?cons ?one ?none ?inlineActive ?inline ?unknown ?namedActive ?named
  case scope => exact fun _ _ _ h => scopeMeets h
  case nil =>
    intro active root d parent parentKind σ s _ _ _ _ _ R
    rw [placeAll]
    exact ⟨[], [], [], .nil R⟩
  case cons => exact fun _ _ _ _ _ _ _ h h' => allMeet_cons h h'
  case one => exact fun _ _ _ _ _ _ hr hc => oneMeets hr hc
  case none =>
    intro active typeName element id σ s _ R _
    rw [applyReference]
    exact ⟨rfl, .refl R, .skipped rfl⟩
  case inlineActive =>
    intro active typeName element id nested hn σ s _ R _
    rw [applyReference, if_pos hn, enters?, if_pos hn]
    exact meets_selfContained R
  case inline =>
    intro active typeName element id nested hn h σ s S R hid
    rw [applyReference, if_neg hn, enters?, if_neg hn]
    exact meets_entered (S nested rfl) h R hid
  case unknown =>
    intro active typeName element id name hname σ s _ R _
    have hn : a.enters? active (some (.named name)) = none := by rw [enters?, hname, Option.filter_none]
    rw [hn, applyReference]
    split
    · exact ⟨rfl, .refl R, .skipped rfl⟩
    · next nested hname' =>
      rw [hname] at hname'
      cases hname'
  case namedActive =>
    intro active typeName element id name nested hname hn σ s _ R _
    have hn' : a.enters? active (some (.named name)) = none := by
      rw [enters?, hname, Option.filter_some, if_neg (by simpa using hn)]
    rw [hn', applyReference]
    split
    · next hname' =>
      rw [hname] at hname'
      cases hname'
    · next nested' hname' =>
      cases hname.symm.trans hname'
      rw [dif_pos hn]
      exact meets_selfContained R
  case named =>
    intro active typeName element id name nested hname hn h σ s _ R hid
    have hn' : a.enters? active (some (.named name)) = some nested := by
      rw [enters?, hname, Option.filter_some, if_pos (by simpa using hn)]
    rw [hn', applyReference]
    split
    · next hname' =>
      rw [hname] at hname'
      cases hname'
    · next nested' hname' =>
      cases hname.symm.trans hname'
      rw [dif_neg hn]
      exact meets_entered (hlib name nested hname) h R hid

/-- **What applying a definition to a node does**: if it succeeds the tree shows the definition, and
in any case the component's invariant holds again and the tree around is as it was. It fails for
nothing but an obstruction in the definition. -/
theorem applyScope_meets (active : List String) (root : ScopeRoot) (d : Definition)
    (hlib : ∀ name d, a.library.get? name = some d → AreSound d.children) :
    a.ScopeMeets active root d :=
  (a.application_meets hlib).1 active root d

end Induction

end Applier

end ViewMarkup
