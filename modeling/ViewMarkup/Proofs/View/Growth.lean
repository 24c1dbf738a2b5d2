import ViewMarkup.Proofs.View.Showing

/-!
# What placing elements leaves alone

While elements are placed below a node, the tree around them stays as it is. Nodes that the fields of
these elements hold stand by themselves before and come to be below the node; new nodes come into
being; no other node is touched. This holds whether all elements are placed or one of them fails.

## Main definitions

* `Ready` — elements can be placed below a node.
* `Grows` — what may have happened, at most, when elements were being placed below a node.

## Main statements

* `Grows.refl`, `Grows.cons` — placing elements one after the other.
* `Grows.inside` — placing an element and what is inside it.
* `Ready.tail`, `Ready.inside` — what comes next can be placed as well.
-/

namespace ViewMarkup

open Element

variable {H : Type}

/-- Elements can be placed below a node: the nodes that their fields hold stand by themselves, and
no two fields hold the same one. -/
structure Ready (σ : Scene H) (parent : NodeId) (es : List Element) (s : Run H) : Prop where
  /-- The links of the tree fit together. -/
  forest : s.tree.Forest
  /-- The node is alive. -/
  contains : s.tree.contains parent = true
  /-- The nodes held for the elements stand by themselves. -/
  isLoose : ∀ f ∈ fieldsOf es, ∀ id, s.fields.get? f = some id → s.tree.IsLoose id ∧ id ≠ parent
  /-- The scope knows what visual elements they have. -/
  old_eq : ∀ f ∈ fieldsOf es,
    σ.old f = (s.fields.get? f).bind fun id => (s.tree.get? id).map (·.element)
  /-- All nodes held are alive. -/
  contains_field : ∀ f id, s.fields.get? f = some id → s.tree.contains id = true
  /-- No two fields hold the same node. -/
  injective : ∀ f f' id, s.fields.get? f = some id → s.fields.get? f' = some id → f = f'

/-- What may have happened, at most, when elements were being placed below a node, whether that
failed or not. -/
structure Grows (parent : NodeId) (es : List Element) (s s' : Run H) : Prop where
  /-- The links of the tree fit together. -/
  forest : s'.tree.Forest
  /-- The node is alive. -/
  contains_parent : s'.tree.contains parent = true
  /-- It is where it was. -/
  parent?_parent : s'.tree.parent? parent = s.tree.parent? parent
  /-- Other nodes are as they were, unless the fields of the elements held them. -/
  slot?_eq : ∀ x, s.tree.contains x = true → x ≠ parent →
    (∀ f ∈ fieldsOf es, s.fields.get? f ≠ some x) → s'.tree.slot? x = s.tree.slot? x
  /-- Fields hold what they held. -/
  fields_mono : ∀ f id, s.fields.get? f = some id → s'.fields.get? f = some id
  /-- Other fields hold new nodes. -/
  fields_new : ∀ f id, s'.fields.get? f = some id → s.fields.get? f = some id ∨
    f ∈ fieldsOf es ∧ s.tree.contains id = false ∧ s'.tree.contains id = true
  /-- No two fields hold the same node. -/
  injective : ∀ f f' id, s'.fields.get? f = some id → s'.fields.get? f' = some id → f = f'
  /-- Nodes held for the elements stand by themselves or have come below the node. -/
  held : ∀ f ∈ fieldsOf es, ∀ id, s'.fields.get? f = some id →
    s'.tree.IsLoose id ∨ s'.tree.IsBelow id parent
  /-- No field comes to be there twice. -/
  nodup_keys : s.fields.keys.Nodup → s'.fields.keys.Nodup
  /-- New nodes have come below the node. -/
  below_of_contains : ∀ x, s'.tree.contains x = true →
    s.tree.contains x = true ∨ s'.tree.IsBelow x parent

/-- A node whose slot stays is as loose as before. -/
lemma ViewTree.IsLoose.of_slot? {t t' : ViewTree H} {id : NodeId} (h : t.IsLoose id)
    (hs : t'.slot? id = t.slot? id) : t'.IsLoose id := by
  obtain ⟨n, hn⟩ := h
  exact ⟨n, hs.trans hn⟩

variable {σ : Scene H} {parent : NodeId} {e : Element} {es : List Element} {s s₁ s' : Run H}

/-! ### What stays -/

namespace Grows

/-- No node dies. -/
lemma contains (G : Grows parent es s s') {x : NodeId} (hx : s.tree.contains x = true) :
    s'.tree.contains x = true := by
  by_cases hp : x = parent
  · exact hp ▸ G.contains_parent
  · by_cases hh : ∃ f ∈ fieldsOf es, s.fields.get? f = some x
    · obtain ⟨f, hf, hg⟩ := hh
      exact (G.held f hf x (G.fields_mono f x hg)).elim (·.contains) (·.contains)
    · have hh : ∀ f ∈ fieldsOf es, s.fields.get? f ≠ some x := fun f hf hg => hh ⟨f, hf, hg⟩
      rw [ViewTree.contains_congr (G.slot?_eq x hx hp hh)]
      exact hx

/-- Whoever is below another node stays there. -/
lemma parent?_mono (R : Ready σ parent es s) (G : Grows parent es s s') {c p : NodeId}
    (h : s.tree.parent? c = some p) : s'.tree.parent? c = some p := by
  by_cases hp : c = parent
  · rw [hp] at h ⊢
    rw [G.parent?_parent, h]
  · have hh : ∀ f ∈ fieldsOf es, s.fields.get? f ≠ some c := by
      intro f hf hg
      rw [(R.isLoose f hf c hg).1.parent?] at h
      cases h
    rw [ViewTree.parent?_congr (G.slot?_eq c (ViewTree.contains_of_parent? h) hp hh), h]

/-- What was below a node is below it in a tree that has grown. -/
lemma isBelow_mono (R : Ready σ parent es s) (G : Grows parent es s s') {x above : NodeId}
    (h : s.tree.IsBelow x above) : s'.tree.IsBelow x above :=
  h.mono fun _ _ => G.parent?_mono R

/-- A field of another element holds what it held. -/
lemma get?_of_not_mem (G : Grows parent es s s') {f : String} (hf : f ∉ fieldsOf es) {id : NodeId}
    (h : s'.fields.get? f = some id) : s.fields.get? f = some id :=
  (G.fields_new f id h).resolve_right fun h => hf h.1

/-- A run that does nothing grows by nothing. -/
theorem refl (R : Ready σ parent es s) : Grows parent es s s where
  forest := R.forest
  contains_parent := R.contains
  parent?_parent := rfl
  slot?_eq _ _ _ _ := rfl
  fields_mono _ _ h := h
  fields_new _ _ h := .inl h
  injective := R.injective
  held f hf id h := .inl (R.isLoose f hf id h).1
  nodup_keys h := h
  below_of_contains _ h := .inl h

end Grows

/-! ### One element after the other -/

/-- What is ready for elements is ready for the first one. -/
lemma Ready.head (R : Ready σ parent (e :: es) s) : Ready σ parent [e] s where
  forest := R.forest
  contains := R.contains
  isLoose f hf := R.isLoose f (fieldsOf_cons e es ▸ List.mem_append_left _ hf)
  old_eq f hf := R.old_eq f (fieldsOf_cons e es ▸ List.mem_append_left _ hf)
  contains_field := R.contains_field
  injective := R.injective

/-- A node that is held for an element is not one that is held for those before. -/
lemma Ready.ne_of_get? (R : Ready σ parent (e :: es) s) (S : AreSound (e :: es)) {f : String}
    (hf : f ∈ fieldsOf es) {id : NodeId} (h : s.fields.get? f = some id) :
    ∀ f' ∈ fieldsOf [e], s.fields.get? f' ≠ some id := fun f' hf' h' =>
  S.not_mem_tail hf' (R.injective f f' id h h' ▸ hf)

/-- When an element has been placed, those after it can be. -/
theorem Ready.tail (R : Ready σ parent (e :: es) s) (S : AreSound (e :: es))
    (G : Grows parent [e] s s₁) : Ready σ parent es s₁ := by
  have before : ∀ f ∈ fieldsOf es, ∀ id, s₁.fields.get? f = some id →
      s.fields.get? f = some id := fun f hf id h =>
    G.get?_of_not_mem (fun hf' => S.not_mem_tail hf' hf) h
  have same : ∀ f ∈ fieldsOf es, ∀ id, s.fields.get? f = some id →
      s₁.tree.slot? id = s.tree.slot? id := fun f hf id h =>
    G.slot?_eq id (R.contains_field f id h)
      (R.isLoose f (fieldsOf_cons e es ▸ List.mem_append_right _ hf) id h).2 (R.ne_of_get? S hf h)
  exact
    { forest := G.forest
      contains := G.contains_parent
      isLoose := fun f hf id h => by
        have h := before f hf id h
        have hl := R.isLoose f (fieldsOf_cons e es ▸ List.mem_append_right _ hf) id h
        exact ⟨hl.1.of_slot? (same f hf id h), hl.2⟩
      old_eq := fun f hf => by
        rw [R.old_eq f (fieldsOf_cons e es ▸ List.mem_append_right _ hf)]
        cases h : s₁.fields.get? f with
        | none =>
          cases h' : s.fields.get? f with
          | none => rfl
          | some id =>
            rw [G.fields_mono f id h'] at h
            cases h
        | some id =>
          have h' := before f hf id h
          rw [h', Option.bind_some, Option.bind_some, ViewTree.get?, ViewTree.get?,
            same f hf id h']
      contains_field := fun f id h => (G.fields_new f id h).elim
        (fun h => G.contains (R.contains_field f id h)) fun h => h.2.2
      injective := G.injective }

/-- Elements are placed one after the other. -/
theorem Grows.cons (R : Ready σ parent (e :: es) s) (S : AreSound (e :: es))
    (G : Grows parent [e] s s₁) (G' : Grows parent es s₁ s') : Grows parent (e :: es) s s' := by
  have R₁ := R.tail S G
  refine
    { forest := G'.forest
      contains_parent := G'.contains_parent
      parent?_parent := G'.parent?_parent.trans G.parent?_parent
      slot?_eq := fun x hx hp hh => ?_
      fields_mono := fun f id h => G'.fields_mono f id (G.fields_mono f id h)
      fields_new := fun f id h => ?_
      injective := G'.injective
      held := fun f hf id h => ?_
      nodup_keys := fun h => G'.nodup_keys (G.nodup_keys h)
      below_of_contains := fun x hx => (G'.below_of_contains x hx).elim
        (fun hx => (G.below_of_contains x hx).imp_right (G'.isBelow_mono R₁)) .inr }
  · rw [fieldsOf_cons, List.forall_mem_append] at hh
    rw [G'.slot?_eq x (G.contains hx) hp, G.slot?_eq x hx hp hh.1]
    intro f hf h
    exact hh.2 f hf (G.get?_of_not_mem (fun hf' => S.not_mem_tail hf' hf) h)
  · rcases G'.fields_new f id h with h | ⟨hf, hn, hc⟩
    · rcases G.fields_new f id h with h | ⟨hf, hn, hc⟩
      · exact .inl h
      · exact .inr ⟨fieldsOf_cons e es ▸ List.mem_append_left _ hf, hn, G'.contains hc⟩
    · refine .inr ⟨fieldsOf_cons e es ▸ List.mem_append_right _ hf, ?_, hc⟩
      exact Bool.eq_false_iff.2 fun hs => Bool.false_ne_true (hn.symm.trans (G.contains hs))
  · rw [fieldsOf_cons, List.mem_append] at hf
    rcases hf with hf | hf
    · -- The node of the first element: the others leave it where it is.
      have h₁ := G'.get?_of_not_mem (S.not_mem_tail hf) h
      rcases G.held f hf id h₁ with hl | hb
      · refine .inl (hl.of_slot? (G'.slot?_eq id hl.contains ?_ fun f' hf' h' => ?_))
        · rcases G.fields_new f id h₁ with h₀ | ⟨_, hn, _⟩
          · exact (R.head.isLoose f hf id h₀).2
          · rintro rfl
            rw [R.contains] at hn
            cases hn
        · exact S.not_mem_tail hf (G.injective f f' id h₁ h' ▸ hf')
      · exact .inr (G'.isBelow_mono R₁ hb)
    · exact G'.held f hf id h

/-! ### An element and what is inside it -/

section Inside

variable {a : Applier H} {d : Definition} {arranged : Bool} {id : NodeId}
  {start : VisualElement H}

/-- No node dies when an element is placed. -/
lemma Applier.Places.contains (P : a.Places d parent arranged e s id start s₁) {x : NodeId}
    (hx : s.tree.contains x = true) : s₁.tree.contains x = true := by
  by_cases hid : x = id
  · exact ViewTree.contains_iff.2 ⟨_, hid ▸ P.slot?_id⟩
  · by_cases hp : x = parent
    · obtain ⟨slot, hs⟩ := ViewTree.contains_iff.1 hx
      subst hp
      exact ViewTree.contains_iff.2 ⟨_, by rw [P.slot?_parent, hs, Option.map_some]⟩
    · rw [ViewTree.contains_congr (P.slot?_of_ne x hid hp)]
      exact hx

/-- A node that another field holds is not the node of the element. -/
lemma Ready.ne_of_places (R : Ready σ parent [e] s)
    (P : a.Places d parent arranged e s id start s₁) {f : String} (hf : e.field ≠ some f)
    {x : NodeId} (h : s.fields.get? f = some x) : x ≠ id := by
  rintro rfl
  rcases P.source with ⟨field, n, he, hg, _⟩ | ⟨_, _, hn⟩
  · exact hf (R.injective f field x h hg ▸ he)
  · rw [R.contains_field f x h] at hn
    cases hn

/-- When an element has been placed, those inside it can be. -/
theorem Ready.inside (R : Ready σ parent [e] s) (S : AreSound [e])
    (P : a.Places d parent arranged e s id start s₁) : Ready σ id e.children s₁ := by
  have hsub : ∀ f ∈ fieldsOf e.children, f ∈ fieldsOf [e] := fun f hf =>
    fieldsOf_singleton e ▸ List.mem_append_right _ hf
  have same : ∀ f ∈ fieldsOf e.children, ∀ x, s.fields.get? f = some x →
      s₁.tree.slot? x = s.tree.slot? x := fun f hf x h =>
    P.slot?_of_ne x (R.ne_of_places P (S.field_ne hf) h) (R.isLoose f (hsub f hf) x h).2
  refine
    { forest := P.forest
      contains := ViewTree.contains_iff.2 ⟨_, P.slot?_id⟩
      isLoose := fun f hf x h => ?_
      old_eq := fun f hf => ?_
      contains_field := fun f x h => ?_
      injective := fun f f' x h h' => ?_ }
  · rw [P.get?_of_ne f (S.field_ne hf)] at h
    exact ⟨(R.isLoose f (hsub f hf) x h).1.of_slot? (same f hf x h),
      R.ne_of_places P (S.field_ne hf) h⟩
  · rw [R.old_eq f (hsub f hf), P.get?_of_ne f (S.field_ne hf)]
    cases h : s.fields.get? f with
    | none => rfl
    | some x =>
      rw [Option.bind_some, Option.bind_some, ViewTree.get?, ViewTree.get?, same f hf x h]
  · by_cases hf : e.field = some f
    · rw [P.get?_field f hf] at h
      cases h
      exact ViewTree.contains_iff.2 ⟨_, P.slot?_id⟩
    · rw [P.get?_of_ne f hf] at h
      exact P.contains (R.contains_field f x h)
  · by_cases hf : e.field = some f
    · by_cases hf' : e.field = some f'
      · exact Option.some.inj (hf.symm.trans hf')
      · rw [P.get?_field f hf] at h
        rw [P.get?_of_ne f' hf'] at h'
        cases h
        exact absurd rfl (R.ne_of_places P hf' h')
    · by_cases hf' : e.field = some f'
      · rw [P.get?_field f' hf'] at h'
        rw [P.get?_of_ne f hf] at h
        cases h'
        exact absurd rfl (R.ne_of_places P hf h)
      · rw [P.get?_of_ne f hf] at h
        rw [P.get?_of_ne f' hf'] at h'
        exact R.injective f f' x h h'

/-- An element is placed, and then those inside it. -/
theorem Grows.inside (R : Ready σ parent [e] s) (S : AreSound [e])
    (P : a.Places d parent arranged e s id start s₁) (G : Grows id e.children s₁ s') :
    Grows parent [e] s s' := by
  have R₁ := R.inside S P
  have hparent : s₁.tree.contains parent = true := P.contains R.contains
  have hparent' : s'.tree.slot? parent = s₁.tree.slot? parent := by
    refine G.slot?_eq parent hparent P.ne_parent.symm fun f hf h => ?_
    rw [P.get?_of_ne f (S.field_ne hf)] at h
    exact (R.isLoose f (fieldsOf_singleton e ▸ List.mem_append_right _ hf) parent h).2 rfl
  have hid : s'.tree.parent? id = some parent :=
    G.parent?_parent.trans (ViewTree.parent?_of_slot? P.slot?_id)
  refine
    { forest := G.forest
      contains_parent := G.contains hparent
      parent?_parent := ?_
      slot?_eq := fun x hx hp hh => ?_
      fields_mono := fun f x h => ?_
      fields_new := fun f x h => ?_
      injective := G.injective
      held := fun f hf x h => ?_
      nodup_keys := fun h => G.nodup_keys (P.nodup_keys h)
      below_of_contains := fun x hx => ?_ }
  · obtain ⟨slot, hs⟩ := ViewTree.contains_iff.1 R.contains
    rw [ViewTree.parent?_congr hparent', ViewTree.parent?_of_slot? hs]
    have hs₁ := P.slot?_parent
    rw [hs, Option.map_some] at hs₁
    rw [ViewTree.parent?_of_slot? hs₁]
  · rw [fieldsOf_singleton, List.forall_mem_append] at hh
    have hne : x ≠ id := by
      rintro rfl
      rcases P.source with ⟨field, n, he, hg, _⟩ | ⟨_, _, hn⟩
      · exact hh.1 field (by rw [he]; exact List.mem_singleton_self field) hg
      · rw [hx] at hn
        cases hn
    rw [G.slot?_eq x (P.contains hx) hne, P.slot?_of_ne x hne hp]
    intro f hf h
    rw [P.get?_of_ne f (S.field_ne hf)] at h
    exact hh.2 f hf h
  · refine G.fields_mono f x ?_
    by_cases hf : e.field = some f
    · rw [P.get?_field f hf]
      rcases P.source with ⟨field, n, he, hg, _⟩ | ⟨hn, _⟩
      · rw [he] at hf
        cases hf
        exact hg.symm.trans h
      · rw [hn f hf] at h
        cases h
    · rw [P.get?_of_ne f hf, h]
  · rcases G.fields_new f x h with h | ⟨hf, hn, hc⟩
    · by_cases hf : e.field = some f
      · rw [P.get?_field f hf] at h
        cases h
        rcases P.source with ⟨field, n, he, hg, _⟩ | ⟨_, _, hn⟩
        · rw [he] at hf
          cases hf
          exact .inl hg
        · refine .inr ⟨?_, hn, G.contains_parent⟩
          rw [fieldsOf_singleton, hf]
          exact List.mem_cons_self
      · rw [P.get?_of_ne f hf] at h
        exact .inl h
    · refine .inr ⟨fieldsOf_singleton e ▸ List.mem_append_right _ hf, ?_, hc⟩
      exact Bool.eq_false_iff.2 fun hs => Bool.false_ne_true (hn.symm.trans (P.contains hs))
  · rw [fieldsOf_singleton, List.mem_append, Option.mem_toList] at hf
    rcases hf with hf | hf
    · have := G.fields_mono f id (P.get?_field f hf)
      rw [h] at this
      cases this
      exact .inr (.single hid)
    · rcases G.held f hf x h with hl | hb
      · exact .inl hl
      · exact .inr (hb.tail hid)
  · rcases G.below_of_contains x hx with hx | hb
    · by_cases hne : x = id
      · exact .inr (hne ▸ .single hid)
      · by_cases hp : x = parent
        · exact .inl (hp ▸ R.contains)
        · rw [ViewTree.contains_congr (P.slot?_of_ne x hne hp)] at hx
          exact .inl hx
    · exact .inr (hb.tail hid)

end Inside

end ViewMarkup
