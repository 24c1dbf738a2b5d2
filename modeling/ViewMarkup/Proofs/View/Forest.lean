import Mathlib.Data.Finset.Card
import ViewMarkup.Proofs.View.Links

/-!
# The live tree is a forest

The links between the nodes of a tree are kept twice: every node knows what is above it, and every
node lists what is below it. They fit together, and nobody gets back to a node by going up from it.

## Main definitions

* `ViewTree.Forest` — the links fit together and lead up to an end.
* `ViewTree.Climbs` — the run of going up from a node, link by link, to the end.

## Main statements

* `ViewTree.Forest.climbs` — going up from a node ends, and `ancestors` lists what is met.
* `ViewTree.Forest.mem_ancestors_iff` — the nodes met are all those that the node is below.
* `ViewTree.Forest.insert`, `ViewTree.Forest.detach`, `ViewTree.Forest.attach?` — what keeps a
  forest a forest.
-/

namespace ViewMarkup.ViewTree

variable {H : Type} {t t' : ViewTree H}

/-- The links of a tree fit together, and nobody is below itself. -/
structure Forest (t : ViewTree H) : Prop where
  /-- A node is listed by exactly the node above it. -/
  mem_children_iff : ∀ c p, c ∈ t.children p ↔ t.parent? c = some p
  /-- No node is listed twice. -/
  nodup_children : ∀ p, (t.children p).Nodup
  /-- No node is below itself. -/
  acyclic : ∀ id, ¬ t.IsBelow id id

/-- Going up from a node, link by link, meets the listed nodes and then ends. -/
inductive Climbs (t : ViewTree H) : NodeId → List NodeId → Prop where
  /-- Nothing is above the node. -/
  | top {id} : t.parent? id = none → Climbs t id []
  /-- Going on from the node above. -/
  | up {id p ids} : t.parent? id = some p → Climbs t p ids → Climbs t id (p :: ids)

/-! ### Going up -/

/-- Everything met on the way up is above the node, and is met once. -/
lemma ancestorsWithin_isBelow (n : Nat) (id a : NodeId) (h : a ∈ t.ancestorsWithin n id) :
    t.IsBelow id a := by
  induction n generalizing id with
  | zero => cases h
  | succ n ih =>
    unfold ancestorsWithin at h
    split at h
    · next p hp =>
      rcases List.mem_cons.1 h with rfl | h
      · exact .single hp
      · exact .head hp (ih p h)
    · cases h

namespace Forest

/-- A node with another above it has a living one above it. -/
lemma contains_parent (F : Forest t) {c p : NodeId} (h : t.parent? c = some p) :
    t.contains p = true :=
  contains_of_mem_children ((F.mem_children_iff c p).2 h)

/-- Only living nodes have others below them. -/
lemma contains_above (F : Forest t) {id above : NodeId} (h : t.IsBelow id above) :
    t.contains above = true := by
  obtain ⟨c, _, hc⟩ := Relation.TransGen.tail'_iff.1 h
  exact F.contains_parent hc

/-- A node is not above itself, and nothing is above it twice. -/
lemma nodup_ancestorsWithin (F : Forest t) (n : Nat) (id : NodeId) :
    (id :: t.ancestorsWithin n id).Nodup := by
  induction n generalizing id with
  | zero => simp [ancestorsWithin]
  | succ n ih =>
    refine List.nodup_cons.2 ⟨fun h => F.acyclic id (ancestorsWithin_isBelow _ _ _ h), ?_⟩
    unfold ancestorsWithin
    split
    · exact ih _
    · exact List.nodup_nil

/-- Distinct living nodes are no more than the slots. -/
lemma length_le_size (ids : List NodeId) (hn : ids.Nodup)
    (ha : ∀ id ∈ ids, t.contains id = true) : ids.length ≤ t.slots.size := by
  have hinj : Function.Injective NodeId.index := fun a b h => by cases a; cases b; cases h; rfl
  have hsub : (ids.map NodeId.index).toFinset ⊆ Finset.range t.slots.size := by
    intro i hi
    obtain ⟨id, hid, rfl⟩ := List.mem_map.1 (List.mem_toFinset.1 hi)
    exact Finset.mem_range.2 (index_lt_of_contains (ha id hid))
  have hcard := Finset.card_le_card hsub
  rwa [List.toFinset_card_of_nodup (hn.map hinj), List.length_map, Finset.card_range] at hcard

/-- A climb of at most `n` steps that took fewer has reached the end. -/
lemma climbs_of_length_lt (n : Nat) (id : NodeId)
    (h : (t.ancestorsWithin n id).length < n) : t.Climbs id (t.ancestorsWithin n id) := by
  induction n generalizing id with
  | zero => cases h
  | succ n ih =>
    unfold ancestorsWithin at h ⊢
    split at h
    · next p hp => exact .up hp (ih p (by simpa using h))
    · next hp => exact .top hp

/-- **Going up from a node ends**, and `ancestors` lists what is met on the way.

**Proof sketch.** The nodes met are distinct, for a node met twice would be below itself, and they
are alive. Were there as many of them as slots, the node itself would be one more. -/
theorem climbs (F : Forest t) (id : NodeId) : t.Climbs id (t.ancestors id) := by
  unfold ancestors
  by_cases ha : t.contains id = true
  · refine climbs_of_length_lt _ id ?_
    have hall : ∀ a ∈ id :: t.ancestorsWithin t.slots.size id, t.contains a = true := by
      intro a h
      rcases List.mem_cons.1 h with rfl | h
      · exact ha
      · exact F.contains_above (ancestorsWithin_isBelow _ _ _ h)
    have hle := length_le_size _ (F.nodup_ancestorsWithin _ id) hall
    rw [List.length_cons] at hle
    omega
  · have hp : t.parent? id = none := by
      cases h : t.parent? id with
      | none => rfl
      | some p => exact absurd (contains_of_parent? h) ha
    have : t.ancestorsWithin t.slots.size id = [] := by
      cases t.slots.size with
      | zero => rfl
      | succ n => simp [ancestorsWithin, hp]
    rw [this]
    exact .top hp

/-- The climb from a node meets everything that the node is below. -/
lemma mem_of_climbs {id a : NodeId} {ids : List NodeId} (hc : t.Climbs id ids)
    (h : t.IsBelow id a) : a ∈ ids := by
  induction hc with
  | top hp =>
    obtain ⟨p, hp', _⟩ := Relation.TransGen.head'_iff.1 h
    rw [hp] at hp'
    cases hp'
  | up hp _ ih =>
    obtain ⟨p, hp', hrest⟩ := Relation.TransGen.head'_iff.1 h
    rw [hp] at hp'
    cases hp'
    rcases Relation.reflTransGen_iff_eq_or_transGen.1 hrest with rfl | hrest
    · exact List.mem_cons_self
    · exact List.mem_cons_of_mem _ (ih hrest)

/-- The nodes above a node are those that it is below. -/
theorem mem_ancestors_iff (F : Forest t) {id a : NodeId} :
    a ∈ t.ancestors id ↔ t.IsBelow id a :=
  ⟨ancestorsWithin_isBelow _ _ _, mem_of_climbs (F.climbs id)⟩

/-- There is one climb from a node. -/
lemma climbs_unique {id : NodeId} {ids ids' : List NodeId} (h : t.Climbs id ids)
    (h' : t.Climbs id ids') : ids = ids' := by
  induction h generalizing ids' with
  | top hp =>
    cases h' with
    | top => rfl
    | up hp' _ => rw [hp] at hp'; cases hp'
  | up hp _ ih =>
    cases h' with
    | top hp' => rw [hp] at hp'; cases hp'
    | up hp' hc =>
      rw [hp] at hp'
      cases hp'
      rw [ih hc]

/-- Above a node stand the node directly above it and those above that one. -/
lemma ancestors_eq (F : Forest t) {id p : NodeId} (h : t.parent? id = some p) :
    t.ancestors id = p :: t.ancestors p :=
  climbs_unique (F.climbs id) (.up h (F.climbs p))

/-! ### What keeps a forest a forest -/

/-- Trees with the same links are forests together. -/
lemma congr (F : Forest t) (hp : ∀ id, t'.parent? id = t.parent? id)
    (hc : ∀ id, t'.children id = t.children id) : Forest t' where
  mem_children_iff c p := by rw [hc, hp, F.mem_children_iff]
  nodup_children p := by
    rw [hc]
    exact F.nodup_children p
  acyclic id h := F.acyclic id (h.mono fun c p hcp => by rwa [← hp])

/-- The empty tree is a forest. -/
lemma empty : Forest ({} : ViewTree H) where
  mem_children_iff c p := by simp [children, parent?, slot?]
  nodup_children p := by simp [children, slot?]
  acyclic id h := by
    obtain ⟨p, hp, _⟩ := Relation.TransGen.head'_iff.1 h
    simp [parent?, slot?] at hp

/-- Changing a node keeps a forest. -/
lemma modify (F : Forest t) (id : NodeId) (f : ViewNode H → ViewNode H) :
    Forest (t.modify id f) :=
  F.congr (parent?_modify f id) (children_modify f id)

/-- So does a new node. -/
theorem insert (F : Forest t) (node : ViewNode H) : Forest (t.insert node).2 :=
  F.congr (parent?_insert t node) (children_insert t node)

/-- In a forest only the node above a detached one loses a child, so it may as well be struck from
all lists. -/
lemma children_detach (F : Forest t) (id id' : NodeId) :
    (t.detach id).children id' = (t.children id').filter (· ≠ id) := by
  rw [ViewTree.children_detach]
  split
  · rfl
  · next h =>
    refine (List.filter_eq_self.2 fun c hc => ?_).symm
    simp only [ne_eq, decide_not, Bool.not_eq_eq_eq_not, Bool.not_true, decide_eq_false_iff_not]
    rintro rfl
    exact h ((F.mem_children_iff c id').1 hc)

/-- Detaching a node keeps a forest. -/
theorem detach (F : Forest t) (id : NodeId) : Forest (t.detach id) where
  mem_children_iff c p := by
    rw [F.children_detach, parent?_detach, List.mem_filter, F.mem_children_iff]
    by_cases h : id = c
    · simp [h]
    · simp [h, Ne.symm h]
  nodup_children p := by
    rw [F.children_detach]
    exact (F.nodup_children p).filter _
  acyclic x h := F.acyclic x (h.mono fun c p hcp => by
    rw [parent?_detach] at hcp
    split at hcp
    · cases hcp
    · exact hcp)

/-- A way down that does not pass a given node is there without that node's link as well. -/
lemma isBelow_of_attach? {id parent : NodeId} {arranged : Bool}
    (h : t.attach? id parent arranged = some t') {x a : NodeId} (hb : t'.IsBelow x a) :
    t.IsBelow x a ∨ ((x = id ∨ t.IsBelow x id) ∧ (parent = a ∨ t.IsBelow parent a)) := by
  induction hb using Relation.TransGen.head_induction_on with
  | single hp =>
    rw [parent?_attach? h] at hp
    split at hp
    · next he => exact .inr ⟨.inl he.symm, .inl (Option.some.inj hp)⟩
    · exact .inl (.single hp)
  | head hp _ ih =>
    rw [parent?_attach? h] at hp
    split at hp
    · next he =>
      cases hp
      rcases ih with ih | ⟨_, ih⟩
      · exact .inr ⟨.inl he.symm, .inr ih⟩
      · exact .inr ⟨.inl he.symm, ih⟩
    · rcases ih with ih | ⟨ih, ih'⟩
      · exact .inl (.head hp ih)
      · refine .inr ⟨.inr ?_, ih'⟩
        rcases ih with rfl | ih
        · exact .single hp
        · exact .head hp ih

/-- **Putting a node below another keeps a forest.**

**Proof sketch.** A way from a node back to itself would have to use the new link, and so the node
put below would be the other one or above it. Both are refused: the climb from the other node has
met everything above it. -/
theorem attach? (F : Forest t) {id parent : NodeId} {arranged : Bool}
    (h : t.attach? id parent arranged = some t') : Forest t' where
  mem_children_iff c p := by
    rw [children_attach? h, parent?_attach? h, F.children_detach, List.mem_append, List.mem_filter,
      F.mem_children_iff]
    by_cases hc : id = c <;> by_cases hp : parent = p <;> simp [hc, hp, eq_comm]
  nodup_children p := by
    rw [children_attach? h, F.children_detach]
    refine List.nodup_append.2 ⟨(F.nodup_children p).filter _, by split <;> simp, ?_⟩
    intro a ha b hb
    split at hb
    · rw [List.mem_singleton.1 hb]
      simpa using (List.mem_filter.1 ha).2
    · cases hb
  acyclic x hx := by
    obtain ⟨_, _, hne, hnot⟩ := canAttach_iff.1 (canAttach_of_attach? h)
    rw [F.mem_ancestors_iff] at hnot
    rcases isBelow_of_attach? h hx with hx | ⟨hx, hx'⟩
    · exact F.acyclic x hx
    · have back : parent = id ∨ t.IsBelow parent id := by
        rcases hx with rfl | hx <;> rcases hx' with rfl | hx'
        · exact .inl rfl
        · exact .inr hx'
        · exact .inr hx
        · exact .inr (hx'.trans hx)
      rcases back with rfl | back
      · exact hne rfl
      · exact hnot back

end Forest

end ViewMarkup.ViewTree
