import ViewMarkup.Proofs.View.Walk

/-!
# Removing a node with all below it

A node is removed by way of a queue: the slot of the first node in it is emptied, and what was below
that node comes to its end. The queue goes through the nodes level by level and forgets, with every
slot, how the nodes below hung together. In a forest it nevertheless reaches just the nodes that a
walk lists.

## Main statements

* `ViewTree.slot?_removeQueue_of_not` — what the queue cannot come to stays as it is.
* `ViewTree.slot?_removeQueue_of_mem`, `ViewTree.children_removeQueue` — the queue passes nothing
  over, neither a node in it nor one below an emptied slot.
* `ViewTree.Forest.slot?_remove` — what becomes of every slot.
* `ViewTree.Forest.fst_remove` — it is the node removed that is handed back.
* `ViewTree.Forest.remove` — removing a node with all below it keeps a forest.
-/

namespace ViewMarkup.ViewTree

variable {H : Type} {t : ViewTree H} {id : NodeId} {removed : Option (ViewNode H)}
  {queue : List NodeId}

/-! ### What the queue comes to -/

/-- What the queue cannot come to stays as it is: the slots that are emptied are those of nodes in
the queue or below such nodes. -/
theorem slot?_removeQueue_of_not (Reached : NodeId → Prop) (hq : ∀ x ∈ queue, Reached x)
    (below : ∀ x, Reached x → ∀ c ∈ t.children x, Reached c) {x : NodeId} (hx : ¬ Reached x) :
    (t.removeQueue id removed queue).2.slot? x = t.slot? x := by
  fun_induction removeQueue id t removed queue with
  | case1 => rfl
  | case2 t removed next queue s hs ih =>
    have hnext := hq next List.mem_cons_self
    have hne : next ≠ x := fun he => hx (he ▸ hnext)
    rw [ih ?_ ?_, slot?_vacate, if_neg hne]
    · refine List.forall_mem_append.2 ⟨fun y hy => hq y (List.mem_cons_of_mem _ hy), fun c hc => ?_⟩
      exact below next hnext c (by rwa [children_of_slot? hs])
    · intro y hy c hc
      rw [children_vacate] at hc
      split at hc
      · cases hc
      · exact below y hy c hc
  | case3 t removed next queue hs ih =>
    exact ih (fun y hy => hq y (List.mem_cons_of_mem _ hy)) below

/-- An empty slot stays empty. -/
lemma slot?_removeQueue_of_eq_none {x : NodeId} (h : t.slot? x = none) :
    (t.removeQueue id removed queue).2.slot? x = none := by
  rw [Option.eq_none_iff_forall_ne_some]
  intro s hs
  rw [slot?_of_slot?_removeQueue hs] at h
  cases h

/-- All nodes in the queue are taken, however many come behind them. -/
theorem slot?_removeQueue_of_mem {x : NodeId} (hx : x ∈ queue) :
    (t.removeQueue id removed queue).2.slot? x = none := by
  fun_induction removeQueue id t removed queue with
  | case1 => cases hx
  | case2 t removed next queue s hs ih =>
    rcases List.mem_cons.1 hx with rfl | hx
    · exact slot?_removeQueue_of_eq_none (by simp)
    · exact ih (List.mem_append_left _ hx)
  | case3 t removed next queue hs ih =>
    rcases List.mem_cons.1 hx with rfl | hx
    · exact slot?_removeQueue_of_eq_none hs
    · exact ih hx

/-- No node is left below an emptied slot. -/
theorem children_removeQueue {p : NodeId} (hp : t.contains p = true)
    (hgone : (t.removeQueue id removed queue).2.slot? p = none) :
    ∀ c ∈ t.children p, (t.removeQueue id removed queue).2.slot? c = none := by
  fun_induction removeQueue id t removed queue with
  | case1 t =>
    rw [contains, hgone] at hp
    cases hp
  | case2 t removed next queue s hs ih =>
    intro c hc
    by_cases he : next = p
    · -- What is below the node that was taken waits in the queue from now on.
      subst he
      rw [children_of_slot? hs] at hc
      exact slot?_removeQueue_of_mem (List.mem_append_right _ hc)
    · have hslot : (t.vacate next).slot? p = t.slot? p := by rw [slot?_vacate, if_neg he]
      refine ih (by rwa [contains_congr hslot]) hgone c ?_
      rwa [children_vacate, if_neg he]
  | case3 t removed next queue hs ih => exact ih hp hgone

/-- A node that is in no list and not in the queue is not taken again. -/
lemma fst_removeQueue (hq : id ∉ queue) (hc : ∀ p, id ∉ t.children p) :
    (t.removeQueue id removed queue).1 = removed := by
  fun_induction removeQueue id t removed queue with
  | case1 => rfl
  | case2 t removed next queue s hs ih =>
    obtain ⟨hne, hq⟩ := not_or.1 (List.mem_cons.not.1 hq)
    have hids : id ∉ s.children := children_of_slot? hs ▸ hc next
    refine (ih ?_ fun p => ?_).trans (if_neg (Ne.symm hne))
    · exact List.mem_append.not.2 (not_or.2 ⟨hq, hids⟩)
    · rw [children_vacate]
      split
      · exact List.not_mem_nil
      · exact hc p
  | case3 t removed next queue hs ih =>
    obtain ⟨hne, hq⟩ := not_or.1 (List.mem_cons.not.1 hq)
    exact (ih hq hc).trans (if_neg (Ne.symm hne))

/-! ### Removing from a forest -/

namespace Forest

/-- **What becomes of every slot**: those of the nodes that a walk lists are emptied, and the others
are as they are without the link of the node.

**Proof sketch.** The queue begins with the node itself. It comes to nothing that does not lie within
the node, for lists and links fit together. It comes to all that does, by induction on the way up:
the node above has been taken, so whatever it lists is taken as well. -/
theorem slot?_remove (F : Forest t) (h : t.contains id = true) (x : NodeId) :
    (t.remove id).2.slot? x = if x ∈ t.walk id then none else (t.detach id).slot? x := by
  rw [remove_of_contains h]
  split
  · next hx =>
    induction (F.mem_walk_iff.1 hx).2 using Relation.ReflTransGen.head_induction_on with
    | refl => exact slot?_removeQueue_of_mem (List.mem_singleton_self _)
    | @head c p hcp hp ih =>
      have hgone := ih (F.mem_walk_iff.2 ⟨h, hp⟩)
      -- The link of the node itself is gone, but no way up from below uses it.
      have hne : id ≠ c := by
        rintro rfl
        exact F.acyclic _ (Relation.TransGen.head' hcp hp)
      refine children_removeQueue ?_ hgone c ?_
      · rw [contains_detach]
        exact F.contains_parent hcp
      · rw [(F.detach id).mem_children_iff, parent?_detach, if_neg hne]
        exact hcp
  · next hx =>
    refine slot?_removeQueue_of_not (· ∈ t.walk id) ?_ (fun y hy c hc => ?_) hx
    · exact List.forall_mem_singleton.2 (F.mem_walk_iff.2 ⟨h, .refl⟩)
    · rw [(F.detach id).mem_children_iff, parent?_detach] at hc
      split at hc
      · cases hc
      · exact F.mem_walk_iff.2 ⟨h, .head hc (F.mem_walk_iff.1 hy).2⟩

/-- **It is the node removed that is handed back**: it is taken first, and never again. -/
theorem fst_remove (F : Forest t) (id : NodeId) : (t.remove id).1 = t.get? id := by
  cases hs : t.slot? id with
  | none =>
    rw [remove_of_not_contains (by rw [contains, hs]; rfl), get?, hs]
    rfl
  | some s =>
    have ha : t.contains id = true := contains_iff.2 ⟨s, hs⟩
    obtain ⟨s', hs'⟩ := contains_iff.1 ((contains_detach t id id).trans ha)
    -- Nothing lists a node that has been detached.
    have alone : ∀ p, id ∉ (t.detach id).children p := fun p hp => by
      rw [(F.detach id).mem_children_iff, parent?_detach, if_pos rfl] at hp
      cases hp
    have once : (((t.detach id).vacate id).removeQueue id (some s'.node) s'.children).1 =
        some s'.node := by
      refine fst_removeQueue (children_of_slot? hs' ▸ alone id) fun p hp => ?_
      rw [children_vacate] at hp
      split at hp
      · cases hp
      · exact alone p hp
    rw [remove_of_contains ha, removeQueue]
    split
    · next s'' hs'' =>
      rw [hs'] at hs''
      cases hs''
      rw [handBack, if_pos rfl, List.nil_append, once, ← get?_of_slot? hs', get?_detach]
    · next hs'' =>
      rw [hs'] at hs''
      cases hs''

/-- **Removing a node with all below it keeps a forest.**

**Proof sketch.** Once the node is detached no link leads out of what is within it, so the links of
all other nodes stay as they are. -/
theorem remove (F : Forest t) (id : NodeId) : Forest (t.remove id).2 := by
  by_cases h : t.contains id = true
  swap
  · rw [remove_of_not_contains (by simpa using h)]
    exact F
  have F' := F.detach id
  have hslot := F.slot?_remove h
  have hpar : ∀ c, (t.remove id).2.parent? c =
      if c ∈ t.walk id then none else (t.detach id).parent? c := fun c => by
    simp only [parent?, hslot]
    split <;> rfl
  have hch : ∀ p, (t.remove id).2.children p =
      if p ∈ t.walk id then [] else (t.detach id).children p := fun p => by
    simp only [children, hslot]
    by_cases hp : p ∈ t.walk id <;> simp only [hp, ↓reduceIte]
  have closed : ∀ {c p}, (t.detach id).parent? c = some p → (c ∈ t.walk id ↔ p ∈ t.walk id) := by
    intro c p hcp
    rw [parent?_detach] at hcp
    split at hcp
    · cases hcp
    · next hne =>
      rw [F.mem_walk_iff, F.mem_walk_iff]
      refine and_congr_right fun _ => ⟨fun hc => ?_, fun hp => .head hcp hp⟩
      rcases isWithin_iff.1 hc with rfl | hc
      · exact absurd rfl hne
      · obtain ⟨q, hq, hc⟩ := Relation.TransGen.head'_iff.1 hc
        rw [hcp] at hq
        cases hq
        exact hc
  refine ⟨fun c p => ?_, fun p => ?_, fun x hx => F'.acyclic x (hx.mono fun c p hcp => ?_)⟩
  · rw [hch, hpar]
    by_cases hc : c ∈ t.walk id <;> by_cases hp : p ∈ t.walk id <;>
      simp only [hc, hp, ↓reduceIte, List.not_mem_nil, reduceCtorEq, F'.mem_children_iff]
    · exact ⟨fun hcp => hp ((closed hcp).1 hc), False.elim⟩
    · exact ⟨False.elim, fun hcp => hc ((closed hcp).2 hp)⟩
  · rw [hch]
    split
    · exact List.nodup_nil
    · exact F'.nodup_children p
  · rw [hpar] at hcp
    split at hcp
    · cases hcp
    · exact hcp

end Forest

end ViewMarkup.ViewTree
