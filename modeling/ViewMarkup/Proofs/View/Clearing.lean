import ViewMarkup.Proofs.View.Removing
import ViewMarkup.View.Apply

/-!
# Taking apart what is below a node

Before a definition is applied, everything below the component's node is taken apart. In a forest
this has a simple effect: the nodes that are kept stand by themselves, all others below are gone, the
component's node has nothing below it, and the rest of the tree is not touched.

## Main definitions

* `ViewTree.IsLoose` — a node stands by itself.

## Main statements

* `Applier.slot?_clear` — what becomes of every node.
* `Applier.forest_clear` — the tree stays a forest.
-/

namespace ViewMarkup

variable {H : Type} {t : ViewTree H}

namespace ViewTree

/-- A living node stands by itself: it is below no node, and no node is below it. -/
def IsLoose (t : ViewTree H) (id : NodeId) : Prop := ∃ n : ViewNode H, t.slot? id = some { node := n }

/-- A loose node is there. -/
lemma IsLoose.contains {id : NodeId} (h : t.IsLoose id) : t.contains id = true := by
  obtain ⟨n, hn⟩ := h
  exact contains_iff.2 ⟨_, hn⟩

/-- A loose node has no parent. -/
lemma IsLoose.parent? {id : NodeId} (h : t.IsLoose id) : t.parent? id = none := by
  obtain ⟨n, hn⟩ := h
  exact parent?_of_slot? hn

/-- A loose node has no children. -/
lemma IsLoose.children {id : NodeId} (h : t.IsLoose id) : t.children id = [] := by
  obtain ⟨n, hn⟩ := h
  exact children_of_slot? hn

/-- Nothing is below a node without children. -/
lemma Forest.not_isBelow (F : Forest t) {id : NodeId} (h : t.children id = []) (x : NodeId) :
    ¬ t.IsBelow x id := by
  intro hb
  obtain ⟨c, _, hc⟩ := Relation.TransGen.tail'_iff.1 hb
  have hm := (F.mem_children_iff c id).2 hc
  rw [h] at hm
  cases hm

/-- A node without another above it is not changed by detaching it. -/
lemma detach_of_parent? {id : NodeId} (h : t.parent? id = none) : t.detach id = t := by
  rw [detach, h]

/-! ### Detaching many nodes -/

/-- What detaching a node does to a slot. -/
lemma Forest.slot?_detach (F : Forest t) (id x : NodeId) :
    (t.detach id).slot? x = (t.slot? x).map fun s =>
      { s with
        attachment := if id = x then none else s.attachment
        children := s.children.filter (· ≠ id) } := by
  have hch := F.children_detach id x
  rw [ViewTree.slot?_detach] at *
  cases hs : t.slot? x with
  | none => rfl
  | some s =>
    rw [children_of_slot? hs, children, ViewTree.slot?_detach, hs] at hch
    simp only [Option.map_some] at hch ⊢
    rw [hch]

/-- Detached nodes are below no node, and no lists have them. -/
lemma Forest.slot?_foldl_detach (F : Forest t) (ids : List NodeId) (x : NodeId) :
    (ids.foldl ViewTree.detach t).slot? x = (t.slot? x).map fun s =>
      { s with
        attachment := if x ∈ ids then none else s.attachment
        children := s.children.filter (· ∉ ids) } := by
  induction ids generalizing t with
  | nil => simp
  | cons id ids ih =>
    rw [List.foldl_cons, ih (F.detach id), F.slot?_detach, Option.map_map]
    refine Option.map_congr fun s _ => ?_
    simp only [Function.comp_apply, List.filter_filter, List.mem_cons, not_or]
    congr 1
    · by_cases hx : x ∈ ids
      · simp [hx]
      · by_cases hi : x = id
        · simp [hi]
        · simp [hx, hi, Ne.symm hi]
    · refine List.filter_congr fun c _ => ?_
      simp [Bool.and_comm]

/-- Detaching nodes keeps a forest. -/
lemma Forest.foldl_detach (F : Forest t) (ids : List NodeId) : Forest (ids.foldl ViewTree.detach t) := by
  induction ids generalizing t with
  | nil => exact F
  | cons id ids ih => exact ih (F.detach id)

/-! ### Removing many nodes that stand by themselves -/

/-- The subtree of a loose node is that node. -/
lemma Forest.walk_of_isLoose (F : Forest t) {id : NodeId} (h : t.IsLoose id) :
    t.walk id = [id] := by
  rw [F.walk_eq h.contains, h.children]
  rfl

/-- Removing a loose node removes nothing else. -/
lemma Forest.slot?_remove_of_isLoose (F : Forest t) {id : NodeId} (h : t.IsLoose id)
    (x : NodeId) : (t.remove id).2.slot? x = if x = id then none else t.slot? x := by
  rw [F.slot?_remove h.contains, F.walk_of_isLoose h, detach_of_parent? h.parent?]
  simp only [List.mem_singleton]

/-- Removing loose nodes removes nothing else. -/
lemma Forest.slot?_foldl_remove (F : Forest t) {ids : List NodeId} (hn : ids.Nodup)
    (hl : ∀ id ∈ ids, t.IsLoose id) (x : NodeId) :
    (ids.foldl (fun t id => (t.remove id).2) t).slot? x = if x ∈ ids then none else t.slot? x := by
  induction ids generalizing t with
  | nil => simp
  | cons id ids ih =>
    have hid := hl id List.mem_cons_self
    obtain ⟨hni, hn⟩ := List.nodup_cons.1 hn
    have rest : ∀ i ∈ ids, (t.remove id).2.IsLoose i := fun i hi => by
      obtain ⟨n, hs⟩ := hl i (List.mem_cons_of_mem _ hi)
      refine ⟨n, ?_⟩
      have hne : i ≠ id := by
        rintro rfl
        exact hni hi
      rw [F.slot?_remove_of_isLoose hid, if_neg hne, hs]
    rw [List.foldl_cons, ih (F.remove id) hn rest, F.slot?_remove_of_isLoose hid]
    by_cases hx : x ∈ ids
    · simp [hx]
    · simp [hx, List.mem_cons]

/-- Removing nodes keeps a forest. -/
lemma Forest.foldl_remove (F : Forest t) (ids : List NodeId) :
    Forest (ids.foldl (fun t id => (t.remove id).2) t) := by
  induction ids generalizing t with
  | nil => exact F
  | cons id ids ih => exact ih (F.remove id)

/-- A node is below another one once. -/
lemma Forest.nodup_descendants (F : Forest t) (id : NodeId) : (t.descendants id).Nodup :=
  (F.nodup_walk id).sublist (List.drop_sublist 1 _)

end ViewTree

namespace Applier

open ViewTree

variable (root : NodeId) (keep : List NodeId)

/-- The tree stays a forest. -/
theorem forest_clear (F : Forest t) : Forest (clear t root keep) :=
  (F.foldl_detach _).foldl_remove _

/-- **What becomes of every node**: the kept ones below stand by themselves, the others below are
gone, the node itself has nothing below it any more, and all else is as it was.

**Proof sketch.** Once all nodes below are detached, none of them has children, since the children
of a node below are below as well; so each is removed by itself. A node that is neither below nor
the node itself has no children below. -/
theorem slot?_clear (F : Forest t) (x : NodeId) :
    (clear t root keep).slot? x =
      if x ∈ t.descendants root then
        if x ∈ keep then (t.slot? x).map fun s => { node := s.node } else none
      else if x = root then (t.slot? x).map fun s => { s with children := [] }
      else t.slot? x := by
  have detached := F.slot?_foldl_detach (t.descendants root)
  have F' := F.foldl_detach (t.descendants root)
  -- A list of children has nothing below the node unless it is that of the node or of one below.
  have outside : ∀ {p c}, c ∈ t.children p → c ∈ t.descendants root →
      p = root ∨ p ∈ t.descendants root := by
    intro p c hc hb
    rw [F.mem_descendants_iff] at hb ⊢
    obtain ⟨q, hq, hb⟩ := Relation.TransGen.head'_iff.1 hb
    rw [(F.mem_children_iff c p).1 hc] at hq
    cases hq
    exact isWithin_iff.1 hb
  have inside : ∀ {p c}, c ∈ t.children p → p ∈ t.descendants root → c ∈ t.descendants root := by
    intro p c hc hp
    rw [F.mem_descendants_iff] at hp ⊢
    exact .head ((F.mem_children_iff c p).1 hc) hp
  have loose : ∀ {y s}, y ∈ t.descendants root → t.slot? y = some s →
      ((t.descendants root).foldl ViewTree.detach t).slot? y = some { node := s.node } := by
    intro y s hy hs
    have hnone : s.children.filter (· ∉ t.descendants root) = [] := by
      rw [List.filter_eq_nil_iff]
      intro c hc
      simpa using inside (children_of_slot? hs ▸ hc) hy
    rw [detached, hs, Option.map_some, if_pos hy, hnone]
  have hl : ∀ y ∈ (t.descendants root).filter (!keep.contains ·),
      ((t.descendants root).foldl ViewTree.detach t).IsLoose y := by
    intro y hy
    have hy := (List.mem_filter.1 hy).1
    obtain ⟨s, hs⟩ := contains_iff.1 (F.mem_descendants_iff.1 hy).contains
    exact ⟨s.node, loose hy hs⟩
  rw [clear, F'.slot?_foldl_remove ((F.nodup_descendants root).filter _) hl]
  simp only [List.mem_filter, Bool.not_eq_true', decide_eq_false_iff_not,
    List.contains_eq_mem]
  by_cases hx : x ∈ t.descendants root
  · by_cases hk : x ∈ keep
    · obtain ⟨s, hs⟩ := contains_iff.1 (F.mem_descendants_iff.1 hx).contains
      simp only [hx, hk, not_true_eq_false, and_false, ↓reduceIte, loose hx hs, hs, Option.map_some]
    · simp only [hx, hk, not_false_eq_true, and_self, ↓reduceIte]
  · simp only [hx, false_and, ↓reduceIte, detached]
    cases hs : t.slot? x with
    | none => simp
    | some s =>
      by_cases hr : x = root
      · have hnone : s.children.filter (· ∉ t.descendants root) = [] := by
          rw [List.filter_eq_nil_iff]
          intro c hc
          have hp := (F.mem_children_iff c x).1 (children_of_slot? hs ▸ hc)
          simpa using F.mem_descendants_iff.2 (.single (hr ▸ hp))
        simp only [hr, ↓reduceIte, Option.map_some, hnone]
      · have hall : s.children.filter (· ∉ t.descendants root) = s.children := by
          rw [List.filter_eq_self]
          intro c hc
          simpa using fun hb => (outside (children_of_slot? hs ▸ hc) hb).elim hr hx
        simp only [hr, ↓reduceIte, Option.map_some, hall]

end Applier

end ViewMarkup
