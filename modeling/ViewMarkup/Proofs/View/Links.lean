import Mathlib.Data.List.Nodup
import Mathlib.Logic.Relation
import ViewMarkup.View.Tree

/-!
# What the changes of a tree do to its links

Everything that can be asked of a tree is read off the slots of its nodes. This module says, for
each change of a tree, what becomes of the links between its nodes: which node is above which, in
which order the nodes below a node stand, and which of them are lined up.

## Main definitions

* `ViewTree.IsBelow` — one node lies below another, at any distance.
* `ViewTree.living` — the living nodes.

## Main statements

* `ViewTree.parent?_detach`, `ViewTree.children_detach` — taking a node from below another.
* `ViewTree.slot?_attach?` — putting a node below another, as its last child.
* `ViewTree.slot?_of_slot?_removeQueue` — removing nodes leaves the others as they are.
-/

namespace ViewMarkup.ViewTree

variable {H : Type} {t t' : ViewTree H}

/-- A node lies below another one, at any distance. -/
def IsBelow (t : ViewTree H) (id above : NodeId) : Prop :=
  Relation.TransGen (fun c p => t.parent? c = some p) id above

/-! ### Reading slots -/

/-- A node is there if it has a slot. -/
lemma contains_iff {id : NodeId} : t.contains id = true ↔ ∃ s, t.slot? id = some s :=
  Option.isSome_iff_exists

/-- A node that is not there has none. -/
lemma slot?_eq_none {id : NodeId} (h : t.contains id = false) : t.slot? id = none := by
  simpa [contains] using h

/-- The view of a node is in its slot. -/
lemma get?_of_slot? {id : NodeId} {s : Slot H} (h : t.slot? id = some s) :
    t.get? id = some s.node := by
  simp [get?, h]

/-- Its parent is in its slot. -/
lemma parent?_of_slot? {id : NodeId} {s : Slot H} (h : t.slot? id = some s) :
    t.parent? id = s.attachment.map (·.parent) := by
  simp [parent?, h]

/-- Its children are in its slot. -/
lemma children_of_slot? {id : NodeId} {s : Slot H} (h : t.slot? id = some s) :
    t.children id = s.children := by
  simp [children, h]

/-- Whether it is arranged is in its slot. -/
lemma isArranged_of_slot? {id : NodeId} {s : Slot H} (h : t.slot? id = some s) :
    t.isArranged id = s.attachment.any (·.arranged) := by
  simp [isArranged, h]

/-- A node with another above it is alive. -/
lemma contains_of_parent? {c p : NodeId} (h : t.parent? c = some p) : t.contains c = true := by
  obtain ⟨s, hs, _⟩ := Option.bind_eq_some_iff.1 h
  exact contains_iff.2 ⟨s, hs⟩

/-- A node with another below it is alive. -/
lemma contains_of_mem_children {c p : NodeId} (h : c ∈ t.children p) : t.contains p = true := by
  unfold children at h
  split at h
  · next s hs => exact contains_iff.2 ⟨s, hs⟩
  · cases h

/-- A node with nothing above it is not lined up. -/
lemma isArranged_of_parent?_eq_none {id : NodeId} (h : t.parent? id = none) :
    t.isArranged id = false := by
  cases hs : t.slot? id with
  | none => simp [isArranged, hs]
  | some s =>
    rw [parent?_of_slot? hs, Option.map_eq_none_iff] at h
    rw [isArranged_of_slot? hs, h]
    rfl

/-- A living node's number is one of the slots'. -/
lemma index_lt_of_contains {id : NodeId} (h : t.contains id = true) :
    id.index < t.slots.size := by
  obtain ⟨s, hs⟩ := contains_iff.1 h
  simp only [slot?, Option.join_eq_some_iff] at hs
  exact (Array.getElem?_eq_some_iff.1 hs).1

/-- Changing a slot adds none. -/
@[simp]
lemma size_slots_modifySlot (t : ViewTree H) (id : NodeId) (f : Slot H → Slot H) :
    (t.modifySlot id f).slots.size = t.slots.size := by
  unfold modifySlot
  split <;> simp

/-! ### Counting living nodes -/

/-- The living nodes, in the order in which they came into being. -/
def living (t : ViewTree H) : List NodeId :=
  ((List.range t.slots.size).filter fun i => t.contains ⟨i⟩).map .mk

/-- No living node is listed twice. -/
lemma nodup_living (t : ViewTree H) : t.living.Nodup :=
  (List.nodup_range.filter _).map fun _ _ h => NodeId.mk.inj h

/-- The living nodes are those that are there. -/
lemma mem_living_iff {x : NodeId} : x ∈ t.living ↔ t.contains x = true := by
  rw [living, List.mem_map]
  refine ⟨?_, fun hx => ⟨x.index, List.mem_filter.2 ⟨?_, hx⟩, rfl⟩⟩
  · rintro ⟨i, hi, rfl⟩
    exact (List.mem_filter.1 hi).2
  · exact List.mem_range.2 (index_lt_of_contains hx)

/-- The size of a tree is the number of its living nodes. -/
lemma length_living (t : ViewTree H) : t.living.length = t.size := by
  have hslots : t.slots.toList = (List.range t.slots.size).map fun i => (t.slots[i]?).join := by
    refine List.ext_getElem (by simp) fun i hi _ => ?_
    have hi : i < t.slots.size := by simpa using hi
    simp [hi]
  rw [living, List.length_map, ← List.countP_eq_length_filter, size, hslots, List.countP_map]
  rfl

/-- The living nodes may be counted in any order. -/
lemma size_eq_length {ids : List NodeId} (hn : ids.Nodup)
    (hm : ∀ x, x ∈ ids ↔ t.contains x = true) : t.size = ids.length := by
  rw [← length_living]
  exact ((List.perm_ext_iff_of_nodup t.nodup_living hn).2 fun x =>
    mem_living_iff.trans (hm x).symm).length_eq

/-! ### Trees with the same links -/

/-- Trees whose slots agree at a node agree in what is above it. -/
lemma parent?_congr {id : NodeId} (h : t'.slot? id = t.slot? id) :
    t'.parent? id = t.parent? id := by
  rw [parent?, parent?, h]

/-- A node whose slot stays is there as before. -/
lemma contains_congr {id : NodeId} (h : t'.slot? id = t.slot? id) :
    t'.contains id = t.contains id := by
  rw [contains, contains, h]

/-- What is below a node stays below it as long as no parent is lost. -/
lemma IsBelow.mono (h : ∀ c p, t.parent? c = some p → t'.parent? c = some p) {id above : NodeId}
    (hb : t.IsBelow id above) : t'.IsBelow id above :=
  Relation.TransGen.mono h _ _ hb

/-- A node below another is alive. -/
lemma IsBelow.contains {id above : NodeId} (h : t.IsBelow id above) : t.contains id = true := by
  obtain ⟨p, hp, _⟩ := Relation.TransGen.head'_iff.1 h
  exact contains_of_parent? hp

/-! ### Changing nodes -/

section Modify

variable (f : ViewNode H → ViewNode H) (id id' : NodeId)

/-- What a change of a node does to the slots. -/
lemma slot?_modify :
    (t.modify id f).slot? id' = if id = id' then
      (t.slot? id').map fun s => { s with node := f s.node } else t.slot? id' :=
  slot?_modifySlot t id id' _

/-- It concerns the view of that node. -/
@[simp]
lemma get?_modify :
    (t.modify id f).get? id' = if id = id' then (t.get? id').map f else t.get? id' := by
  simp only [get?, slot?_modify]
  split <;> cases t.slot? id' <;> rfl

/-- It leaves the parents as they are. -/
@[simp]
lemma parent?_modify : (t.modify id f).parent? id' = t.parent? id' := by
  simp only [parent?, slot?_modify]
  split <;> cases t.slot? id' <;> rfl

/-- It leaves the children as they are. -/
@[simp]
lemma children_modify : (t.modify id f).children id' = t.children id' := by
  simp only [children, slot?_modify]
  by_cases h : id = id'
  · simp only [h, ↓reduceIte]
    cases t.slot? id' <;> rfl
  · simp only [h, ↓reduceIte]

/-- No node comes or goes. -/
@[simp]
lemma contains_modify : (t.modify id f).contains id' = t.contains id' := by
  simp only [contains, slot?_modify]
  split <;> simp

end Modify

/-! ### New nodes -/

section Insert

variable (t) (node : ViewNode H) (id : NodeId)

/-- Inserting a node leaves the parents as they are. -/
@[simp]
lemma parent?_insert : (t.insert node).2.parent? id = t.parent? id := by
  simp only [parent?, slot?_insert]
  split
  · next h => rw [h, slot?_fst_insert]; rfl
  · rfl

/-- It leaves the children as they are. -/
@[simp]
lemma children_insert : (t.insert node).2.children id = t.children id := by
  simp only [children, slot?_insert]
  by_cases h : id = (t.insert node).1
  · simp only [h, ↓reduceIte, slot?_fst_insert]
  · simp only [h, ↓reduceIte]

/-- The new node is there, as are those that were before. -/
lemma contains_insert :
    (t.insert node).2.contains id = (decide (id = (t.insert node).1) || t.contains id) := by
  simp only [contains, slot?_insert]
  split
  · next h => simp [h]
  · next h => simp [h]

/-- A new node is none of the living ones. -/
lemma contains_fst_insert : t.contains (t.insert node).1 = false := by
  simp [contains, slot?_fst_insert]

end Insert

/-! ### Taking a node from below another -/

section Detach

variable (t) (id id' : NodeId)

/-- What detaching a node does to the slots: its own one loses the parent, and that of its parent loses
the child. -/
lemma slot?_detach :
    (t.detach id).slot? id' = (t.slot? id').map fun s =>
      { s with
        attachment := if id = id' then none else s.attachment
        children := if t.parent? id = some id' then s.children.filter (· ≠ id)
          else s.children } := by
  unfold detach
  cases hp : t.parent? id with
  | none =>
    cases hs : t.slot? id' with
    | none => rfl
    | some s =>
      have ha : id = id' → s.attachment = none := by
        rintro rfl
        simpa [parent?_of_slot? hs] using hp
      by_cases h : id = id'
      · simp [h, ← ha h]
      · simp [h]
  | some p =>
    simp only [slot?_modifySlot, Option.some.injEq]
    cases hs : t.slot? id' with
    | none => simp
    | some s => by_cases h : id = id' <;> by_cases hq : p = id' <;> simp [h, hq]

/-- Detaching a node leaves the views as they are. -/
@[simp]
lemma get?_detach : (t.detach id).get? id' = t.get? id' := by
  simp only [get?, slot?_detach]
  cases t.slot? id' <;> rfl

/-- No node comes or goes. -/
@[simp]
lemma contains_detach : (t.detach id).contains id' = t.contains id' := by
  simp only [contains, slot?_detach, Option.isSome_map]

/-- The detached node has no parent, and the others keep theirs. -/
theorem parent?_detach :
    (t.detach id).parent? id' = if id = id' then none else t.parent? id' := by
  simp only [parent?, slot?_detach]
  cases t.slot? id' with
  | none => simp
  | some s => by_cases h : id = id' <;> simp [h]

/-- It is taken out of its parent's children. -/
theorem children_detach :
    (t.detach id).children id' = if t.parent? id = some id' then (t.children id').filter (· ≠ id)
      else t.children id' := by
  simp only [children, slot?_detach]
  cases t.slot? id' <;> simp

/-- It is arranged no longer. -/
lemma isArranged_detach :
    (t.detach id).isArranged id' = (decide (id ≠ id') && t.isArranged id') := by
  simp only [isArranged, slot?_detach]
  cases t.slot? id' with
  | none => simp
  | some s => by_cases h : id = id' <;> simp [h]

/-- No slot is added. -/
@[simp]
lemma size_slots_detach : (t.detach id).slots.size = t.slots.size := by
  unfold detach
  split
  · rw [size_slots_modifySlot, size_slots_modifySlot]
  · rfl

end Detach

/-! ### Putting a node below another -/

section Attach

variable {id parent : NodeId} {arranged : Bool}

/-- A node can be attached to another one that is there and is neither the node itself nor below it. -/
lemma canAttach_iff :
    t.canAttach id parent = true ↔
      t.contains id = true ∧ t.contains parent = true ∧ id ≠ parent ∧ id ∉ t.ancestors parent := by
  simp [canAttach, and_assoc]

/-- It is said whether the node went below the other. -/
lemma attach_fst (t : ViewTree H) (id parent : NodeId) (arranged : Bool) :
    (t.attach id parent arranged).1 = t.canAttach id parent := by
  unfold attach
  split
  · next h => exact h.symm
  · next h => simpa using h

/-- A node is put below another exactly if it may go there. -/
lemma isSome_attach? (t : ViewTree H) (id parent : NodeId) (arranged : Bool) :
    (t.attach? id parent arranged).isSome = t.canAttach id parent := by
  rw [← attach_fst t id parent arranged, attach?]
  split
  · next h => rw [h]; rfl
  · next h => simpa using h

/-- The tree is the changed one if the node went, and else it stays. -/
lemma attach_snd (t : ViewTree H) (id parent : NodeId) (arranged : Bool) :
    (t.attach id parent arranged).2 = (t.attach? id parent arranged).getD t := by
  unfold attach? attach
  split <;> rfl

/-- What the tree is once a node was put below another. -/
lemma eq_put_of_attach? (h : t.attach? id parent arranged = some t') :
    t' = t.put id parent arranged := by
  unfold attach? attach at h
  by_cases hc : t.canAttach id parent = true
  · rw [if_pos hc] at h
    exact (Option.some.inj h).symm
  · rw [if_neg hc] at h
    cases h

/-- What was attached could be attached. -/
lemma canAttach_of_attach? (h : t.attach? id parent arranged = some t') :
    t.canAttach id parent = true := by
  rw [← isSome_attach? t id parent arranged, h]
  rfl

/-- What becomes of the slots when a node is put below another. -/
theorem slot?_attach? (h : t.attach? id parent arranged = some t') (id' : NodeId) :
    t'.slot? id' = ((t.detach id).slot? id').map fun s =>
      { s with
        attachment := if id = id' then some ⟨parent, arranged⟩ else s.attachment
        children := if parent = id' then s.children ++ [id] else s.children } := by
  rw [eq_put_of_attach? h, put]
  simp only [slot?_modifySlot]
  cases (t.detach id).slot? id' with
  | none => simp
  | some s => by_cases h : id = id' <;> by_cases hq : parent = id' <;> simp [h, hq]

/-- Attaching adds no slot. -/
lemma size_slots_attach? (h : t.attach? id parent arranged = some t') :
    t'.slots.size = t.slots.size := by
  rw [eq_put_of_attach? h, put]
  simp

/-- Attaching a node leaves the views as they are. -/
lemma get?_attach? (h : t.attach? id parent arranged = some t') (id' : NodeId) :
    t'.get? id' = t.get? id' := by
  rw [← get?_detach t id id', get?, get?, slot?_attach? h]
  cases (t.detach id).slot? id' <;> rfl

/-- No node comes or goes. -/
lemma contains_attach? (h : t.attach? id parent arranged = some t') (id' : NodeId) :
    t'.contains id' = t.contains id' := by
  rw [← contains_detach t id id', contains, contains, slot?_attach? h, Option.isSome_map]

/-- The attached node has the new parent, and the others keep theirs. -/
lemma parent?_attach? (h : t.attach? id parent arranged = some t') (id' : NodeId) :
    t'.parent? id' = if id = id' then some parent else t.parent? id' := by
  have hc := (canAttach_iff.1 (canAttach_of_attach? h)).1
  simp only [parent?, slot?_attach? h, slot?_detach]
  cases hs : t.slot? id' with
  | none =>
    have hne : id ≠ id' := fun he => by simp [contains, he, hs] at hc
    simp [hne]
  | some s => by_cases he : id = id' <;> simp [he]

/-- It is the last child of the new parent, and the other children are those that detaching leaves. -/
lemma children_attach? (h : t.attach? id parent arranged = some t') (id' : NodeId) :
    t'.children id' = (t.detach id).children id' ++ if parent = id' then [id] else [] := by
  have hc := (canAttach_iff.1 (canAttach_of_attach? h)).2.1
  simp only [children, slot?_attach? h]
  cases hs : (t.detach id).slot? id' with
  | none =>
    have hne : parent ≠ id' := fun he => by
      rw [← contains_detach t id, he, contains, hs] at hc
      cases hc
    simp [hne]
  | some s => by_cases he : parent = id' <;> simp [he]

/-- It is arranged as it was asked for, and the others are as before. -/
lemma isArranged_attach? (h : t.attach? id parent arranged = some t') (id' : NodeId) :
    t'.isArranged id' = if id = id' then arranged else t.isArranged id' := by
  have hc := (canAttach_iff.1 (canAttach_of_attach? h)).1
  simp only [isArranged, slot?_attach? h, slot?_detach]
  cases hs : t.slot? id' with
  | none =>
    have hne : id ≠ id' := fun he => by simp [contains, he, hs] at hc
    simp [hne]
  | some s => by_cases he : id = id' <;> simp [he]

end Attach

/-! ### Removing a node with all below it -/

/-- A vacated node has no children, and the others keep theirs. -/
lemma children_vacate (t : ViewTree H) (id id' : NodeId) :
    (t.vacate id).children id' = if id = id' then [] else t.children id' := by
  simp only [children, slot?_vacate]
  by_cases h : id = id' <;> simp only [h, ↓reduceIte]

/-- Removing a node detaches it and then empties its subtree. -/
lemma remove_of_contains {id : NodeId} (h : t.contains id = true) :
    t.remove id = (t.detach id).removeQueue id none [id] := if_pos h

/-- Removing a node that is not there removes nothing. -/
lemma remove_of_not_contains {id : NodeId} (h : t.contains id = false) :
    t.remove id = (none, t) := if_neg (by simp [h])

/-- Emptying slots changes none that is left. -/
theorem slot?_of_slot?_removeQueue {id x : NodeId} {removed : Option (ViewNode H)}
    {queue : List NodeId} {s : Slot H} (h : (t.removeQueue id removed queue).2.slot? x = some s) :
    t.slot? x = some s := by
  fun_induction removeQueue id t removed queue with
  | case1 => exact h
  | case2 _ _ _ _ _ _ ih =>
    have := ih h
    rw [slot?_vacate] at this
    split at this
    · cases this
    · exact this
  | case3 _ _ _ _ _ ih => exact ih h

/-- Emptying a subtree adds no slot. -/
lemma size_slots_removeQueue (t : ViewTree H) (id : NodeId) (removed : Option (ViewNode H))
    (queue : List NodeId) : (t.removeQueue id removed queue).2.slots.size = t.slots.size := by
  fun_induction removeQueue id t removed queue with
  | case1 => rfl
  | case2 _ _ _ _ _ _ ih => exact ih.trans (by simp [vacate])
  | case3 _ _ _ _ _ ih => exact ih

end ViewMarkup.ViewTree
