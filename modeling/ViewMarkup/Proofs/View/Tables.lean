import ViewMarkup.Proofs.View.Edits
import ViewMarkup.Table

/-!
# A tree as three tables

A tree can also be kept in three tables: of the nodes, each with the mark whether it is lined up, of
the lists of the nodes below, and of the nodes above. Nothing in the form of the tables ties them to
each other: a node may be marked as lined up with nothing above it, or have no list, or be listed by
a node that is not above it. It is what the operations write into them that keeps them together, and
this module shows that it makes them tell the same as a tree of slots.

## Main definitions

* `ViewTables`, with `insert`, `insertChild`, `attach`, `detach`, `remove` and `edit`.
* `ViewTables.Represents` — three tables tell what the slots of a tree tell.

## Main statements

* `ViewTables.Represents.insert`, `ViewTables.Represents.insertChild`,
  `ViewTables.Represents.attach`, `ViewTables.Represents.detach`, `ViewTables.Represents.remove` —
  each operation of the tables does what that of the tree does, and hands back the same.
* `ViewTables.represents_edits` — tables and tree tell the same after the same edits.
* `ViewTables.linked_edits` — how the tables fit together after any edits.

## Design

The operations are written as they change the tables, one after the other, and not by way of a
tree. Looking for the nodes above one takes at most as many steps as nodes were ever made; that this
is enough follows from the representation.
-/

namespace ViewMarkup

/-- A node and whether the one above it lines it up. -/
structure TableNode (H : Type) where
  /-- The node. -/
  node : ViewNode H
  /-- Whether it is lined up. -/
  arranged : Bool := false

/-- A tree as three tables. -/
structure ViewTables (H : Type) where
  /-- The living nodes. -/
  nodes : Table NodeId (TableNode H) := {}
  /-- The nodes below each node, in order. -/
  children : Table NodeId (List NodeId) := {}
  /-- The node above each node that has one. -/
  parents : Table NodeId NodeId := {}
  /-- How many nodes were ever made. -/
  issued : Nat := 0

namespace ViewTables

variable {H : Type} {T : ViewTables H} {t : ViewTree H}

/-! ### The operations -/

/-- Whether a node is alive. -/
def contains (T : ViewTables H) (id : NodeId) : Bool := T.nodes.contains id

/-- The nodes below a node, in order; none if it has no list. -/
def below (T : ViewTables H) (id : NodeId) : List NodeId := (T.children.get? id).getD []

/-- The nodes above a node, at most `n` of them. -/
def ancestorsWithin (T : ViewTables H) : Nat → NodeId → List NodeId
  | 0, _ => []
  | n + 1, id =>
      match T.parents.get? id with
      | some p => p :: ancestorsWithin T n p
      | none => []

/-- The nodes above a node, from the one directly above to the topmost. -/
def ancestors (T : ViewTables H) (id : NodeId) : List NodeId := T.ancestorsWithin T.issued id

/-- The tables with a new node that stands by itself, and the identity of that node. -/
def insert (T : ViewTables H) (node : ViewNode H) : NodeId × ViewTables H :=
  (⟨T.issued⟩,
    { T with
      nodes := T.nodes.insert ⟨T.issued⟩ { node }
      children := T.children.insert ⟨T.issued⟩ []
      issued := T.issued + 1 })

/-- The tables with the link of a node to the one above it taken out of both. -/
def unlink (T : ViewTables H) (id : NodeId) : ViewTables H :=
  match T.parents.get? id with
  | some p =>
      { T with
        parents := T.parents.erase id
        children := T.children.modify p (·.filter (· ≠ id)) }
  | none => T

/-- Unlinking leaves the table of nodes as it is. -/
@[simp]
lemma nodes_unlink (T : ViewTables H) (id : NodeId) : (T.unlink id).nodes = T.nodes := by
  unfold unlink
  split <;> rfl

/-- It issues nothing. -/
@[simp]
lemma issued_unlink (T : ViewTables H) (id : NodeId) : (T.unlink id).issued = T.issued := by
  unfold unlink
  split <;> rfl

/-- It takes the node out of its parent's entry. -/
lemma get?_children_unlink (T : ViewTables H) (id id' : NodeId) :
    (T.unlink id).children.get? id' =
      if T.parents.get? id = some id' then (T.children.get? id').map (·.filter (· ≠ id))
      else T.children.get? id' := by
  unfold unlink
  cases T.parents.get? id with
  | none => simp
  | some p => simp [Table.get?_modify]

/-- It takes away the parent of the node itself. -/
lemma get?_parents_unlink (T : ViewTables H) (id id' : NodeId) :
    (T.unlink id).parents.get? id' = if id = id' then none else T.parents.get? id' := by
  unfold unlink
  split
  · exact Table.get?_erase T.parents id id'
  · next h =>
    split
    · next he => rw [← he]; exact h
    · rfl

/-- The tables with a node marked as lined up or not. -/
def mark (T : ViewTables H) (id : NodeId) (arranged : Bool) : ViewTables H :=
  { T with nodes := T.nodes.modify id fun n => { n with arranged } }

/-- The tables with a node taken from below the one above it. -/
def detach (T : ViewTables H) (id : NodeId) : ViewTables H := (T.unlink id).mark id false

/-- The tables with a node listed as the last one below another. -/
def link (T : ViewTables H) (id parent : NodeId) : ViewTables H :=
  { T with
    parents := T.parents.insert id parent
    children := T.children.modify parent (· ++ [id]) }

/-- Whether a node may go below another: both are alive, and the first is neither the second nor
above it. -/
def canAttach (T : ViewTables H) (id parent : NodeId) : Bool :=
  T.contains id && T.contains parent && id ≠ parent && !(T.ancestors parent).contains id

/-- Whether a node may go below another, and the tables with the node made the last one there; they
stay as they are if the node may not. -/
def attach (T : ViewTables H) (id parent : NodeId) (arranged : Bool) : Bool × ViewTables H :=
  if T.canAttach id parent then (true, ((T.detach id).link id parent).mark id arranged)
  else (false, T)

/-- The tables with a new node as the last one below another, and the identity of that node, if the
other one is alive. -/
def insertChild (T : ViewTables H) (parent : NodeId) (node : ViewNode H) :
    Option NodeId × ViewTables H :=
  if T.contains parent then
    (some (T.insert node).1, ((T.insert node).2.attach (T.insert node).1 parent false).2)
  else (none, T)

/-- The tables without what they hold of a node. -/
def clear (T : ViewTables H) (id : NodeId) : ViewTables H :=
  { T with
    children := T.children.erase id
    parents := T.parents.erase id
    nodes := T.nodes.erase id }

/-- What is handed back of `id` once a node has been taken from a queue: what the tables held of the
node, if it is the same one, and else what was to be handed back before. -/
def handBack (T : ViewTables H) (id taken : NodeId) (removed : Option (TableNode H)) :
    Option (TableNode H) :=
  if taken = id then T.nodes.get? taken else removed

/-- Taking out the list of a node leaves fewer lists. -/
lemma size_children_clear {id : NodeId} {kids : List NodeId}
    (h : T.children.get? id = some kids) : (T.clear id).children.size < T.children.size := by
  obtain ⟨e, he, -⟩ := Option.map_eq_some_iff.1 h
  refine List.length_filter_lt_length_iff_exists.2 ⟨e, List.mem_of_find?_eq_some he, ?_⟩
  simpa using List.find?_some he

/-- Taking out a node that has no list leaves the lists. -/
lemma size_children_clear_of_none {id : NodeId} (h : T.children.get? id = none) :
    (T.clear id).children.size = T.children.size := by
  refine congrArg List.length (List.filter_eq_self.2 fun e he => ?_)
  have := List.find?_eq_none.1 (Option.map_eq_none_iff.1 h) e he
  simpa using this

/-- Takes nodes from a queue and takes them out of the tables; what is below each comes to the end
of the queue. The node `id` is handed back as it was when it was last taken. -/
def removeQueue (id : NodeId) (T : ViewTables H) (removed : Option (TableNode H)) :
    List NodeId → Option (TableNode H) × ViewTables H
  | [] => (removed, T)
  | next :: queue =>
      match _h : T.children.get? next with
      | some kids =>
          removeQueue id (T.clear next) (T.handBack id next removed) (queue ++ kids)
      | none => removeQueue id (T.clear next) (T.handBack id next removed) queue
termination_by queue => (T.children.size, queue.length)
decreasing_by
  · exact Prod.Lex.left _ _ (size_children_clear _h)
  · rw [size_children_clear_of_none _h]
    exact Prod.Lex.right _ (Nat.lt_succ_self _)

/-- The tables without a node and all below it, and the node removed. -/
def remove (T : ViewTables H) (id : NodeId) : Option (TableNode H) × ViewTables H :=
  if T.contains id then (T.detach id).removeQueue id none [id] else (none, T)

/-- The tables after a change. One that is refused leaves them as they are. -/
def edit (T : ViewTables H) : TreeEdit H → ViewTables H
  | .insert node => (T.insert node).2
  | .insertChild parent node => (T.insertChild parent node).2
  | .attach id parent arranged => (T.attach id parent arranged).2
  | .detach id => T.detach id
  | .remove id => (T.remove id).2

/-! ### What the tables tell -/

/-- The entry of a slot in the table of the nodes. -/
def entry (s : Slot H) : TableNode H := ⟨s.node, s.attachment.any (·.arranged)⟩

/-- Three tables tell what the slots of a tree tell. -/
structure Represents (T : ViewTables H) (t : ViewTree H) : Prop where
  /-- The same nodes are alive, hold the same and are lined up alike. -/
  nodes : ∀ id, T.nodes.get? id = (t.slot? id).map entry
  /-- The living nodes have a list, and list the same nodes. -/
  children : ∀ id, T.children.get? id = (t.slot? id).map (·.children)
  /-- The same nodes are above them. -/
  parents : ∀ id, T.parents.get? id = t.parent? id
  /-- As many nodes were made. -/
  issued : T.issued = t.slots.size

namespace Represents

/-- The tables hold the nodes of the tree. -/
lemma contains (R : T.Represents t) (id : NodeId) : T.contains id = t.contains id := by
  rw [ViewTables.contains, Table.contains, R.nodes, Option.isSome_map, ViewTree.contains]

/-- They hold their children. -/
lemma below (R : T.Represents t) (id : NodeId) : T.below id = t.children id := by
  rw [ViewTables.below, R.children]
  cases hs : t.slot? id with
  | none => simp [ViewTree.children, hs]
  | some s => simp [ViewTree.children_of_slot? hs]

/-- They give the same ancestors. -/
lemma ancestorsWithin (R : T.Represents t) (n : Nat) (id : NodeId) :
    T.ancestorsWithin n id = t.ancestorsWithin n id := by
  induction n generalizing id with
  | zero => rfl
  | succ n ih =>
    rw [ViewTables.ancestorsWithin, ViewTree.ancestorsWithin, R.parents]
    cases t.parent? id with
    | none => rfl
    | some p => exact congrArg (p :: ·) (ih p)

/-- Going up through the tables meets the same nodes. -/
lemma ancestors (R : T.Represents t) (id : NodeId) : T.ancestors id = t.ancestors id := by
  rw [ViewTables.ancestors, ViewTree.ancestors, R.issued, R.ancestorsWithin]

/-- The tables allow the same attachments. -/
lemma canAttach (R : T.Represents t) (id parent : NodeId) :
    T.canAttach id parent = t.canAttach id parent := by
  rw [ViewTables.canAttach, ViewTree.canAttach, R.contains, R.contains, R.ancestors]

/-! ### What the operations do -/

/-- Empty tables represent the empty tree. -/
lemma empty : Represents ({} : ViewTables H) {} where
  nodes _ := rfl
  children _ := rfl
  parents _ := rfl
  issued := rfl

/-- **A new node** gets the same identity. -/
theorem insert (R : T.Represents t) (node : ViewNode H) :
    (T.insert node).1 = (t.insert node).1 ∧ Represents (T.insert node).2 (t.insert node).2 := by
  have hid : (T.insert node).1 = (t.insert node).1 := congrArg NodeId.mk R.issued
  refine ⟨hid, fun id => ?_, fun id => ?_, fun id => ?_, ?_⟩
  · rw [ViewTables.insert] at hid ⊢
    rw [Table.get?_insert, ViewTree.slot?_insert, ← hid, R.nodes]
    simp only [eq_comm (a := id)]
    split <;> rfl
  · rw [ViewTables.insert] at hid ⊢
    rw [Table.get?_insert, ViewTree.slot?_insert, ← hid, R.children]
    simp only [eq_comm (a := id)]
    split <;> rfl
  · rw [ViewTree.parent?_insert]
    exact R.parents id
  · simp [ViewTables.insert, ViewTree.insert, R.issued]

/-- **A node is taken from below another.** Where nothing is above it there is no link to take out,
and the mark that is taken off was not there. -/
theorem detach (R : T.Represents t) (id : NodeId) : Represents (T.detach id) (t.detach id) := by
  refine ⟨fun id' => ?_, fun id' => ?_, fun id' => ?_, ?_⟩
  · rw [ViewTables.detach, mark, Table.get?_modify, nodes_unlink, R.nodes, ViewTree.slot?_detach]
    cases t.slot? id' with
    | none => simp
    | some s => by_cases he : id = id' <;> simp [he, entry]
  · rw [ViewTables.detach, mark, get?_children_unlink, R.children, R.parents,
      ViewTree.slot?_detach]
    cases t.slot? id' with
    | none => simp
    | some s => by_cases hp : t.parent? id = some id' <;> simp [hp]
  · rw [ViewTables.detach, mark, get?_parents_unlink, R.parents, ViewTree.parent?_detach]
  · rw [ViewTables.detach, mark, issued_unlink, R.issued, ViewTree.size_slots_detach]

/-- **A node is put below another**, or may not be put there, in the tables as in the tree. -/
theorem attach (R : T.Represents t) (id parent : NodeId) (arranged : Bool) :
    (T.attach id parent arranged).1 = (t.attach id parent arranged).1 ∧
      Represents (T.attach id parent arranged).2 (t.attach id parent arranged).2 := by
  unfold ViewTables.attach
  rw [R.canAttach]
  cases hc : t.canAttach id parent with
  | false =>
    rw [ViewTree.attach, hc]
    exact ⟨rfl, R⟩
  | true =>
    obtain ⟨t', ht'⟩ :=
      Option.isSome_iff_exists.1 ((ViewTree.isSome_attach? t id parent arranged).trans hc)
    have R' := R.detach id
    refine ⟨(ViewTree.attach_fst t id parent arranged).trans hc |>.symm, ?_⟩
    rw [ViewTree.attach_snd, ht', Option.getD_some]
    refine ⟨fun id' => ?_, fun id' => ?_, fun id' => ?_, ?_⟩
    · rw [if_pos rfl, mark, Table.get?_modify, link, R'.nodes, ViewTree.slot?_attach? ht']
      cases (t.detach id).slot? id' with
      | none => simp
      | some s => by_cases he : id = id' <;> simp [he, entry]
    · rw [if_pos rfl, mark, link, Table.get?_modify, R'.children, ViewTree.slot?_attach? ht']
      cases (t.detach id).slot? id' with
      | none => simp
      | some s => by_cases he : parent = id' <;> simp [he]
    · rw [if_pos rfl, mark, link, Table.get?_insert, R'.parents, ViewTree.parent?_attach? ht',
        ViewTree.parent?_detach]
      by_cases he : id = id' <;> simp [he]
    · rw [if_pos rfl, mark, link, R'.issued, ViewTree.size_slots_detach]
      exact (ViewTree.size_slots_attach? ht').symm

/-- **A new node below another** gets the same identity, or none. -/
theorem insertChild (R : T.Represents t) (parent : NodeId) (node : ViewNode H) :
    (T.insertChild parent node).1 = (t.insertChild? parent node).map (·.1) ∧
      Represents (T.insertChild parent node).2 (t.edit (.insertChild parent node)) := by
  obtain ⟨hid, R'⟩ := R.insert node
  rw [ViewTables.insertChild, ViewTree.edit, ViewTree.insertChild?, R.contains, hid]
  split
  · exact ⟨rfl, (R'.attach _ _ _).2⟩
  · exact ⟨rfl, R⟩

/-- Taking a node out of the tables empties its slot. -/
lemma clear (R : T.Represents t) (id : NodeId) : Represents (T.clear id) (t.vacate id) where
  nodes id' := by
    rw [ViewTables.clear, Table.get?_erase, ViewTree.slot?_vacate, R.nodes]
    split <;> rfl
  children id' := by
    rw [ViewTables.clear, Table.get?_erase, ViewTree.slot?_vacate, R.children]
    split <;> rfl
  parents id' := by
    rw [ViewTables.clear, Table.get?_erase, R.parents, ViewTree.parent?, ViewTree.parent?,
      ViewTree.slot?_vacate]
    split <;> rfl
  issued := by simp [ViewTables.clear, ViewTree.vacate, R.issued]

/-- Of a node that is not alive there is nothing to take out. -/
lemma clear_of_eq_none (R : T.Represents t) {id : NodeId} (h : t.slot? id = none) :
    Represents (T.clear id) t := by
  have hslot : ∀ id', (t.vacate id).slot? id' = t.slot? id' := fun id' => by
    rw [ViewTree.slot?_vacate]
    split
    · next he => rw [← he, h]
    · rfl
  have R' := R.clear id
  exact
    { nodes := fun id' => hslot id' ▸ R'.nodes id'
      children := fun id' => hslot id' ▸ R'.children id'
      parents := fun id' => (R'.parents id').trans (ViewTree.parent?_congr (hslot id'))
      issued := R'.issued.trans (by simp [ViewTree.vacate]) }

/-- **The queue** takes the same nodes from the tables as from the tree, and hands back the same
one.

**Proof sketch.** By the recursion of the queue of the tree: a living node has a list, so both put
the same nodes to the end; one that is not alive has none, and taking it out changes nothing. -/
theorem removeQueue (R : T.Represents t) (id : NodeId) (removed : Option (TableNode H))
    (queue : List NodeId) :
    (T.removeQueue id removed queue).1.map (·.node) =
        (t.removeQueue id (removed.map (·.node)) queue).1 ∧
      Represents (T.removeQueue id removed queue).2
        (t.removeQueue id (removed.map (·.node)) queue).2 := by
  generalize hr : removed.map (·.node) = removed'
  fun_induction ViewTree.removeQueue id t removed' queue generalizing T removed with
  | case1 =>
    rw [ViewTables.removeQueue]
    exact ⟨hr, R⟩
  | case2 t removed' next queue s hs ih =>
    have hback : (T.handBack id next removed).map (·.node) =
        ViewTree.handBack id next (some s.node) removed' := by
      rw [ViewTables.handBack, ViewTree.handBack, R.nodes, hs, ← hr]
      split <;> rfl
    rw [ViewTables.removeQueue]
    split
    · next kids hk =>
      rw [R.children, hs] at hk
      cases hk
      exact ih (R.clear next) _ hback
    · next hk =>
      rw [R.children, hs] at hk
      cases hk
  | case3 t removed' next queue hs ih =>
    have hback : (T.handBack id next removed).map (·.node) =
        ViewTree.handBack id next none removed' := by
      rw [ViewTables.handBack, ViewTree.handBack, R.nodes, hs, ← hr]
      split <;> rfl
    rw [ViewTables.removeQueue]
    split
    · next kids hk =>
      rw [R.children, hs] at hk
      cases hk
    · exact ih (R.clear_of_eq_none hs) _ hback

/-- **A node is removed** with all below it from both, and handed back by both. -/
theorem remove (R : T.Represents t) (id : NodeId) :
    (T.remove id).1.map (·.node) = (t.remove id).1 ∧
      Represents (T.remove id).2 (t.remove id).2 := by
  rw [ViewTables.remove, ViewTree.remove, R.contains]
  split
  · exact (R.detach id).removeQueue id none [id]
  · exact ⟨rfl, R⟩

/-- Tables that tell the same as a tree do so after a change. -/
lemma edit (R : T.Represents t) (e : TreeEdit H) : Represents (T.edit e) (t.edit e) := by
  cases e with
  | insert node => exact (R.insert node).2
  | insertChild parent node => exact (R.insertChild parent node).2
  | attach id parent arranged => exact (R.attach id parent arranged).2
  | detach id => exact R.detach id
  | remove id => exact (R.remove id).2

end Represents

/-- **Tables and tree tell the same after the same edits.** -/
theorem represents_edits (es : List (TreeEdit H)) :
    Represents (es.foldl edit {}) (es.foldl ViewTree.edit {}) := by
  have go : ∀ {T : ViewTables H} {t : ViewTree H}, T.Represents t →
      Represents (es.foldl edit T) (es.foldl ViewTree.edit t) := by
    induction es with
    | nil => exact id
    | cons e es ih => exact fun R => ih (R.edit e)
  exact go .empty

/-- **How the tables fit together after any edits.** The living nodes are those that have a list; a
node is listed once by the node that the tables have above it and by no other, and both are alive;
nobody is met on the way up from itself; a node with nothing above it is not marked as lined up; and
going up ends.

**Proof sketch.** The tables represent a forest. That they do is an invariant of the operations
(`represents_edits`), and a forest is what the tree of slots is (`ViewTree.Forest.edits`). -/
theorem linked_edits (es : List (TreeEdit H)) :
    let T := es.foldl edit ({} : ViewTables H)
    (∀ id, T.contains id = (T.children.get? id).isSome) ∧
    (∀ c p, (T.below p).count c = if T.parents.get? c = some p then 1 else 0) ∧
    (∀ c p, T.parents.get? c = some p → T.contains c = true ∧ T.contains p = true) ∧
    (∀ id, id ∉ T.ancestors id) ∧
    (∀ id n, T.parents.get? id = none → T.nodes.get? id = some n → n.arranged = false) ∧
    (∀ id, T.ancestors id = ((T.parents.get? id).map fun p => p :: T.ancestors p).getD []) := by
  intro T
  have R := represents_edits es
  have F := ViewTree.Forest.empty.edits es
  refine ⟨fun id => ?_, fun c p => ?_, fun c p h => ?_, fun id => ?_, fun id n h hn => ?_,
    fun id => ?_⟩
  · rw [contains, Table.contains, R.nodes, R.children, Option.isSome_map, Option.isSome_map]
  · rw [R.below, R.parents]
    exact F.count_children c p
  · rw [R.contains, R.contains]
    rw [R.parents] at h
    exact ⟨ViewTree.contains_of_parent? h, F.contains_parent h⟩
  · rw [R.ancestors, F.mem_ancestors_iff]
    exact F.acyclic id
  · rw [R.parents] at h
    rw [R.nodes] at hn
    obtain ⟨s, hs, rfl⟩ := Option.map_eq_some_iff.1 hn
    exact (ViewTree.isArranged_of_slot? hs).symm.trans (ViewTree.isArranged_of_parent?_eq_none h)
  · rw [R.parents, R.ancestors]
    cases hp : (es.foldl ViewTree.edit {}).parent? id with
    | none =>
      rw [Option.map_none, Option.getD_none]
      exact ViewTree.Forest.climbs_unique (F.climbs id) (.top hp)
    | some p =>
      rw [Option.map_some, Option.getD_some, R.ancestors]
      exact F.ancestors_eq hp

end ViewTables

end ViewMarkup
