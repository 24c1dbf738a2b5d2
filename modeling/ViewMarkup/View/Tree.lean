import ViewMarkup.View.Basic

/-!
# The live tree

Nodes live in numbered slots. A node may hang below another one, as the last of its children at the
time, or stand by itself. A removed node leaves its slot empty for ever, so an identity never comes
to mean another node.

## Main definitions

* `ViewTree`, with `insert`, `insertChild?`, `attach`, `detach`, `remove`.
* `ViewTree.ancestors`, `ViewTree.walk`, `ViewTree.descendants`, `ViewTree.findNamed?`.

## Main statements

* `ViewTree.slot?_modifySlot`, `ViewTree.slot?_insert`, `ViewTree.slot?_vacate` — what every change
  does to the slot of a node.
-/

namespace ViewMarkup

/-- The place of a node below another. -/
structure Attachment where
  /-- The node above. -/
  parent : NodeId
  /-- Whether the node above lines this one up. -/
  arranged : Bool
deriving Repr, DecidableEq

/-- A node with its place in the tree. -/
structure Slot (H : Type) where
  /-- The node. -/
  node : ViewNode H
  /-- Its place below another node, if it has one. -/
  attachment : Option Attachment := none
  /-- The nodes below it, in order. -/
  children : List NodeId := []
deriving Repr, BEq

/-- A forest of live nodes. -/
structure ViewTree (H : Type) where
  /-- The slots, by the numbers of their identities; empty where a node was removed. -/
  slots : Array (Option (Slot H)) := #[]
deriving Repr, BEq

namespace ViewTree

variable {H : Type}

/-- The slot of a living node. -/
def slot? (t : ViewTree H) (id : NodeId) : Option (Slot H) := (t.slots[id.index]?).join

/-- A living node. -/
def get? (t : ViewTree H) (id : NodeId) : Option (ViewNode H) := (t.slot? id).map (·.node)

/-- Whether a node is alive. -/
def contains (t : ViewTree H) (id : NodeId) : Bool := (t.slot? id).isSome

/-- The number of living nodes. -/
def size (t : ViewTree H) : Nat := t.slots.toList.countP (·.isSome)

/-- The node above a node. -/
def parent? (t : ViewTree H) (id : NodeId) : Option NodeId :=
  (t.slot? id).bind fun s => s.attachment.map (·.parent)

/-- Whether a node is lined up by the one above it. -/
def isArranged (t : ViewTree H) (id : NodeId) : Bool :=
  (t.slot? id).any fun s => s.attachment.any (·.arranged)

/-- The nodes below a node, in order; none if it is not alive. -/
def children (t : ViewTree H) (id : NodeId) : List NodeId :=
  match t.slot? id with
  | some s => s.children
  | none => []

/-- The tree with the slot of a living node changed. -/
def modifySlot (t : ViewTree H) (id : NodeId) (f : Slot H → Slot H) : ViewTree H :=
  match t.slot? id with
  | some s => ⟨t.slots.setIfInBounds id.index (some (f s))⟩
  | none => t

/-- What changing a slot does to the slot of a node. -/
@[simp]
theorem slot?_modifySlot (t : ViewTree H) (id id' : NodeId) (f : Slot H → Slot H) :
    (t.modifySlot id f).slot? id' = if id = id' then (t.slot? id').map f else t.slot? id' := by
  unfold modifySlot
  split
  · next s hs =>
      have hlt : id.index < t.slots.size := by
        simp only [slot?, Option.join_eq_some_iff] at hs
        exact (Array.getElem?_eq_some_iff.1 hs).1
      by_cases h : id = id'
      · subst h
        rw [if_pos rfl, hs]
        simp [slot?, hlt]
      · have hi : id.index ≠ id'.index := fun hi => h (by cases id; cases id'; simp_all)
        simp [slot?, hi, h]
  · next hs =>
      split
      · next h => rw [← h, hs]; rfl
      · rfl

/-- The tree with a living node changed. -/
def modify (t : ViewTree H) (id : NodeId) (f : ViewNode H → ViewNode H) : ViewTree H :=
  t.modifySlot id fun s => { s with node := f s.node }

/-- The tree with a new node that stands by itself, and the identity of that node. -/
def insert (t : ViewTree H) (node : ViewNode H) : NodeId × ViewTree H :=
  (⟨t.slots.size⟩, ⟨t.slots.push (some { node })⟩)

/-- What inserting a node does to it. -/
@[simp]
theorem slot?_insert (t : ViewTree H) (node : ViewNode H) (id : NodeId) :
    (t.insert node).2.slot? id = if id = (t.insert node).1 then some { node } else t.slot? id := by
  by_cases h : id.index = t.slots.size
  · have : id = ⟨t.slots.size⟩ := by cases id; simp_all
    simp [slot?, insert, this]
  · have : id ≠ ⟨t.slots.size⟩ := fun hid => h (by rw [hid])
    simp [slot?, insert, Array.getElem?_push, h, this]

/-- A new node has an identity that no living node has. -/
theorem slot?_fst_insert (t : ViewTree H) (node : ViewNode H) :
    t.slot? (t.insert node).1 = none := by simp [slot?, insert]

/-- The nodes above a node, at most `n` of them. -/
def ancestorsWithin (t : ViewTree H) : Nat → NodeId → List NodeId
  | 0, _ => []
  | n + 1, id =>
      match t.parent? id with
      | some p => p :: ancestorsWithin t n p
      | none => []

/-- The nodes above a node, from the one directly above to the topmost. There are fewer of them
than slots. -/
def ancestors (t : ViewTree H) (id : NodeId) : List NodeId := t.ancestorsWithin t.slots.size id

/-- The tree with a node taken from below the one above it; what is below the node stays there. -/
def detach (t : ViewTree H) (id : NodeId) : ViewTree H :=
  match t.parent? id with
  | some p =>
      (t.modifySlot p fun s => { s with children := s.children.filter (· ≠ id) }).modifySlot id
        fun s => { s with attachment := none }
  | none => t

/-- Whether a node may go below another: both are alive, and the first is neither the second nor
above it. -/
def canAttach (t : ViewTree H) (id parent : NodeId) : Bool :=
  t.contains id && t.contains parent && id ≠ parent && !(t.ancestors parent).contains id

/-- The tree with a node taken from where it is and made the last one below another. -/
def put (t : ViewTree H) (id parent : NodeId) (arranged : Bool) : ViewTree H :=
  ((t.detach id).modifySlot parent fun s => { s with children := s.children ++ [id] }).modifySlot id
    fun s => { s with attachment := some ⟨parent, arranged⟩ }

/-- Whether a node may go below another, and the tree with the node made the last one there; it
stays as it is if the node may not. -/
def attach (t : ViewTree H) (id parent : NodeId) (arranged : Bool) : Bool × ViewTree H :=
  if t.canAttach id parent then (true, t.put id parent arranged) else (false, t)

/-- The tree with a node made the last one below another, if it may go there. -/
def attach? (t : ViewTree H) (id parent : NodeId) (arranged : Bool) : Option (ViewTree H) :=
  if (t.attach id parent arranged).1 then some (t.attach id parent arranged).2 else none

/-- The tree with a new node as the last one below another, if that one is alive. -/
def insertChild? (t : ViewTree H) (parent : NodeId) (node : ViewNode H) :
    Option (NodeId × ViewTree H) :=
  if t.contains parent then
    let (id, t) := t.insert node
    some (id, (t.attach id parent false).2)
  else none

/-- Takes nodes from a stack, each replaced by the nodes below it, and lists the living ones in the
order taken; at most `n` steps are made. -/
def walkStack (t : ViewTree H) : Nat → List NodeId → List NodeId
  | _, [] => []
  | 0, _ => []
  | n + 1, id :: stack =>
      match t.slot? id with
      | some s => id :: walkStack t n (s.children ++ stack)
      | none => walkStack t n stack

/-- A node and all below it, each before those below it. Every node is taken from the stack once,
so the steps are no more than the slots and the start. -/
def walk (t : ViewTree H) (start : NodeId) : List NodeId := t.walkStack (t.slots.size + 1) [start]

/-- All nodes below a node, each before those below it. -/
def descendants (t : ViewTree H) (start : NodeId) : List NodeId := (t.walk start).drop 1

/-- The first node below `start` with a given name. -/
def findNamed? (t : ViewTree H) (start : NodeId) (name : String) : Option NodeId :=
  (t.descendants start).find? fun id => (t.get? id).any fun n => n.name = some name

/-- The tree with a slot emptied. -/
def vacate (t : ViewTree H) (id : NodeId) : ViewTree H := ⟨t.slots.setIfInBounds id.index none⟩

/-- What vacating a node does to it. -/
@[simp]
theorem slot?_vacate (t : ViewTree H) (id id' : NodeId) :
    (t.vacate id).slot? id' = if id = id' then none else t.slot? id' := by
  by_cases h : id = id'
  · subst h
    by_cases hlt : id.index < t.slots.size
    · simp [slot?, vacate, hlt]
    · simp [slot?, vacate, Nat.le_of_not_lt hlt]
  · have hi : id.index ≠ id'.index := fun hi => h (by cases id; cases id'; simp_all)
    simp [slot?, vacate, hi, h]

/-- An emptied slot no longer counts. -/
theorem size_vacate {t : ViewTree H} {id : NodeId} {s : Slot H} (h : t.slot? id = some s) :
    (t.vacate id).size + 1 = t.size := by
  rw [slot?, Option.join_eq_some_iff, Array.getElem?_eq_some_iff] at h
  obtain ⟨hlt, h⟩ := h
  have hpos : 0 < t.slots.toList.countP (·.isSome) :=
    List.countP_pos_iff.2 ⟨some s, h ▸ Array.getElem_mem_toList hlt, rfl⟩
  rw [size, vacate, Array.toList_setIfInBounds, List.countP_set (by simpa using hlt)]
  simp only [Array.getElem_toList, h, Option.isSome_some, Option.isSome_none, ↓reduceIte,
    Bool.false_eq_true, Nat.add_zero]
  exact Nat.sub_add_cancel hpos

/-- What is handed back of `id` once a node has been taken from a queue: what was in the slot of the
node, if it is the same one, and else what was to be handed back before. -/
def handBack (id taken : NodeId) (node removed : Option (ViewNode H)) : Option (ViewNode H) :=
  if taken = id then node else removed

/-- Takes nodes from a queue and empties their slots; what is below each comes to the end of the
queue. The node `id` is handed back as it was when it was last taken. -/
def removeQueue (id : NodeId) (t : ViewTree H) (removed : Option (ViewNode H)) :
    List NodeId → Option (ViewNode H) × ViewTree H
  | [] => (removed, t)
  | next :: queue =>
      match _h : t.slot? next with
      | some s =>
          removeQueue id (t.vacate next) (handBack id next (some s.node) removed)
            (queue ++ s.children)
      | none => removeQueue id t (handBack id next none removed) queue
termination_by queue => (t.size, queue.length)
decreasing_by
  · exact Prod.Lex.left _ _ (by rw [← size_vacate _h]; exact Nat.lt_succ_self _)
  · exact Prod.Lex.right _ (Nat.lt_succ_self _)

/-- The tree without a node and all below it, and the node removed. -/
def remove (t : ViewTree H) (id : NodeId) : Option (ViewNode H) × ViewTree H :=
  if t.contains id then (t.detach id).removeQueue id none [id] else (none, t)

end ViewTree

end ViewMarkup
