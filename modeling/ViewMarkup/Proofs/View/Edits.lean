import ViewMarkup.Proofs.View.Removing

/-!
# Trees made by edits

A host may change a tree in any order and with any handles, also those of nodes that were removed or
never made. Whatever it does, the tree stays a forest.

## Main definitions

* `TreeEdit`, `ViewTree.edit` — one change of a tree.
* `ViewTree.panel` — a small tree that edits have made.

## Main statements

* `ViewTree.Forest.edit` — an edit keeps a forest.
* `ViewTree.links_after_edits` — how the nodes of an edited tree hang together.
-/

namespace ViewMarkup

/-- A change of a tree. -/
inductive TreeEdit (H : Type) where
  /-- A new node that stands by itself. -/
  | insert (node : ViewNode H)
  /-- A new node as the last one below another. -/
  | insertChild (parent : NodeId) (node : ViewNode H)
  /-- A node is put below another, as the last one. -/
  | attach (id parent : NodeId) (arranged : Bool)
  /-- A node is taken from below the one above it. -/
  | detach (id : NodeId)
  /-- A node is removed with all below it. -/
  | remove (id : NodeId)

namespace ViewTree

variable {H : Type} {t : ViewTree H}

/-- The tree after a change. One that is refused leaves it as it is. -/
def edit (t : ViewTree H) : TreeEdit H → ViewTree H
  | .insert node => (t.insert node).2
  | .insertChild parent node => ((t.insertChild? parent node).map (·.2)).getD t
  | .attach id parent arranged => (t.attach id parent arranged).2
  | .detach id => t.detach id
  | .remove id => (t.remove id).2

namespace Forest

/-- A change of place that may be refused keeps a forest. -/
lemma attach?_getD (F : Forest t) (id parent : NodeId) (arranged : Bool) :
    Forest ((t.attach? id parent arranged).getD t) := by
  cases h : t.attach? id parent arranged with
  | none => exact F
  | some t' => exact F.attach? h

/-- Attaching a node keeps a forest. -/
lemma snd_attach (F : Forest t) (id parent : NodeId) (arranged : Bool) :
    Forest (t.attach id parent arranged).2 := by
  rw [attach_snd]
  exact F.attach?_getD id parent arranged

/-- **An edit keeps a forest**, whatever its handles mean. -/
theorem edit (F : Forest t) (e : TreeEdit H) : Forest (t.edit e) := by
  cases e with
  | insert node => exact F.insert node
  | insertChild parent node =>
    simp only [ViewTree.edit, insertChild?]
    split
    · exact (F.insert node).snd_attach _ _ _
    · exact F
  | attach id parent arranged => exact F.snd_attach id parent arranged
  | detach id => exact F.detach id
  | remove id => exact F.remove id

/-- Edits keep a forest. -/
lemma edits (F : Forest t) (es : List (TreeEdit H)) : Forest (es.foldl ViewTree.edit t) := by
  induction es generalizing t with
  | nil => exact F
  | cons e es ih => exact ih (F.edit e)

/-- A node is listed once by the node above it, and by no other. -/
lemma count_children (F : Forest t) (c p : NodeId) :
    (t.children p).count c = if t.parent? c = some p then 1 else 0 := by
  split
  · next h => exact List.count_eq_one_of_mem (F.nodup_children p) ((F.mem_children_iff c p).2 h)
  · next h => exact List.count_eq_zero_of_not_mem fun hm => h ((F.mem_children_iff c p).1 hm)

end Forest

/-- **How the nodes of an edited tree hang together.** After any edits of an empty tree every living
node has its list of children; a node is listed exactly once by the node above it and by no other,
and both are alive; nobody is below itself; a node with nothing above it is not lined up; and going
up from a node and walking down from it both end.

**Proof sketch.** Each edit keeps a forest (`Forest.edit`), so the tree is one. The ways up end
because the nodes met are distinct (`Forest.climbs`), and the walks because the nodes below a node
have nothing in common (`Forest.walks`). -/
theorem links_after_edits (es : List (TreeEdit H)) :
    let t := es.foldl ViewTree.edit ({} : ViewTree H)
    (∀ id, t.contains id = true ↔ ∃ s, t.slot? id = some s ∧ s.children = t.children id) ∧
    (∀ c p, (t.children p).count c = if t.parent? c = some p then 1 else 0) ∧
    (∀ c p, t.parent? c = some p → t.contains c = true ∧ t.contains p = true) ∧
    (∀ id, ¬ t.IsBelow id id) ∧
    (∀ id, t.parent? id = none → t.isArranged id = false) ∧
    (∀ id, t.Climbs id (t.ancestors id)) ∧
    (∀ id, t.Walks [id] (t.walk id)) := by
  intro t
  have F : Forest t := Forest.empty.edits es
  refine ⟨fun id => ?_, F.count_children, fun c p h => ?_, F.acyclic,
    fun _ => isArranged_of_parent?_eq_none, F.climbs, F.walks⟩
  · rw [contains_iff]
    exact exists_congr fun s => ⟨fun hs => ⟨hs, (children_of_slot? hs).symm⟩, And.left⟩
  · exact ⟨contains_of_parent? h, F.contains_parent h⟩

/-! ### A panel with a bar of two buttons, and a caption below the bar -/

/-- The edits that make the panel: it is the first node, the bar and the caption come next, and then
the buttons of the bar. -/
def panelEdits : List (TreeEdit Empty) :=
  [.insert { element := .generic (.ofKind .container), name := some "panel" },
   .insertChild ⟨0⟩ { element := .generic (.ofKind .stackView), name := some "bar" },
   .insertChild ⟨0⟩ { element := .generic (.ofKind .label), name := some "caption" },
   .insertChild ⟨1⟩ { element := .generic (.ofKind .button), name := some "open" },
   .insertChild ⟨1⟩ { element := .generic (.ofKind .button), name := some "save" }]

/-- The panel. -/
def panel : ViewTree Empty := panelEdits.foldl ViewTree.edit {}

/-- The tree of the panel is a forest. -/
lemma forest_panel : panel.Forest := Forest.empty.edits panelEdits

end ViewTree

end ViewMarkup
