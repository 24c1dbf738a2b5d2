import ViewMarkup.Proofs.View.Edits

/-!
# A walk is the pre-order of a tree

A walk keeps a stack and knows nothing of the shape of the tree; going up follows links that a walk
does not look at. In a forest both agree with the tree that one has in mind: a node stands before all
nodes below it, those below one node come in their order, each with all that is below it, and a node
is met on the way down from another exactly if that one is met on the way up from it.

## Main definitions

* `ViewTree.Forest.preOrder` — a node, and then the pre-orders of the nodes below it in order.
* `ViewTree.IsNamed` — a living node bears a name.

## Main statements

* `ViewTree.Forest.walk_eq_preOrder` — a walk lists the pre-order.
* `ViewTree.findNamed?_eq_some_iff` — the node found by a name is the first one below that bears it.
* `ViewTree.Forest.traversals_agree` — all that ways down and ways up say about each other.
-/

namespace ViewMarkup.ViewTree

variable {H : Type} {t : ViewTree H}

/-! ### Pre-orders -/

/-- A living node, and then the pre-orders of the nodes below it in order; nothing if the node is not
alive. Every link down is one link further from the end of the way up, so this ends. -/
def Forest.preOrder (F : Forest t) (id : NodeId) : List NodeId :=
  if t.contains id then id :: (t.children id).attach.flatMap fun c => F.preOrder c.1 else []
termination_by t.slots.size - (t.ancestors id).length
decreasing_by exact F.length_ancestors_lt ((F.mem_children_iff _ _).1 c.2)

/-- **A walk lists the pre-order.** -/
theorem Forest.walk_eq_preOrder (F : Forest t) (id : NodeId) : t.walk id = F.preOrder id := by
  fun_induction F.preOrder id with
  | case1 id h ih =>
    rw [F.walk_eq h, List.flatMap_subtype (g := t.walk) fun c hc => (ih ⟨c, hc⟩).symm,
      List.unattach_attach]
  | case2 id h =>
    exact List.eq_nil_iff_forall_not_mem.2 fun x hx => h (F.mem_walk_iff.1 hx).1

/-- The nodes below a node come in the pre-order, behind the node itself. -/
lemma Forest.descendants_eq (F : Forest t) (id : NodeId) :
    t.descendants id = (F.preOrder id).tail := by
  rw [descendants, F.walk_eq_preOrder, List.drop_one]

/-! ### Ways up -/

namespace Climbs

variable {id : NodeId} {ids : List NodeId}

/-- Each node on the way up is directly above the one before it. -/
lemma isChain (h : t.Climbs id ids) : (id :: ids).IsChain fun c p => t.parent? c = some p := by
  induction h with
  | top => exact .singleton _
  | up hp _ ih => exact .cons_cons hp ih

/-- Nothing is above the last node of the way up. -/
lemma parent?_getLast (h : t.Climbs id ids) :
    t.parent? ((id :: ids).getLast (List.cons_ne_nil _ _)) = none := by
  induction h with
  | top hp => exact hp
  | up hp _ ih => rwa [List.getLast_cons (List.cons_ne_nil _ _)]

end Climbs

/-! ### Names -/

/-- A living node bears a name. -/
def IsNamed (t : ViewTree H) (id : NodeId) (name : String) : Prop :=
  ∃ n, t.get? id = some n ∧ n.name = some name

/-- A node is found by the name that it has. -/
lemma any_name_eq_true_iff {id : NodeId} {name : String} :
    (t.get? id).any (fun n => n.name = some name) = true ↔ t.IsNamed id name := by
  rw [Option.any_eq_true]
  exact exists_congr fun n => and_congr_right fun _ => decide_eq_true_iff

/-- The node found by a name is the first one below that bears it. -/
theorem findNamed?_eq_some_iff {start d : NodeId} {name : String} :
    t.findNamed? start name = some d ↔ ∃ before after,
      t.descendants start = before ++ d :: after ∧ t.IsNamed d name ∧
        ∀ x ∈ before, ¬ t.IsNamed x name := by
  rw [findNamed?, List.find?_eq_some_iff_append, any_name_eq_true_iff]
  constructor
  · rintro ⟨hd, before, after, heq, hb⟩
    refine ⟨before, after, heq, hd, fun x hx hn => ?_⟩
    simpa [any_name_eq_true_iff.2 hn] using hb x hx
  · rintro ⟨before, after, heq, hd, hb⟩
    refine ⟨hd, before, after, heq, fun x hx => ?_⟩
    rw [Bool.not_eq_true', Bool.eq_false_iff]
    exact fun hn => hb x hx (any_name_eq_true_iff.1 hn)

/-- None is found if no node below bears the name. -/
lemma findNamed?_eq_none_iff {start : NodeId} {name : String} :
    t.findNamed? start name = none ↔ ∀ d ∈ t.descendants start, ¬ t.IsNamed d name := by
  rw [findNamed?, List.find?_eq_none]
  exact forall₂_congr fun d _ => not_congr any_name_eq_true_iff

/-- **What ways down and ways up say about each other.** In a forest a walk is the pre-order of what
is within its start: its stack is empty in the end, and no node is listed twice. A node is below
another exactly if that one is above it. The way up goes from a node to the one directly above it,
until nothing is above. And the node found by a name is the first one in the pre-order, behind the
start, that bears it.

**Proof sketch.** A walk is the start with the walks of the nodes below it (`Forest.walk_eq`), and
the pre-order is made in the same way. Both the nodes that a walk lists and those that going up meets
are given by the links alone (`Forest.mem_descendants_iff`, `Forest.mem_ancestors_iff`). -/
theorem Forest.traversals_agree (F : Forest t) (start : NodeId) :
    t.walk start = F.preOrder start ∧
    t.Walks [start] (F.preOrder start) ∧
    (F.preOrder start).Nodup ∧
    (∀ d, d ∈ t.descendants start ↔ start ∈ t.ancestors d) ∧
    ((start :: t.ancestors start).IsChain (fun c p => t.parent? c = some p) ∧
      t.parent? ((start :: t.ancestors start).getLast (List.cons_ne_nil _ _)) = none) ∧
    (∀ name d, t.findNamed? start name = some d ↔ ∃ before after,
      F.preOrder start = start :: (before ++ d :: after) ∧ t.IsNamed d name ∧
        ∀ x ∈ before, ¬ t.IsNamed x name) ∧
    (∀ name, t.findNamed? start name = none ↔ ∀ d, t.IsBelow d start → ¬ t.IsNamed d name) := by
  refine ⟨F.walk_eq_preOrder start, ?_, ?_, fun d => ?_,
    ⟨(F.climbs start).isChain, (F.climbs start).parent?_getLast⟩, fun name d => ?_, fun name => ?_⟩
  · rw [← F.walk_eq_preOrder]
    exact F.walks start
  · rw [← F.walk_eq_preOrder]
    exact F.nodup_walk start
  · rw [F.mem_descendants_iff, F.mem_ancestors_iff]
  · rw [findNamed?_eq_some_iff, F.descendants_eq]
    refine exists_congr fun before => exists_congr fun after => and_congr_left fun _ => ?_
    -- The start is the head of its own pre-order, if there is anything in it at all.
    rw [Forest.preOrder]
    split
    · exact ⟨fun h => congrArg _ h, fun h => (List.cons.inj h).2⟩
    · simp
  · rw [findNamed?_eq_none_iff]
    exact forall_congr' fun d => imp_congr_left F.mem_descendants_iff

/-- The panel's walk goes through the bar and its buttons before it comes to the caption. The button
is found below the panel, but the panel not below itself. -/
theorem traversals_panel :
    panel.Forest ∧ panel.walk ⟨0⟩ = forest_panel.preOrder ⟨0⟩ ∧
      panel.walk ⟨0⟩ = [⟨0⟩, ⟨1⟩, ⟨3⟩, ⟨4⟩, ⟨2⟩] ∧
      (⟨4⟩ ∈ panel.descendants ⟨0⟩ ↔ ⟨0⟩ ∈ panel.ancestors ⟨4⟩) ∧
      panel.ancestors ⟨4⟩ = [⟨1⟩, ⟨0⟩] ∧ panel.findNamed? ⟨0⟩ "save" = some ⟨4⟩ ∧
      panel.findNamed? ⟨0⟩ "panel" = none := by
  obtain ⟨walk, -, -, below, -⟩ := forest_panel.traversals_agree ⟨0⟩
  exact ⟨forest_panel, walk, by decide, below ⟨4⟩, by decide, by decide, by decide⟩

end ViewMarkup.ViewTree
