import ViewMarkup.Proofs.View.Edits

/-!
# What removals and changes of place do

Two edits reach beyond the nodes they name: a removal takes a node away with all below it, and a
change of place moves it with all below it. For both this module says all that becomes of a tree:
which nodes are touched and how, and that every other node is left as it is.

## Main definitions

* `ViewTree.Removed` — a tree is another one without a node and all below it.
* `ViewTree.ClimbsTo` — the way up from a node to one that it lies within.
* `ViewTree.Moved` — a tree is another one with a node, and all below it, in another place.

## Main statements

* `ViewTree.removed_of_remove` — what a removal does, and what it hands back.
* `ViewTree.moved_of_attach` — when a node may change its place, and what becomes of the tree.
-/

namespace ViewMarkup.ViewTree

variable {H : Type} {t t' : ViewTree H} {id parent : NodeId} {arranged : Bool}

/-! ### Removing a node with all below it -/

/-- A tree is another one without a node and all that a walk from it lists. -/
structure Removed (t t' : ViewTree H) (id : NodeId) : Prop where
  /-- The nodes listed are gone, and no others. -/
  contains_iff : ∀ x, t'.contains x = true ↔ t.contains x = true ∧ x ∉ t.walk id
  /-- The others hold what they held. -/
  get?_eq : ∀ x, x ∉ t.walk id → t'.get? x = t.get? x
  /-- They are where they were. -/
  parent?_eq : ∀ x, x ∉ t.walk id → t'.parent? x = t.parent? x
  /-- They are lined up if they were. -/
  isArranged_eq : ∀ x, x ∉ t.walk id → t'.isArranged x = t.isArranged x
  /-- The same nodes are below them in the same order, but for the one removed. -/
  children_eq : ∀ x, x ∉ t.walk id → t'.children x =
    if t.parent? id = some x then (t.children x).erase id else t.children x
  /-- There are fewer nodes, by as many as are listed. -/
  size_eq : t'.size + (t.walk id).length = t.size

/-- Striking a node from a list in which none is listed twice. -/
lemma Forest.filter_children (F : Forest t) (id x : NodeId) :
    (t.children x).filter (· ≠ id) = (t.children x).erase id := by
  rw [(F.nodup_children x).erase_eq_filter]
  exact List.filter_congr fun c _ => decide_not

/-- **A removal takes away a node and all below it**, and nothing else. It hands back what the node
held. A node that is not alive cannot be removed.

**Proof sketch.** The queue empties the slots of the nodes that a walk lists, and no others
(`Forest.slot?_remove`); among the others, only the one above the node has been changed before. The
walk lists living nodes and none of them twice, so with those that are left they are all that were
alive. -/
theorem removed_of_remove (F : Forest t) (id : NodeId) :
    (t.contains id = true →
      (∃ n, t.get? id = some n ∧ (t.remove id).1 = some n) ∧ t.Removed (t.remove id).2 id) ∧
    (t.contains id = false → t.remove id = (none, t)) := by
  refine ⟨fun h => ⟨?_, ?_⟩, remove_of_not_contains⟩
  · obtain ⟨s, hs⟩ := contains_iff.1 h
    exact ⟨s.node, get?_of_slot? hs, (F.fst_remove id).trans (get?_of_slot? hs)⟩
  have hid : id ∈ t.walk id := F.mem_walk_iff.2 ⟨h, .refl⟩
  have hslot : ∀ x, x ∉ t.walk id → (t.remove id).2.slot? x = (t.detach id).slot? x := fun x hx => by
    rw [F.slot?_remove h, if_neg hx]
  have hne : ∀ x, x ∉ t.walk id → id ≠ x := fun x hx he => hx (he ▸ hid)
  have alive : ∀ x, (t.remove id).2.contains x = true ↔ t.contains x = true ∧ x ∉ t.walk id := by
    intro x
    by_cases hx : x ∈ t.walk id
    · rw [contains, F.slot?_remove h, if_pos hx]
      simp [hx]
    · rw [contains_congr (hslot x hx), contains_detach]
      simp [hx]
  refine ⟨alive, fun x hx => ?_, fun x hx => ?_, fun x hx => ?_, fun x hx => ?_, ?_⟩
  · rw [get?, hslot x hx]
    exact get?_detach t id x
  · rw [parent?_congr (hslot x hx), parent?_detach, if_neg (hne x hx)]
  · rw [isArranged, hslot x hx, ← isArranged, isArranged_detach, decide_eq_true (hne x hx),
      Bool.true_and]
  · have hc : (t.remove id).2.children x = (t.detach id).children x := by
      rw [children, hslot x hx, ← children]
    rw [hc, ViewTree.children_detach, F.filter_children]
  · have hn : ((t.remove id).2.living ++ t.walk id).Nodup :=
      List.nodup_append'.2 ⟨nodup_living _, F.nodup_walk id, fun x hx hx' =>
        ((alive x).1 (mem_living_iff.1 hx)).2 hx'⟩
    rw [size_eq_length (t := t) hn, List.length_append, length_living]
    intro x
    rw [List.mem_append, mem_living_iff, alive]
    by_cases hx : x ∈ t.walk id
    · simp [hx, (F.mem_walk_iff.1 hx).2.contains h]
    · simp [hx]

/-- The bar is removed from the panel: with it go its two buttons, and the panel is left with the
caption. -/
theorem removed_bar :
    panel.Forest ∧ panel.contains ⟨1⟩ = true ∧ panel.walk ⟨1⟩ = [⟨1⟩, ⟨3⟩, ⟨4⟩] ∧
      ((panel.remove ⟨1⟩).1.bind (·.name)) = some "bar" ∧
      (panel.remove ⟨1⟩).2.children ⟨0⟩ = [⟨2⟩] ∧ (panel.remove ⟨1⟩).2.size = 2 ∧
      panel.Removed (panel.remove ⟨1⟩).2 ⟨1⟩ ∧ panel.remove ⟨5⟩ = (none, panel) := by
  have alive : panel.contains ⟨1⟩ = true := by decide
  have removed := (removed_of_remove forest_panel ⟨1⟩).1 alive
  obtain ⟨⟨n, hn, hfst⟩, R⟩ := removed
  refine ⟨forest_panel, alive, by decide, ?_, ?_, ?_, R, ?_⟩
  · rw [hfst, ← hn]
    decide
  · rw [R.children_eq _ (by decide)]
    decide
  · have := R.size_eq
    rw [show panel.size = 5 by decide, show (panel.walk ⟨1⟩).length = 3 by decide] at this
    omega
  · exact (removed_of_remove forest_panel ⟨5⟩).2 (by decide)

/-! ### Ways up -/

/-- Going up from a node, link by link, meets the listed nodes, of which `top` is the last; none is
listed where the node is `top` itself. -/
inductive ClimbsTo (t : ViewTree H) (top : NodeId) : NodeId → List NodeId → Prop where
  /-- The top is reached. -/
  | here : ClimbsTo t top top []
  /-- Going on from the node above. -/
  | up {id p ids} : t.parent? id = some p → ClimbsTo t top p ids → ClimbsTo t top id (p :: ids)

/-- There is a way up to every node that a node lies within. -/
lemma IsWithin.exists_climbsTo {x top : NodeId} (h : t.IsWithin x top) :
    ∃ way, t.ClimbsTo top x way := by
  induction h using Relation.ReflTransGen.head_induction_on with
  | refl => exact ⟨[], .here⟩
  | head hp _ ih =>
    obtain ⟨way, hway⟩ := ih
    exact ⟨_, .up hp hway⟩

namespace ClimbsTo

variable {x top : NodeId} {way ids : List NodeId}

/-- What climbs to a node is within it. -/
lemma isWithin (h : t.ClimbsTo top x way) : t.IsWithin x top := by
  induction h with
  | here => exact .refl
  | up hp _ ih => exact .head hp ih

/-- Going up to the top, and on from there to the end. -/
lemma climbs (h : t.ClimbsTo top x way) (h' : t.Climbs top ids) : t.Climbs x (way ++ ids) := by
  induction h with
  | here => exact h'
  | up hp _ ih => exact .up hp ih

/-- The link of the top itself plays no part on the way up to it. -/
lemma of_parent? (F : t.Forest) (h : t.ClimbsTo top x way)
    (hp : ∀ c, c ≠ top → t'.parent? c = t.parent? c) : t'.ClimbsTo top x way := by
  induction h with
  | here => exact .here
  | up hcp hway ih =>
    refine .up ((hp _ ?_).trans hcp) ih
    rintro rfl
    exact F.acyclic _ (Relation.TransGen.head' hcp hway.isWithin)

end ClimbsTo

/-- The way up from a node that does not lie within another one does not use the link of that
other. -/
lemma Climbs.of_parent? {x : NodeId} {ids : List NodeId} (h : t.Climbs x ids)
    (hx : ¬ t.IsWithin x id) (hp : ∀ c, c ≠ id → t'.parent? c = t.parent? c) : t'.Climbs x ids := by
  have hne : ∀ {x : NodeId}, ¬ t.IsWithin x id → x ≠ id := fun hx he => hx (he ▸ .refl)
  induction h with
  | top hroot => exact .top ((hp _ (hne hx)).trans hroot)
  | up hcp _ ih => exact .up ((hp _ (hne hx)).trans hcp) (ih fun hw => hx (.head hcp hw))

/-- A walk through nodes whose lists are the same is the same. -/
lemma Walks.of_children {stack ids : List NodeId} (h : t.Walks stack ids)
    (ha : ∀ x, t'.contains x = t.contains x) (hc : ∀ x ∈ ids, t'.children x = t.children x) :
    t'.Walks stack ids := by
  induction h with
  | done => exact .done
  | @living id s stack ids hs _ ih =>
    obtain ⟨s', hs'⟩ := contains_iff.1 ((ha id).trans (contains_iff.2 ⟨s, hs⟩))
    have hsame : s'.children = s.children := by
      rw [← children_of_slot? hs', ← children_of_slot? hs]
      exact hc id List.mem_cons_self
    refine .living hs' ?_
    rw [hsame]
    exact ih fun x hx => hc x (List.mem_cons_of_mem _ hx)
  | @gone id stack ids hs _ ih =>
    refine .gone (slot?_eq_none ?_) (ih hc)
    rw [ha, contains, hs]
    rfl

/-! ### Putting a node in another place -/

/-- A tree is another one with a node, and all below it, put below a given node as the last one. -/
structure Moved (t t' : ViewTree H) (id parent : NodeId) (arranged : Bool) : Prop where
  /-- The node is below the given one. -/
  parent?_eq : t'.parent? id = some parent
  /-- It is the last one there; if it was there before, it has left its former place. -/
  children_parent : t'.children parent = (t.children parent).erase id ++ [id]
  /-- It is lined up as was asked for. -/
  isArranged_eq : t'.isArranged id = arranged
  /-- Another node that it was below loses it, and nothing else. -/
  children_former : ∀ p, t.parent? id = some p → p ≠ parent → t'.children p = (t.children p).erase id
  /-- The same nodes as before are within it. -/
  walk_eq : t'.walk id = t.walk id
  /-- They have the same nodes below them in the same order. -/
  children_within : ∀ x ∈ t.walk id, t'.children x = t.children x
  /-- All nodes hold what they held, and none is made or removed. -/
  get?_eq : ∀ x, t'.get? x = t.get? x
  /-- All other nodes are where they were. -/
  parent?_of_ne : ∀ x, x ≠ id → t'.parent? x = t.parent? x
  /-- They are lined up if they were. -/
  isArranged_of_ne : ∀ x, x ≠ id → t'.isArranged x = t.isArranged x
  /-- All nodes that the node was not below and is not put below list the same nodes as before. -/
  children_of_ne : ∀ x, x ≠ parent → t.parent? id ≠ some x → t'.children x = t.children x
  /-- From a node within it the way up leads to it as before, and then to the given node and on from
  there. -/
  ancestors_within : ∀ x ∈ t.walk id, ∃ way, t.ClimbsTo id x way ∧
    t.ancestors x = way ++ t.ancestors id ∧ t'.ancestors x = way ++ parent :: t.ancestors parent
  /-- From all other nodes the way up is the same. -/
  ancestors_of_not_mem : ∀ x, x ∉ t.walk id → t'.ancestors x = t.ancestors x

/-- What becomes of the tree when a node is put below another.

**Proof sketch.** The lists and links are those of the tree without the node's former link
(`children_attach?`, `parent?_attach?`). The given node does not lie within the one that is moved, so
nothing changes within that one: neither the lists there, and hence the walk, nor the ways up to it.
From there on the way up is that of the given node, which does not use the link that was changed. -/
lemma Forest.moved (F : Forest t) (h : t.attach? id parent arranged = some t') :
    t.Moved t' id parent arranged := by
  have F' := F.attach? h
  obtain ⟨hid, hparent, hne, hnot⟩ := canAttach_iff.1 (canAttach_of_attach? h)
  have outside : ¬ t.IsWithin parent id := fun hw => by
    rcases isWithin_iff.1 hw with he | hb
    · exact hne he.symm
    · exact hnot (F.mem_ancestors_iff.2 hb)
  have hpar : ∀ c, c ≠ id → t'.parent? c = t.parent? c := fun c hc => by
    rw [parent?_attach? h, if_neg (Ne.symm hc)]
  have hch : ∀ x, t'.children x =
      (t.children x).erase id ++ if parent = x then [id] else [] := fun x => by
    rw [children_attach? h, F.children_detach, F.filter_children]
  have former : ∀ x, parent ≠ x → t'.children x = (t.children x).erase id := fun x hx => by
    rw [hch, if_neg hx, List.append_nil]
  have rest : ∀ x, parent ≠ x → t.parent? id ≠ some x → t'.children x = t.children x :=
    fun x hx hx' => by
      rw [former x hx, List.erase_of_not_mem fun hm => hx' ((F.mem_children_iff id x).1 hm)]
  have within : ∀ x ∈ t.walk id, t'.children x = t.children x := fun x hx => by
    have hxid := (F.mem_walk_iff.1 hx).2
    refine rest x (fun he => outside (he ▸ hxid)) fun hx' => ?_
    exact F.acyclic id (Relation.TransGen.head' hx' hxid)
  have above : ∀ x, ¬ t.IsWithin x id → t'.ancestors x = t.ancestors x := fun x hx =>
    climbs_unique (F'.climbs x) ((F.climbs x).of_parent? hx hpar)
  exact
    { parent?_eq := by rw [parent?_attach? h, if_pos rfl]
      children_parent := by rw [hch, if_pos rfl]
      isArranged_eq := by rw [isArranged_attach? h, if_pos rfl]
      children_former := fun p _ hp => former p (Ne.symm hp)
      walk_eq := (F'.walks id).unique ((F.walks id).of_children (contains_attach? h) within)
      children_within := within
      get?_eq := get?_attach? h
      parent?_of_ne := hpar
      isArranged_of_ne := fun x hx => by rw [isArranged_attach? h, if_neg (Ne.symm hx)]
      children_of_ne := fun x hx => rest x (Ne.symm hx)
      ancestors_within := fun x hx => by
        obtain ⟨way, hway⟩ := (F.mem_walk_iff.1 hx).2.exists_climbsTo
        have hlink : t'.parent? id = some parent := by rw [parent?_attach? h, if_pos rfl]
        refine ⟨way, hway, climbs_unique (F.climbs x) (hway.climbs (F.climbs id)), ?_⟩
        rw [← above parent outside, ← F'.ancestors_eq hlink]
        exact climbs_unique (F'.climbs x) ((hway.of_parent? F hpar).climbs (F'.climbs id))
      ancestors_of_not_mem := fun x hx => above x fun hw => hx (F.mem_walk_iff.2 ⟨hid, hw⟩) }

/-- **When a node may change its place, and what becomes of the tree.** A node may be put below
another if both are alive, they are not the same, and the other one is not below it. If it may not,
the tree stays as it is. Otherwise the node is the last one below the other, with all that was below
it, and nothing else has changed but that it is gone from where it was. -/
theorem moved_of_attach (F : Forest t) (id parent : NodeId) (arranged : Bool) :
    ((t.attach id parent arranged).1 = true ↔
      t.contains id = true ∧ t.contains parent = true ∧ id ≠ parent ∧ ¬ t.IsBelow parent id) ∧
    ((t.attach id parent arranged).1 = false → (t.attach id parent arranged).2 = t) ∧
    ((t.attach id parent arranged).1 = true →
      t.Moved (t.attach id parent arranged).2 id parent arranged) := by
  have went : (t.attach id parent arranged).1 = (t.attach? id parent arranged).isSome := by
    rw [attach_fst, isSome_attach?]
  refine ⟨?_, fun h => ?_, fun h => ?_⟩
  · rw [attach_fst, canAttach_iff, F.mem_ancestors_iff]
  · rw [went, Option.isSome_eq_false_iff, Option.isNone_iff_eq_none] at h
    rw [attach_snd, h, Option.getD_none]
  · rw [went] at h
    obtain ⟨t', ht'⟩ := Option.isSome_iff_exists.1 h
    rw [attach_snd, ht', Option.getD_some]
    exact F.moved ht'

/-- The bar is put below the caption, and lined up there: its buttons go with it. The panel may not
be put below one of the buttons. -/
theorem moved_bar :
    panel.Forest ∧ (panel.attach ⟨1⟩ ⟨2⟩ true).1 = true ∧ (panel.attach ⟨0⟩ ⟨3⟩ true).1 = false ∧
      panel.Moved (panel.attach ⟨1⟩ ⟨2⟩ true).2 ⟨1⟩ ⟨2⟩ true ∧
      (panel.attach ⟨1⟩ ⟨2⟩ true).2.children ⟨0⟩ = [⟨2⟩] ∧
      (panel.attach ⟨1⟩ ⟨2⟩ true).2.ancestors ⟨3⟩ = [⟨1⟩, ⟨2⟩, ⟨0⟩] ∧
      (panel.attach ⟨0⟩ ⟨3⟩ true).2 = panel := by
  have may : (panel.attach ⟨1⟩ ⟨2⟩ true).1 = true := by decide
  have mayNot : (panel.attach ⟨0⟩ ⟨3⟩ true).1 = false := by decide
  exact ⟨forest_panel, may, mayNot, (moved_of_attach forest_panel ⟨1⟩ ⟨2⟩ true).2.2 may,
    by decide, by decide, (moved_of_attach forest_panel ⟨0⟩ ⟨3⟩ true).2.1 mayNot⟩

/-- A node that is put below the one it is below already becomes the last one there. -/
example : (panel.attach ⟨3⟩ ⟨1⟩ false).2.children ⟨1⟩ = [⟨4⟩, ⟨3⟩] := by decide

end ViewMarkup.ViewTree
