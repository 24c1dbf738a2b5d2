import ViewMarkup.Proofs.View.Forest

/-!
# Walks through a forest

A walk takes nodes from a stack, each replaced by the nodes below it. In a forest it ends, and it
lists the node it began with and all nodes below, each once and each before those below it.

## Main definitions

* `ViewTree.IsWithin` — a node is another one or lies below it.
* `ViewTree.Walks` — the run of a walk to its end.

## Main statements

* `ViewTree.Forest.walks` — a walk ends, and `walk` lists what is met.
* `ViewTree.Forest.walk_eq` — a walk is the node, and then the walks of the nodes below it in order.
* `ViewTree.Forest.mem_walk_iff`, `ViewTree.Forest.nodup_walk` — what is met, and that it is met
  once.
-/

namespace ViewMarkup.ViewTree

variable {H : Type} {t t' : ViewTree H}

/-- A node is another one or lies below it. -/
def IsWithin (t : ViewTree H) (id top : NodeId) : Prop :=
  Relation.ReflTransGen (fun c p => t.parent? c = some p) id top

/-- Taking nodes from a stack, each replaced by the nodes below it, until the stack is empty lists
the living ones in the order taken. -/
inductive Walks (t : ViewTree H) : List NodeId → List NodeId → Prop where
  /-- The stack is empty. -/
  | done : Walks t [] []
  /-- A living node is listed, and those below it are taken next. -/
  | living {id s stack ids} : t.slot? id = some s → Walks t (s.children ++ stack) ids →
      Walks t (id :: stack) (id :: ids)
  /-- A node that is not alive is passed over. -/
  | gone {id stack ids} : t.slot? id = none → Walks t stack ids → Walks t (id :: stack) ids

/-- A node is within another one if it is that one or below it. -/
lemma isWithin_iff {id top : NodeId} : t.IsWithin id top ↔ id = top ∨ t.IsBelow id top := by
  rw [IsWithin, Relation.reflTransGen_iff_eq_or_transGen]
  exact or_congr eq_comm Iff.rfl

/-- What is within a living node is alive. -/
lemma IsWithin.contains {id top : NodeId} (h : t.IsWithin id top) (ht : t.contains top = true) :
    t.contains id = true := by
  rcases isWithin_iff.1 h with rfl | hb
  · exact ht
  · exact hb.contains

namespace Walks

/-- A stack may be walked through in two parts. -/
lemma append {stack stack' ids ids' : List NodeId} (h : t.Walks stack ids)
    (h' : t.Walks stack' ids') : t.Walks (stack ++ stack') (ids ++ ids') := by
  induction h with
  | done => exact h'
  | living hs _ ih => exact .living hs (by rwa [List.append_assoc] at ih)
  | gone hs _ ih => exact .gone hs ih

/-- There is one walk through a stack. -/
lemma unique {stack ids ids' : List NodeId} (h : t.Walks stack ids) (h' : t.Walks stack ids') :
    ids = ids' := by
  induction h generalizing ids' with
  | done => cases h'; rfl
  | living hs _ ih =>
    cases h' with
    | living hs' h' =>
      rw [hs] at hs'
      cases hs'
      rw [ih h']
    | gone hs' _ => rw [hs] at hs'; cases hs'
  | gone hs _ ih =>
    cases h' with
    | living hs' _ => rw [hs] at hs'; cases hs'
    | gone _ h' => exact ih h'

/-- The living nodes of a stack are listed. -/
lemma mem_of_mem_stack {stack ids : List NodeId} (h : t.Walks stack ids) {id : NodeId}
    (hm : id ∈ stack) (ha : t.contains id = true) : id ∈ ids := by
  induction h with
  | done => cases hm
  | living hs _ ih =>
    rcases List.mem_cons.1 hm with rfl | hm
    · exact List.mem_cons_self
    · exact List.mem_cons_of_mem _ (ih (List.mem_append_right _ hm))
  | gone hs _ ih =>
    rcases List.mem_cons.1 hm with rfl | hm
    · rw [contains, hs] at ha
      cases ha
    · exact ih hm

/-- What is below a listed node is listed. -/
lemma mem_of_parent? (F : Forest t) {stack ids : List NodeId} (h : t.Walks stack ids)
    {c p : NodeId} (hc : t.parent? c = some p) (hp : p ∈ ids) : c ∈ ids := by
  induction h with
  | done => cases hp
  | living hs hw ih =>
    rcases List.mem_cons.1 hp with rfl | hp
    · refine List.mem_cons_of_mem _ (hw.mem_of_mem_stack ?_ (contains_of_parent? hc))
      rw [← F.mem_children_iff, children_of_slot? hs] at hc
      exact List.mem_append_left _ hc
    · exact List.mem_cons_of_mem _ (ih hp)
  | gone _ _ ih => exact ih hp

/-- The steps of a walk through living nodes are no more than the nodes it lists. -/
lemma walkStack_eq (F : Forest t) {stack ids : List NodeId} (h : t.Walks stack ids)
    (ha : ∀ id ∈ stack, t.contains id = true) {n : Nat} (hn : ids.length ≤ n) :
    t.walkStack n stack = ids := by
  induction h generalizing n with
  | done => cases n <;> rfl
  | @living _ s stack _ hs _ ih =>
    obtain ⟨n, rfl⟩ : ∃ m, n = m + 1 := ⟨n - 1, by rw [List.length_cons] at hn; omega⟩
    have hall : ∀ id ∈ s.children ++ stack, t.contains id = true := fun id hid => by
      rcases List.mem_append.1 hid with hid | hid
      · rw [← children_of_slot? hs, F.mem_children_iff] at hid
        exact contains_of_parent? hid
      · exact ha id (List.mem_cons_of_mem _ hid)
    simp only [walkStack, hs, ih hall (by simpa using hn)]
  | gone hs _ _ =>
    have := ha _ List.mem_cons_self
    rw [contains, hs] at this
    cases this

end Walks

namespace Forest

/-- Nodes below the same node have nothing in common. -/
lemma eq_of_isWithin (F : Forest t) {c c' p x : NodeId} (hc : t.parent? c = some p)
    (hc' : t.parent? c' = some p) (hx : t.IsWithin x c) (hx' : t.IsWithin x c') : c = c' := by
  have right : Relator.RightUnique fun c p => t.parent? c = some p := fun a b b' h h' =>
    Option.some.inj (h.symm.trans h')
  have apart : ∀ {c c' : NodeId}, t.parent? c = some p → t.parent? c' = some p →
      t.IsWithin c c' → c = c' := by
    intro c c' hc hc' h
    rcases isWithin_iff.1 h with h | h
    · exact h
    · obtain ⟨q, hq, h⟩ := Relation.TransGen.head'_iff.1 h
      rw [hc] at hq
      cases hq
      exact absurd (Relation.TransGen.tail' h hc') (F.acyclic p)
  rcases Relation.ReflTransGen.total_of_right_unique right hx hx' with h | h
  · exact apart hc hc' h
  · exact (apart hc' hc h).symm

/-- A node is one link further from the end than the one above it, and no way up is longer than
there are slots. -/
lemma length_ancestors_lt (F : Forest t) {c p : NodeId} (h : t.parent? c = some p) :
    t.slots.size - (t.ancestors c).length < t.slots.size - (t.ancestors p).length := by
  have hle := length_le_size (t := t) (t.ancestors c)
    (List.nodup_cons.1 (F.nodup_ancestorsWithin _ c)).2
    fun a ha => F.contains_above (F.mem_ancestors_iff.1 ha)
  rw [F.ancestors_eq h, List.length_cons] at hle ⊢
  omega

/-- **A walk from a node ends**, without listing a node twice and listing only what is within the
node.

**Proof sketch.** Induction on the number of links that may still lie below the node. The walks of
the nodes below it have nothing in common, since two ways up from one node cannot lead to two nodes
side by side. -/
theorem exists_walks (F : Forest t) (id : NodeId) :
    ∃ ids, t.Walks [id] ids ∧ ids.Nodup ∧ ∀ x ∈ ids, t.IsWithin x id := by
  induction hn : t.slots.size - (t.ancestors id).length using Nat.strong_induction_on
    generalizing id with
  | _ n ih =>
    subst hn
    cases hs : t.slot? id with
    | none => exact ⟨[], .gone hs .done, List.nodup_nil, fun x hx => by cases hx⟩
    | some s =>
      have below : ∀ cs : List NodeId, cs.Nodup → (∀ c ∈ cs, t.parent? c = some id) →
          ∃ ids, t.Walks cs ids ∧ ids.Nodup ∧ ∀ x ∈ ids, ∃ c ∈ cs, t.IsWithin x c := by
        intro cs
        induction cs with
        | nil => exact fun _ _ => ⟨[], .done, List.nodup_nil, fun x hx => by cases hx⟩
        | cons c cs ihcs =>
          intro hd hp
          rw [List.nodup_cons] at hd
          have hc := hp c List.mem_cons_self
          have hcs := fun c' hc' => hp c' (List.mem_cons_of_mem _ hc')
          obtain ⟨ids, hw, hnd, hin⟩ := ih _ (F.length_ancestors_lt hc) c rfl
          obtain ⟨ids', hw', hnd', hin'⟩ := ihcs hd.2 hcs
          refine ⟨ids ++ ids', hw.append hw', List.nodup_append.2 ⟨hnd, hnd', ?_⟩, ?_⟩
          · rintro x hx _ hx' rfl
            obtain ⟨c', hc', hxc'⟩ := hin' x hx'
            exact hd.1 (F.eq_of_isWithin hc (hcs c' hc') (hin x hx) hxc' ▸ hc')
          · intro x hx
            rcases List.mem_append.1 hx with hx | hx
            · exact ⟨c, List.mem_cons_self, hin x hx⟩
            · obtain ⟨c', hc', hxc'⟩ := hin' x hx
              exact ⟨c', List.mem_cons_of_mem _ hc', hxc'⟩
      have hpar : ∀ c ∈ s.children, t.parent? c = some id := fun c hc =>
        (F.mem_children_iff c id).1 (by rwa [children_of_slot? hs])
      obtain ⟨ids, hw, hnd, hin⟩ :=
        below s.children (children_of_slot? hs ▸ F.nodup_children id) hpar
      have under : ∀ x ∈ ids, t.IsBelow x id := fun x hx => by
        obtain ⟨c, hc, hxc⟩ := hin x hx
        exact Relation.TransGen.tail' hxc (hpar c hc)
      refine ⟨id :: ids, .living hs (by simpa using hw), ?_, ?_⟩
      · exact List.nodup_cons.2 ⟨fun h => F.acyclic id (under id h), hnd⟩
      · intro x hx
        rcases List.mem_cons.1 hx with rfl | hx
        · exact .refl
        · exact (under x hx).to_reflTransGen

/-- **A walk from a node ends**, and `walk` lists what it meets. -/
theorem walks (F : Forest t) (id : NodeId) : t.Walks [id] (t.walk id) := by
  cases hs : t.slot? id with
  | none =>
    have : t.walk id = [] := by cases h : t.slots.size <;> simp [walk, walkStack, hs, h]
    rw [this]
    exact .gone hs .done
  | some s =>
    obtain ⟨ids, hw, hnd, hin⟩ := F.exists_walks id
    have ha := contains_iff.2 ⟨s, hs⟩
    have hle := length_le_size ids hnd fun x hx => (hin x hx).contains ha
    rw [walk, hw.walkStack_eq F (by simpa using ha) (Nat.le_succ_of_le hle)]
    exact hw

/-- A walk through a subtree comes to each node once. -/
theorem nodup_walk (F : Forest t) (id : NodeId) : (t.walk id).Nodup := by
  obtain ⟨ids, hw, hnd, _⟩ := F.exists_walks id
  rwa [(F.walks id).unique hw]

/-- A walk meets the node it begins with, if that is alive, and all nodes below it. -/
theorem mem_walk_iff (F : Forest t) {x id : NodeId} :
    x ∈ t.walk id ↔ t.contains id = true ∧ t.IsWithin x id := by
  constructor
  · intro hx
    obtain ⟨ids, hw, _, hin⟩ := F.exists_walks id
    rw [(F.walks id).unique hw] at hx
    refine ⟨?_, hin x hx⟩
    cases hs : t.slot? id with
    | some s => exact contains_iff.2 ⟨s, hs⟩
    | none =>
      rw [hw.unique (.gone hs .done)] at hx
      cases hx
  · rintro ⟨ha, hx⟩
    induction hx using Relation.ReflTransGen.head_induction_on with
    | refl => exact (F.walks id).mem_of_mem_stack List.mem_cons_self ha
    | head hp _ ih => exact (F.walks id).mem_of_parent? F hp ih

/-- A walk through a stack is the walks of its members, one after the other. -/
lemma walks_flatMap (F : Forest t) (stack : List NodeId) :
    t.Walks stack (stack.flatMap t.walk) := by
  induction stack with
  | nil => exact .done
  | cons id stack ih => exact (F.walks id).append ih

/-- A walk is the node, and then the walks of the nodes below it in order. -/
theorem walk_eq (F : Forest t) {id : NodeId} (h : t.contains id = true) :
    t.walk id = id :: (t.children id).flatMap t.walk := by
  obtain ⟨s, hs⟩ := contains_iff.1 h
  refine (F.walks id).unique (.living hs ?_)
  rw [List.append_nil, children_of_slot? hs]
  exact F.walks_flatMap _

/-- The nodes below a node are those that the node is above. -/
lemma mem_descendants_iff (F : Forest t) {x id : NodeId} :
    x ∈ t.descendants id ↔ t.IsBelow x id := by
  by_cases h : t.contains id = true
  · have hnd := F.nodup_walk id
    have hm : x ∈ t.walk id ↔ t.contains id = true ∧ (x = id ∨ t.IsBelow x id) := by
      rw [F.mem_walk_iff, isWithin_iff]
    rw [F.walk_eq h] at hnd hm
    rw [descendants, F.walk_eq h, List.drop_one, List.tail_cons]
    constructor
    · intro hx
      rcases (hm.1 (List.mem_cons_of_mem _ hx)).2 with rfl | hb
      · exact absurd hx (List.nodup_cons.1 hnd).1
      · exact hb
    · intro hb
      rcases List.mem_cons.1 (hm.2 ⟨h, .inr hb⟩) with rfl | hx
      · exact absurd hb (F.acyclic x)
      · exact hx
  · constructor
    · intro hx
      exact absurd (F.mem_walk_iff.1 (List.mem_of_mem_drop hx)).1 h
    · intro hb
      exact absurd (F.contains_above hb) h

end Forest

end ViewMarkup.ViewTree
