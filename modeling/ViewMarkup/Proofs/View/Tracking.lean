import ViewMarkup.Proofs.View.Recording
import ViewMarkup.Proofs.View.Renaming

/-!
# Trees that agree on what may be touched

A tree is changed step by step, and another one in the same way. They have different surroundings:
what is reserved in one of them need not be there in the other. The nodes that may be touched
correspond, and new nodes get corresponding identities. Then whatever happens to such nodes happens to
their counterparts, since no change looks further than to nodes that may be touched and to what is
directly above these.

## Main definitions

* `ViewTree.Issued`, `ViewTree.Closed`, `ViewTree.Continues` — identities that were given out.
* `Reserve.Transfers` — the nodes that may be touched in a tree correspond to such nodes of another.
* `Reserve.Tracks` — a tree agrees with another one on the nodes that may be touched.

## Main statements

* `Reserve.Tracks.isBelow_iff` — the links between such nodes are the same.
* `Reserve.Tracks.insert`, `Reserve.Tracks.attach`, `Reserve.Tracks.clear` — changes of both trees.
-/

namespace ViewMarkup

open ViewTree

variable {H : Type} {t₀ r₀ t t' r : ViewTree H} {ρ : NodeId → NodeId}

/-! ### Identities that were given out -/

namespace ViewTree

/-- An identity was given out by a tree, whether or not its node is still alive. -/
def Issued (t : ViewTree H) (id : NodeId) : Prop := id.index < t.slots.size

/-- What constraints relate to was given out. -/
def Aims (t : ViewTree H) (cs : List LiveConstraint) : Prop :=
  ∀ c ∈ cs, ∀ id, c.target = .node id → t.Issued id

/-- What the constraints of all nodes relate to was given out. -/
def Closed (t : ViewTree H) : Prop := ∀ x n, t.get? x = some n → t.Aims n.constraints

/-- No node that was gone has come to life again. -/
def Continues (t₀ t : ViewTree H) : Prop :=
  ∀ x, t₀.Issued x → t.contains x = true → t₀.contains x = true

instance (t : ViewTree H) (id : NodeId) : Decidable (t.Issued id) :=
  inferInstanceAs (Decidable (_ < _))

/-- What was issued stays so in a tree that has grown. -/
lemma Issued.mono {id : NodeId} (h : t.Issued id) (hsize : t.slots.size ≤ t'.slots.size) :
    t'.Issued id := Nat.lt_of_lt_of_le h hsize

/-- A node that is there was issued. -/
lemma issued_of_contains {id : NodeId} (h : t.contains id = true) : t.Issued id :=
  index_lt_of_contains h

/-- Constraints that aim at issued nodes do so in a tree that has grown. -/
lemma Aims.mono {cs : List LiveConstraint} (h : t.Aims cs)
    (hsize : t.slots.size ≤ t'.slots.size) : t'.Aims cs :=
  fun c hc id hid => (h c hc id hid).mono hsize

/-- The empty tree is closed. -/
lemma Closed.empty : ({} : ViewTree H).Closed := fun _ _ h => (nomatch h)

/-- A closed tree stays so when it grows and no view is changed. -/
lemma Closed.mono (h : t.Closed) (hsize : t.slots.size ≤ t'.slots.size)
    (hget : ∀ x n, t'.get? x = some n → t.get? x = some n) : t'.Closed :=
  fun x n hn => (h x n (hget x n hn)).mono hsize

/-- It stays so when the constraints of a view are replaced by such that aim at issued nodes. -/
lemma Closed.modify (h : t.Closed) (id : NodeId) {f : ViewNode H → ViewNode H}
    (hf : ∀ n, t.Aims n.constraints → t.Aims (f n).constraints) : (t.modify id f).Closed := by
  intro x n hn
  have hsize : t.slots.size ≤ (t.modify id f).slots.size := (size_slots_modifySlot t id _).ge
  rw [get?_modify] at hn
  split at hn
  · obtain ⟨n', hn', rfl⟩ := Option.map_eq_some_iff.1 hn
    exact (hf n' (h x n' hn')).mono hsize
  · exact (h x n hn).mono hsize

/-- It stays so when a view without constraints is put in. -/
theorem Closed.insert (h : t.Closed) (v : VisualElement H) :
    (t.insert { element := v }).2.Closed := by
  intro x n hn
  rw [get?, slot?_insert] at hn
  split at hn
  · cases hn
    exact fun _ hc => (List.not_mem_nil hc).elim
  · exact (h x n hn).mono (by simp [ViewTree.insert])

/-- A tree continues itself. -/
lemma Continues.refl (t : ViewTree H) : t.Continues t := fun _ _ h => h

/-- Only new nodes come to life. -/
lemma Continues.mono (h : t₀.Continues t)
    (hc : ∀ x, t₀.Issued x → t'.contains x = true → t.contains x = true) : t₀.Continues t' :=
  fun x hx hx' => h x hx (hc x hx hx')

/-- A node that is as it was is alive. -/
lemma contains_of_get?_mono (hget : ∀ x n, t'.get? x = some n → t.get? x = some n) {x : NodeId}
    (h : t'.contains x = true) : t.contains x = true := by
  obtain ⟨slot, hslot⟩ := contains_iff.1 h
  obtain ⟨slot', hslot', -⟩ := Option.map_eq_some_iff.1 (hget x _ (get?_of_slot? hslot))
  exact contains_iff.2 ⟨slot', hslot'⟩

/-- A node that was issued and is there after another one was put in was there before. -/
lemma contains_of_contains_insert {node : ViewNode H} {x : NodeId} (hx : t.Issued x)
    (h : (t.insert node).2.contains x = true) : t.contains x = true := by
  rw [contains, slot?_insert, if_neg] at h
  · exact h
  · rintro rfl
    exact Nat.lt_irrefl _ hx

/-- What is above a node follows a renaming of what the node holds. -/
lemma parent?_rename {x y : NodeId} (h : t'.slot? y = (t.slot? x).map (·.rename ρ)) :
    t'.parent? y = (t.parent? x).map ρ := by
  rw [parent?, parent?, h]
  cases t.slot? x with
  | none => rfl
  | some slot =>
    simp only [Option.map_some, Option.bind_some, Slot.rename, Option.map_map]
    rfl

end ViewTree

namespace Reserve

variable {E : Reserve t₀} {E' : Reserve r₀}

/-! ### Nodes that correspond -/

/-- **The nodes that may be touched in a tree correspond to such nodes of another one**: different
nodes to different ones, new nodes to new ones in the same order, and what is reserved above such a
node to what is reserved there. -/
structure Transfers (E : Reserve t₀) (E' : Reserve r₀) (ρ : NodeId → NodeId) : Prop where
  injective : Function.Injective ρ
  /-- New nodes correspond to new nodes. -/
  rename_new : ∀ k, ρ ⟨t₀.slots.size + k⟩ = ⟨r₀.slots.size + k⟩
  /-- What may be touched here may be touched there. -/
  not_isReserved : ∀ x, ¬ E.isReserved x → ¬ E'.isReserved (ρ x)
  /-- What is reserved above is reserved there. -/
  isReserved_parent : ∀ x p, ¬ E.isReserved x → t₀.parent? x = some p → E.isReserved p →
    E'.isReserved (ρ p)

/-- **A tree agrees with another one on the nodes that may be touched**: they hold the same there, with
other identities. Both trees have kept their reserves. -/
structure Tracks (E : Reserve t₀) (E' : Reserve r₀) (ρ : NodeId → NodeId) (t r : ViewTree H) :
    Prop where
  left : E.Keeps t
  right : E'.Keeps r
  continues_left : t₀.Continues t
  continues_right : r₀.Continues r
  closed : t.Closed
  /-- As many nodes are new in both trees. -/
  exists_size_eq : ∃ k, t.slots.size = t₀.slots.size + k ∧ r.slots.size = r₀.slots.size + k
  /-- What may be touched holds the same. -/
  slot?_rename : ∀ x, ¬ E.isReserved x → r.slot? (ρ x) = (t.slot? x).map (·.rename ρ)

namespace Tracks

variable (M : Transfers E E' ρ) (T : Tracks E E' ρ t r)

include T

/-- A tracked node is there if its image is. -/
lemma contains_eq {x : NodeId} (hx : ¬ E.isReserved x) : r.contains (ρ x) = t.contains x := by
  rw [ViewTree.contains, ViewTree.contains, T.slot?_rename x hx, Option.isSome_map]

/-- The parent of its image is the image of its parent. -/
lemma parent?_eq {x : NodeId} (hx : ¬ E.isReserved x) :
    r.parent? (ρ x) = (t.parent? x).map ρ := parent?_rename (T.slot?_rename x hx)

/-- The view of its image is its view, renamed. -/
lemma get?_eq {x : NodeId} (hx : ¬ E.isReserved x) :
    r.get? (ρ x) = (t.get? x).map (·.rename ρ) := by
  rw [get?, get?, T.slot?_rename x hx, Option.map_map, Option.map_map]
  rfl

include M

/-- What is above a node that may be touched is above its counterpart. -/
lemma parent?_eq_some_iff {x p : NodeId} (hx : ¬ E.isReserved x) :
    r.parent? (ρ x) = some (ρ p) ↔ t.parent? x = some p := by
  rw [T.parent?_eq hx, ← Option.map_some, (Option.map_injective M.injective).eq_iff]

/-- **The links between nodes that may be touched are the same.** A way up that leaves these nodes
does not come back to them. -/
theorem isBelow_iff {x above : NodeId} (hx : ¬ E.isReserved x) (ha : ¬ E.isReserved above) :
    r.IsBelow (ρ x) (ρ above) ↔ t.IsBelow x above := by
  constructor
  · intro h
    generalize hy : ρ x = y at h
    induction h using Relation.TransGen.head_induction_on generalizing x with
    | single hp =>
      subst hy
      exact .single ((T.parent?_eq_some_iff M hx).1 hp)
    | head hp hb ih =>
      subst hy
      obtain ⟨p, hp', rfl⟩ := Option.map_eq_some_iff.1 ((T.parent?_eq hx).symm.trans hp)
      refine .head hp' (ih (fun hres => ?_) rfl)
      have hp₀ := T.left.parent?_of_isReserved hres hp'
      exact T.right.not_isReserved_of_isBelow hb (M.not_isReserved _ ha)
        (M.isReserved_parent x p hx hp₀ hres)
  · intro h
    induction h using Relation.TransGen.head_induction_on with
    | single hp => exact .single ((T.parent?_eq_some_iff M hx).2 hp)
    | head hp hb ih =>
      exact .head ((T.parent?_eq_some_iff M hx).2 hp)
        (ih (T.left.not_isReserved_of_isBelow hb ha))

/-! ### Changes of both trees -/

/-- A change of a node is tracked if its image is changed alike. -/
lemma modify {id : NodeId} (hid : ¬ E.isReserved id) {f g : ViewNode H → ViewNode H}
    (hfg : ∀ n, g (n.rename ρ) = (f n).rename ρ)
    (hf : ∀ n, t.Aims n.constraints → t.Aims (f n).constraints) :
    Tracks E E' ρ (t.modify id f) (r.modify (ρ id) g) where
  left := T.left.modify hid f
  right := T.right.modify (M.not_isReserved id hid) g
  continues_left := T.continues_left.mono fun x _ h => by rwa [contains_modify] at h
  continues_right := T.continues_right.mono fun x _ h => by rwa [contains_modify] at h
  closed := T.closed.modify id hf
  exists_size_eq := by
    simp only [ViewTree.modify, size_slots_modifySlot]
    exact T.exists_size_eq
  slot?_rename x hx := by
    rw [slot?_modify, slot?_modify, T.slot?_rename x hx]
    simp only [M.injective.eq_iff]
    split
    · rw [Option.map_map, Option.map_map]
      refine Option.map_congr fun slot _ => ?_
      simp only [Function.comp_apply, Slot.rename, hfg]
    · rfl

/-- New nodes of both trees correspond. -/
lemma fst_insert (v : VisualElement H) :
    (r.insert { element := v }).1 = ρ (t.insert { element := v }).1 := by
  obtain ⟨k, ht, hr⟩ := T.exists_size_eq
  simp only [ViewTree.insert, ht, hr, M.rename_new]

/-- A new node is tracked by a new node. -/
theorem insert (v : VisualElement H) :
    Tracks E E' ρ (t.insert { element := v }).2 (r.insert { element := v }).2 where
  left := T.left.insert _
  right := T.right.insert _
  continues_left := T.continues_left.mono fun _ hx =>
    contains_of_contains_insert (hx.mono T.left.size_le)
  continues_right := T.continues_right.mono fun _ hx =>
    contains_of_contains_insert (hx.mono T.right.size_le)
  closed := T.closed.insert v
  exists_size_eq := by
    obtain ⟨k, ht, hr⟩ := T.exists_size_eq
    exact ⟨k + 1, by simp [ViewTree.insert, ht]; omega, by simp [ViewTree.insert, hr]; omega⟩
  slot?_rename x hx := by
    rw [slot?_insert, slot?_insert, T.fst_insert M v, T.slot?_rename x hx]
    simp only [M.injective.eq_iff]
    split <;> rfl

/-- A node may go below another one in both trees or in none. -/
lemma canAttach_eq {id parent : NodeId} (hid : ¬ E.isReserved id) (hp : ¬ E.isReserved parent) :
    r.canAttach (ρ id) (ρ parent) = t.canAttach id parent := by
  rw [Bool.eq_iff_iff, canAttach_iff, canAttach_iff, T.contains_eq hid, T.contains_eq hp,
    T.right.forest.mem_ancestors_iff, T.left.forest.mem_ancestors_iff, T.isBelow_iff M hp hid,
    M.injective.ne_iff]

/-- **A node goes below another one**, if it may. -/
theorem attach {id parent : NodeId} (hid : E.IsMovable id) (hid' : E'.IsMovable (ρ id))
    (hp : ¬ E.isReserved parent) (arranged : Bool) :
    Tracks E E' ρ ((t.attach? id parent arranged).getD t)
      ((r.attach? (ρ id) (ρ parent) arranged).getD r) := by
  have hsome := (isSome_attach? r (ρ id) (ρ parent) arranged).trans
    ((T.canAttach_eq M hid.1 hp).trans (isSome_attach? t id parent arranged).symm)
  cases ht : t.attach? id parent arranged with
  | none =>
    rw [ht, Option.isSome_none, Option.isSome_eq_false_iff, Option.isNone_iff_eq_none] at hsome
    rw [hsome]
    exact T
  | some t' =>
    rw [ht, Option.isSome_some] at hsome
    obtain ⟨r', hr⟩ := Option.isSome_iff_exists.1 hsome
    rw [hr]
    exact
      { left := T.left.attach? hid hp ht
        right := T.right.attach? hid' (M.not_isReserved parent hp) hr
        continues_left := T.continues_left.mono fun x _ h => by
          rwa [Option.getD_some, contains_attach? ht] at h
        continues_right := T.continues_right.mono fun x _ h => by
          rwa [Option.getD_some, contains_attach? hr] at h
        closed := T.closed.mono (size_slots_attach? ht).ge fun x n hn => by
          rwa [Option.getD_some, get?_attach? ht] at hn
        exists_size_eq := by
          rw [Option.getD_some, Option.getD_some, size_slots_attach? ht, size_slots_attach? hr]
          exact T.exists_size_eq
        slot?_rename := fun x hx => by
          rw [Option.getD_some, Option.getD_some, slot?_attach? ht, slot?_attach? hr, slot?_detach,
            slot?_detach, T.slot?_rename x hx]
          simp only [T.parent?_eq_some_iff M hid.1, M.injective.eq_iff, Option.map_map]
          refine Option.map_congr fun slot _ => ?_
          have hfilter : (slot.children.map ρ).filter (· ≠ ρ id) =
              (slot.children.filter (· ≠ id)).map ρ := by
            rw [List.filter_map]
            refine congrArg _ (List.filter_congr fun c _ => ?_)
            simp [M.injective.eq_iff]
          simp only [Function.comp_apply, Slot.rename, hfilter]
          split <;> split <;> split <;> simp }

/-- **What is below a node is taken apart.** -/
theorem clear {root : NodeId} (hroot : ¬ E.isReserved root) (keep : List NodeId) :
    Tracks E E' ρ (Applier.clear t root keep) (Applier.clear r (ρ root) (keep.map ρ)) where
  left := T.left.clear hroot keep
  right := T.right.clear (M.not_isReserved root hroot) _
  continues_left := T.continues_left.mono fun x _ =>
    contains_of_get?_mono fun _ _ => Applier.get?_of_get?_clear
  continues_right := T.continues_right.mono fun x _ =>
    contains_of_get?_mono fun _ _ => Applier.get?_of_get?_clear
  closed := T.closed.mono (Applier.size_slots_clear t root keep).ge fun _ _ =>
    Applier.get?_of_get?_clear
  exists_size_eq := by
    rw [Applier.size_slots_clear, Applier.size_slots_clear]
    exact T.exists_size_eq
  slot?_rename x hx := by
    have below : ρ x ∈ r.descendants (ρ root) ↔ x ∈ t.descendants root := by
      rw [T.right.forest.mem_descendants_iff, T.left.forest.mem_descendants_iff,
        T.isBelow_iff M hx hroot]
    rw [Applier.slot?_clear _ _ T.left.forest, Applier.slot?_clear _ _ T.right.forest,
      T.slot?_rename x hx]
    simp only [below, List.mem_map_of_injective M.injective, M.injective.eq_iff]
    split
    · split
      · rw [Option.map_map, Option.map_map]
        rfl
      · rfl
    · split
      · rw [Option.map_map, Option.map_map]
        rfl
      · rfl

end Tracks

end Reserve

end ViewMarkup
