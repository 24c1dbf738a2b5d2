import ViewMarkup.Proofs.View.Edits
import ViewMarkup.Proofs.View.History

/-!
# Undoing an application

A component that is put on a new node can be taken back: when its definition was applied, whether that
has succeeded or failed, removing the node leaves the tree as it was before the node came. For all that
an application makes hangs below the node, however far it has come, and everything else is untouched.

## Main definitions

* `ViewTree.Sprouts` — a new node has come, with nodes below it.

## Main statements

* `ViewTree.Sprouts.slot?_remove` — removing the node takes away all that has come.
* `ViewTree.Sprouts.apply` — an application to a component without fields stays below its node.
-/

namespace ViewMarkup

variable {H : Type} {t t' : ViewTree H} {node : NodeId}

namespace ViewTree

/-- **A tree sprouts**: it is as it was, but for a node that stands by itself and all that is below
that node. -/
structure Sprouts (t : ViewTree H) (node : NodeId) (t' : ViewTree H) : Prop where
  /-- The links of the tree fit together. -/
  forest : t'.Forest
  /-- The node is new. -/
  fresh : t.contains node = false
  /-- The node is alive. -/
  contains : t'.contains node = true
  /-- The node stands by itself. -/
  parent?_eq : t'.parent? node = none
  /-- The other nodes are as they were. -/
  slot?_eq : ∀ x, t.contains x = true → t'.slot? x = t.slot? x
  /-- All that has come is below the node. -/
  isWithin : ∀ x, t'.contains x = true → t.contains x = false → t'.IsWithin x node

namespace Sprouts

/-- A node comes. -/
lemma insert (F : t.Forest) {n : ViewNode H} (h : t.insert n = (node, t')) : t.Sprouts node t' := by
  obtain ⟨rfl, rfl⟩ : (t.insert n).1 = node ∧ (t.insert n).2 = t' := by
    rw [h]
    exact ⟨rfl, rfl⟩
  exact
    { forest := F.insert n
      fresh := t.contains_fst_insert n
      contains := by rw [contains_insert, decide_eq_true rfl, Bool.true_or]
      parent?_eq := by rw [parent?_insert, parent?, slot?_fst_insert, Option.bind_none]
      slot?_eq := fun x hx => by
        rw [slot?_insert, if_neg]
        rintro rfl
        rw [contains_fst_insert] at hx
        cases hx
      isWithin := fun x hx hold => by
        rw [contains_insert, hold, Bool.or_false] at hx
        exact of_decide_eq_true hx ▸ .refl }

/-- None of the nodes that were there is below the new one. -/
lemma not_isWithin (F : t.Forest) (S : t.Sprouts node t') {x : NodeId} (hx : t.contains x = true) :
    ¬ t'.IsWithin x node := by
  have above : ∀ x, t'.IsWithin x node → t.contains x = false := by
    intro x h
    induction h using Relation.ReflTransGen.head_induction_on with
    | refl => exact S.fresh
    | head hp _ ih =>
      -- A node that was there would have had the same node above it.
      refine Bool.eq_false_iff.2 fun hx => ?_
      rw [parent?_congr (S.slot?_eq _ hx)] at hp
      rw [F.contains_parent hp] at ih
      cases ih
  exact fun h => Bool.false_ne_true ((above x h).symm.trans hx)

/-- **Removing the node takes away all that has come**, and leaves the rest. -/
theorem slot?_remove (F : t.Forest) (S : t.Sprouts node t') (x : NodeId) :
    (t'.remove node).2.slot? x = t.slot? x := by
  have alone : t'.detach node = t' := by rw [detach, S.parent?_eq]
  rw [S.forest.slot?_remove S.contains, alone]
  cases hx : t.contains x with
  | true =>
    rw [if_neg fun hm => S.not_isWithin F hx (S.forest.mem_walk_iff.1 hm).2, S.slot?_eq x hx]
  | false =>
    rw [slot?_eq_none hx]
    cases hx' : t'.contains x with
    | false => rw [slot?_eq_none hx', ite_self]
    | true => rw [if_pos (S.forest.mem_walk_iff.2 ⟨S.contains, S.isWithin x hx' hx⟩)]

/-- **An application stays below the node** of a component that holds no fields, whether it succeeds
or fails. -/
theorem apply [Widget H] {a : Applier H} (ha : a.KnowsParsed) {d : Definition} (hd : d.IsParsed)
    (F : t.Forest) (S : t.Sprouts node t') (typeName : String) :
    t.Sprouts node (a.apply t' (.adopting node typeName) d).2.1 := by
  obtain ⟨s', htree, -, K⟩ := Applier.keeps_apply (b := .adopting node typeName) ha hd
    (.start S.forest S.contains)
  rw [← htree]
  exact
    { forest := K.holds.forest
      fresh := S.fresh
      contains := K.holds.contains
      parent?_eq := K.parent?_root.trans S.parent?_eq
      slot?_eq := fun x hx => by
        have outside := S.not_isWithin F hx
        refine (K.slot?_eq x ?_ ?_ ?_ fun _ _ => nofun).trans (S.slot?_eq x hx)
        · rw [contains_congr (S.slot?_eq x hx)]
          exact hx
        · exact fun he => outside (isWithin_iff.2 (.inl he))
        · exact fun hb => outside (isWithin_iff.2 (.inr hb))
      isWithin := fun x hx hold => by
        obtain hb | ⟨hx₁, hheld⟩ := K.below_of_contains x hx
        · exact isWithin_iff.2 (.inr hb)
        · -- What has come before is the node alone, as no fields hold what was below it.
          obtain rfl | hb := isWithin_iff.1 (S.isWithin x hx₁ hold)
          · exact .refl
          · cases hheld hb }

end Sprouts

end ViewTree

end ViewMarkup
