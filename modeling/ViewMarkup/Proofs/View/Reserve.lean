import ViewMarkup.Proofs.View.Edits
import ViewMarkup.Proofs.View.History
import ViewMarkup.Proofs.View.Library

/-!
# What an application leaves alone

An application destroys, detaches and moves nodes, and it may stop at any of these steps. Whatever
it does, it does below the component's node, to nodes that the component holds as fields, and to
nodes that it made itself. All other nodes are reserved. A reserved node keeps all that it holds
and its place; of its children it can only lose some that are held as fields.

Nothing is assumed of the definition, the library, the styles or the host, and nothing of the nodes
that the fields hold: they may stand anywhere, also above the component's node, and several fields
may hold the same one. So the steps are followed with no more than the forest and the two facts
that make a reserve stable: what is above a reserved node is reserved, and what an application puts
somewhere is held by a field or new.

## Main definitions

* `Reserve` — the nodes that may not be touched, and the nodes that may be taken from them.
* `Reserve.Keeps` — a tree in which the reserve is as it was.
* `Reserve.Respects` — a run of an application that has kept the reserve so far.
* `Reserve.ofBinding` — what is reserved when a component is applied.

## Main statements

* `Reserve.Keeps.clear`, `Reserve.Keeps.attach?` — the changes that could reach out.
* `Reserve.applyScope_respects` — a whole application keeps the reserve.
* `Applier.apply_keeps_rest` — the same for a component, node by node.
-/

namespace ViewMarkup

open ViewTree

variable {H : Type} {t₀ t t' : ViewTree H}

/-! ### Slots are never taken back -/

namespace ViewTree

/-- Removing a node adds no slot. -/
lemma size_slots_remove (t : ViewTree H) (id : NodeId) :
    (t.remove id).2.slots.size = t.slots.size := by
  unfold remove
  split
  · rw [size_slots_removeQueue, size_slots_detach]
  · rfl

end ViewTree

/-- Clearing a tree adds no slot. -/
lemma Applier.size_slots_clear (t : ViewTree H) (root : NodeId) (keep : List NodeId) :
    (clear t root keep).slots.size = t.slots.size := by
  unfold clear
  have hdetach : ∀ (ids : List NodeId) (t : ViewTree H),
      (ids.foldl detach t).slots.size = t.slots.size := fun ids => by
    induction ids with
    | nil => exact fun _ => rfl
    | cons id ids ih => exact fun t => (ih _).trans (size_slots_detach t id)
  have hremove : ∀ (ids : List NodeId) (t : ViewTree H),
      (ids.foldl (fun t id => (t.remove id).2) t).slots.size = t.slots.size := fun ids => by
    induction ids with
    | nil => exact fun _ => rfl
    | cons id ids ih => exact fun t => (ih _).trans (size_slots_remove t id)
  rw [hremove, hdetach]

/-! ### Reserved nodes -/

/-- A part of a tree that may not be touched, with the nodes that may be taken away from it. -/
structure Reserve (t₀ : ViewTree H) where
  /-- The nodes that may not be touched. -/
  isReserved : NodeId → Prop
  /-- The nodes that may be moved. -/
  isHeld : NodeId → Prop
  forest : t₀.Forest
  /-- Only living nodes are reserved. -/
  contains : ∀ x, isReserved x → t₀.contains x = true
  /-- What is above a reserved node is reserved. -/
  parent : ∀ x p, isReserved x → t₀.parent? x = some p → isReserved p

namespace Reserve

variable (E : Reserve t₀)

/-- A node that an application may put somewhere: it is not reserved, and it is held or it was not
alive before. -/
def IsMovable (id : NodeId) : Prop :=
  ¬ E.isReserved id ∧ (E.isHeld id ∨ t₀.contains id = false)

/-- The reserve is as it was: each node is as before, except that held nodes may be gone
from its children. -/
structure Keeps (t : ViewTree H) : Prop where
  forest : t.Forest
  /-- No slot is taken back. -/
  size_le : t₀.slots.size ≤ t.slots.size
  slot? : ∀ x slot, E.isReserved x → t₀.slot? x = some slot → ∃ moved : List NodeId,
    (∀ c ∈ moved, E.isHeld c) ∧
      t.slot? x = some { slot with children := slot.children.filter (· ∉ moved) }

/-- What is reserved is kept as it is. -/
lemma Keeps.refl : E.Keeps t₀ where
  forest := E.forest
  size_le := Nat.le_refl _
  slot? x slot _ h := ⟨[], by simp, by simpa using h⟩

variable {E}

namespace Keeps

/-- Protected nodes are alive. -/
lemma exists_slot? (K : E.Keeps t) {x : NodeId} (hx : E.isReserved x) :
    ∃ (slot : Slot H) (moved : List NodeId), t₀.slot? x = some slot ∧ (∀ c ∈ moved, E.isHeld c) ∧
      t.slot? x = some { slot with children := slot.children.filter (· ∉ moved) } := by
  obtain ⟨slot, hslot⟩ := contains_iff.1 (E.contains x hx)
  obtain ⟨moved, hmoved, h⟩ := K.slot? x slot hx hslot
  exact ⟨slot, moved, hslot, hmoved, h⟩

/-- What is reserved is there. -/
lemma contains (K : E.Keeps t) {x : NodeId} (hx : E.isReserved x) : t.contains x = true := by
  obtain ⟨_, _, _, _, h⟩ := K.exists_slot? hx
  exact contains_iff.2 ⟨_, h⟩

/-- What was above a reserved node still is. -/
lemma parent?_eq (K : E.Keeps t) {x : NodeId} (hx : E.isReserved x) :
    t.parent? x = t₀.parent? x := by
  obtain ⟨_, _, h₀, _, h⟩ := K.exists_slot? hx
  rw [parent?_of_slot? h, parent?_of_slot? h₀]

/-- What is below a reserved node was below it before. -/
lemma parent?_of_isReserved (K : E.Keeps t) {c x : NodeId} (hx : E.isReserved x)
    (h : t.parent? c = some x) : t₀.parent? c = some x := by
  obtain ⟨slot, moved, h₀, _, ht⟩ := K.exists_slot? hx
  rw [← K.forest.mem_children_iff, children_of_slot? ht] at h
  rw [← E.forest.mem_children_iff, children_of_slot? h₀]
  exact (List.mem_filter.1 h).1

/-- No reserved node is below one that is not. -/
lemma not_isReserved_of_isBelow (K : E.Keeps t) {x above : NodeId} (h : t.IsBelow x above)
    (ha : ¬ E.isReserved above) : ¬ E.isReserved x := by
  induction h using Relation.TransGen.head_induction_on with
  | single hp => exact fun hx => ha (E.parent _ _ hx (K.parent?_eq hx ▸ hp))
  | head hp _ ih => exact fun hx => ih (E.parent _ _ hx (K.parent?_eq hx ▸ hp))

/-! ### The changes of a tree -/

/-- A change that leaves reserved nodes alone keeps the reserve. -/
lemma congr (K : E.Keeps t) (hforest : t'.Forest) (hsize : t.slots.size ≤ t'.slots.size)
    (h : ∀ x, E.isReserved x → t'.slot? x = t.slot? x) : E.Keeps t' where
  forest := hforest
  size_le := K.size_le.trans hsize
  slot? x slot hx hslot := by
    rw [h x hx]
    exact K.slot? x slot hx hslot

/-- Changing a node that is not reserved keeps what is. -/
lemma modify (K : E.Keeps t) {id : NodeId} (hid : ¬ E.isReserved id)
    (f : ViewNode H → ViewNode H) : E.Keeps (t.modify id f) := by
  refine K.congr (K.forest.modify id f) (size_slots_modifySlot t id _).ge fun x hx => ?_
  rw [slot?_modify, if_neg fun (h : id = x) => hid (h ▸ hx)]

/-- So does replacing the constraints of such nodes. -/
lemma foldl_modify (K : E.Keeps t) {changes : List (NodeId × List LiveConstraint)}
    (h : ∀ change ∈ changes, ¬ E.isReserved change.1) :
    E.Keeps (changes.foldl (fun t (id, cs) => t.modify id fun n => { n with constraints := cs })
      t) := by
  induction changes generalizing t with
  | nil => exact K
  | cons change changes ih =>
    obtain ⟨hfirst, hothers⟩ := List.forall_mem_cons.1 h
    exact ih (K.modify hfirst _) hothers

/-- So does a new node. -/
lemma insert (K : E.Keeps t) (node : ViewNode H) : E.Keeps (t.insert node).2 := by
  refine K.congr (K.forest.insert node) (by simp [ViewTree.insert]) fun x hx => ?_
  rw [slot?_insert, if_neg]
  rintro rfl
  have := K.contains hx
  rw [contains_fst_insert] at this
  cases this

/-- The node that is inserted was not alive before. -/
lemma isMovable_insert (K : E.Keeps t) (node : ViewNode H) :
    E.IsMovable (t.insert node).1 := by
  have hdead : t₀.contains (t.insert node).1 = false := by
    rw [Bool.eq_false_iff]
    intro h
    have := index_lt_of_contains h
    have := K.size_le
    simp only [ViewTree.insert] at *
    omega
  refine ⟨fun hx => ?_, .inr hdead⟩
  rw [E.contains _ hx] at hdead
  cases hdead

/-- **Moving a node keeps the reserve** if the node may be moved and goes to one that is not
reserved. The only reserved node that can notice is the one above it before. -/
theorem attach? (K : E.Keeps t) {id parent : NodeId} {arranged : Bool} (hid : E.IsMovable id)
    (hparent : ¬ E.isReserved parent) (h : t.attach? id parent arranged = some t') :
    E.Keeps t' where
  forest := K.forest.attach? h
  size_le := K.size_le.trans (size_slots_attach? h).ge
  slot? x slot hx hslot := by
    obtain ⟨moved, hmoved, ht⟩ := K.slot? x slot hx hslot
    have hne : id ≠ x := fun he => hid.1 (he ▸ hx)
    have hnp : parent ≠ x := fun he => hparent (he ▸ hx)
    rw [slot?_attach? h, slot?_detach, ht]
    simp only [Option.map_some, hne, hnp, if_false]
    by_cases hp : t.parent? id = some x
    · refine ⟨id :: moved, List.forall_mem_cons.2 ⟨?_, hmoved⟩, ?_⟩
      · exact hid.2.resolve_right fun hdead => by
          rw [contains_of_parent? (K.parent?_of_isReserved hx hp)] at hdead
          cases hdead
      · simp [hp, List.filter_filter]
    · exact ⟨moved, hmoved, by simp [hp]⟩

/-- **Taking apart what is below a node keeps the reserve** if the node is not reserved. -/
theorem clear (K : E.Keeps t) {root : NodeId} (hroot : ¬ E.isReserved root) (keep : List NodeId) :
    E.Keeps (Applier.clear t root keep) := by
  refine K.congr (Applier.forest_clear root keep K.forest)
    (Applier.size_slots_clear t root keep).ge fun x hx => ?_
  rw [Applier.slot?_clear root keep K.forest, if_neg, if_neg]
  · rintro rfl
    exact hroot hx
  · rw [K.forest.mem_descendants_iff]
    exact fun hb => K.not_isReserved_of_isBelow hb hroot hx

end Keeps

/-! ### The steps of an application -/

variable (E)

/-- A run that has kept the reserve so far, and has no handles for changing it. -/
structure Respects (s : Run H) : Prop where
  tree : E.Keeps s.tree
  fields : ∀ f id, s.fields.get? f = some id → E.IsMovable id
  placed : ∀ p ∈ s.placed, ¬ E.isReserved p.node

/-- A step keeps the reserve, also if it fails. -/
def Respected {α : Type} (x : Live H α) : Prop :=
  ∀ s, E.Respects s → Live.Meets s x (fun _ s' => E.Respects s') E.Respects

variable {E} {a : Applier H}

namespace Respected

variable {α β : Type}

/-- A result without a step respects what is reserved. -/
lemma pure (v : α) : E.Respected (Pure.pure v) := fun _ R => R

/-- So does an error. -/
lemma throw (e : ApplyError) : E.Respected (MonadExcept.throw e : Live H α) := fun _ R => R

/-- So does one step after the other. -/
lemma bind {x : Live H α} {f : α → Live H β} (hx : E.Respected x)
    (hf : ∀ v, E.Respected (f v)) : E.Respected (x >>= f) := fun s R =>
  Live.Meets.bind ((hx s R).imp (fun v s' R' => hf v s' R') fun _ R' => R')

/-- A scope of its own begins without handles, and the one around it goes on with its own. -/
lemma inNewScope {x : Live H α} (hx : E.Respected x) : E.Respected (Applier.inNewScope x) := by
  intro s R
  have h := hx { s with fields := {}, placed := [] }
    { tree := R.tree, fields := fun _ _ h => (nomatch h), placed := fun _ hp => (nomatch hp) }
  unfold Live.Meets at *
  unfold Applier.inNewScope
  cases hs : x { s with fields := {}, placed := [] } with
  | ok v s' =>
    rw [hs] at h
    exact ⟨h.tree, R.fields, R.placed⟩
  | error e s' =>
    rw [hs] at h
    exact ⟨h.tree, R.fields, R.placed⟩

end Respected

section Steps

/-- The node of an element may be moved. -/
lemma nodeFor_respects (root : ScopeRoot) (e : Element) {s : Run H} (R : E.Respects s) :
    Live.Meets s (a.nodeFor root e) (fun id s' => E.Respects s' ∧ E.IsMovable id)
      E.Respects := by
  have new : Live.Meets s (a.insertNew e) (fun id s' => E.Respects s' ∧ E.IsMovable id)
      E.Respects := by
    unfold Live.Meets Applier.insertNew
    cases a.create e with
    | error error => exact R
    | ok element =>
      exact ⟨⟨R.tree.insert { element }, R.fields, R.placed⟩, R.tree.isMovable_insert { element }⟩
  unfold Applier.nodeFor
  split
  · exact new
  · rename_i field _
    refine Live.Meets.bind ?_
    rw [Live.meets_get]
    split
    · rename_i id hid
      exact ⟨R, R.fields field id (Option.filter_eq_some_iff.1 hid).1⟩
    · split
      · refine Live.Meets.bind (new.imp (fun id s' h => ?_) fun _ h => h)
        refine Live.Meets.bind ?_
        rw [Live.meets_modify]
        refine ⟨⟨h.1.tree, fun f x hx => ?_, h.1.placed⟩, h.2⟩
        rw [Table.get?_insert] at hx
        split at hx
        · cases hx
          exact h.2
        · exact h.1.fields f x hx
      · exact R

variable [Widget H]

/-- The assignment of properties to a node that is not reserved respects those that are. -/
lemma assign_respected {id : NodeId} (hid : ¬ E.isReserved id) (kind : Kind)
    (typeName element : String) (r : Resolved) :
    E.Respected (a.assign id kind typeName element r) := by
  intro s R
  obtain ⟨warnings, h⟩ := a.assign_eq id kind typeName element r s
  rw [Live.Meets, h]
  exact ⟨R.tree.modify hid _, R.fields, R.placed⟩

/-- An element is placed below a node that is not reserved, and its own node is not reserved
either. -/
lemma placeOne_respects (root : ScopeRoot) (d : Definition) {parent : NodeId}
    (hparent : ¬ E.isReserved parent) (parentKind : Kind) (e : Element) {s : Run H}
    (R : E.Respects s) :
    Live.Meets s (a.placeOne root d parent parentKind e)
      (fun id s' => E.Respects s' ∧ ¬ E.isReserved id) E.Respects := by
  unfold Applier.placeOne
  refine Live.Meets.bind ((nodeFor_respects root e R).imp (fun id s₁ ⟨R₁, hid⟩ => ?_) fun _ h => h)
  refine Live.Meets.bind ?_
  rw [Live.meets_modify]
  have R₂ : E.Respects { s₁ with tree := s₁.tree.modify id (Applier.prepare e) } :=
    ⟨R₁.tree.modify hid.1 _, R₁.fields, R₁.placed⟩
  refine Live.Meets.bind
    ((assign_respected hid.1 _ _ _ _ _ R₂).imp (fun _ s₃ R₃ => ?_) fun _ h => h)
  refine Live.Meets.bind ?_
  rw [Live.meets_modify]
  refine ⟨⟨?_, R₃.fields, fun p hp => ?_⟩, hid.1⟩
  · cases h : s₃.tree.attach? id parent parentKind.arrangesChildren with
    | none => exact R₃.tree
    | some t' => exact R₃.tree.attach? hid hparent h
  · obtain hp | hp := List.mem_append.1 hp
    · exact R₃.placed p hp
    · rw [List.mem_singleton.1 hp]
      exact hid.1

/-- The beginning of a scope respects what is reserved, if its root is not. -/
lemma beginScope_respected {root : ScopeRoot} (hroot : ¬ E.isReserved root.node)
    (d : Definition) : E.Respected (a.beginScope root d) := by
  intro s R
  unfold Applier.beginScope
  refine Live.Meets.bind ?_
  rw [Live.meets_get]
  split
  · refine Live.Meets.bind ?_
    rw [Live.meets_set]
    exact assign_respected hroot _ _ _ _ _ ⟨R.tree.clear hroot _, R.fields, R.placed⟩
  · exact R

omit [Widget H] in
/-- The constraints go to nodes of the scope. -/
lemma constrain_respected (typeName : String) :
    E.Respected (Applier.constrain typeName : Live H _) := by
  intro s R
  unfold Live.Meets Applier.constrain
  cases hr : Applier.allConstraints typeName s.placed with
  | error e => exact R
  | ok rebuilt =>
    have hnodes : ∀ r ∈ rebuilt, ¬ E.isReserved r.1 := fun r hm => by
      obtain ⟨p, hp, h⟩ := Except.exists_of_forall₂ (Except.mapM_eq_ok.1 hr).flip hm
      obtain ⟨cs, -, rfl⟩ := Except.map_eq_ok.1 h
      exact R.placed p hp
    exact ⟨R.tree.foldl_modify hnodes, R.fields, R.placed⟩

end Steps

/-! ### The induction over the application -/

section Induction

variable [Widget H] (E a)

/-- What is to be shown of applying a definition: below a node that is not reserved it keeps the
reserve. -/
def ScopeRespects (active : List String) (root : ScopeRoot) (d : Definition) : Prop :=
  ¬ E.isReserved root.node → E.Respected (a.applyScope active root d)

/-- What is to be shown of placing elements. -/
def AllRespect (active : List String) (root : ScopeRoot) (d : Definition) (parent : NodeId)
    (parentKind : Kind) (es : List Element) : Prop :=
  ¬ E.isReserved parent → E.Respected (a.placeAll active root d parent parentKind es)

/-- What is to be shown of placing an element. -/
def OneRespects (active : List String) (root : ScopeRoot) (d : Definition) (parent : NodeId)
    (parentKind : Kind) (e : Element) : Prop :=
  ¬ E.isReserved parent → E.Respected (a.place active root d parent parentKind e)

/-- What is to be shown of applying the definition of a component. -/
def ReferenceRespects (active : List String) (typeName element : String) (id : NodeId)
    (r : Option TypeReference) : Prop :=
  ¬ E.isReserved id → E.Respected (a.applyReference active typeName element id r)

omit [Widget H] in
/-- A warning respects what is reserved. -/
lemma warn_respected (w : ApplyWarning) : E.Respected (Applier.warn w : Live H Unit) :=
  fun _ R => ⟨R.tree, R.fields, R.placed⟩

variable {E a}

/-- The step of the induction: an element respects what is reserved if its reference does, and the
elements inside it. -/
lemma oneRespects {active : List String} {root : ScopeRoot} {d : Definition} {parent : NodeId}
    {parentKind : Kind} {e : Element}
    (hr : ∀ id, ReferenceRespects E a active d.typeName e.name id e.reference)
    (hc : ∀ id, AllRespect E a active root d id e.kind e.children) :
    OneRespects E a active root d parent parentKind e := by
  intro hparent s R
  rw [Applier.place]
  refine Live.Meets.bind ((placeOne_respects root d hparent parentKind e R).imp ?_ fun _ h => h)
  rintro id s₁ ⟨R₁, hid⟩
  have reference : E.Respected (if e.kind = .component then
      a.applyReference active d.typeName e.name id e.reference else Pure.pure ()) := by
    split
    · exact hr id hid
    · exact .pure ()
  simp only
  split
  · exact ((hc id hid).bind fun _ => reference) s₁ R₁
  · exact reference s₁ R₁

/-- A scope that is entered respects it if the scope does. -/
lemma entered_respected {active : List String} {id : NodeId} {nested : Definition}
    (hid : ¬ E.isReserved id)
    (h : ScopeRespects E a (nested.typeName :: active) ⟨id, nested.typeName, true⟩ nested) :
    E.Respected (Applier.inNewScope do
      let _ ← a.applyScope (nested.typeName :: active) ⟨id, nested.typeName, true⟩ nested) :=
  ((h hid).bind fun _ => .pure ()).inNewScope

variable (E a)

/-- **An application keeps the reserve**, however far it comes.

**Proof sketch.** Induction over the application, with one case for each of its functions. Nodes are
only changed below nodes that are not reserved, and no reserved node is below such a node. The nodes
that are put somewhere come from the fields of the scope or are new. -/
theorem applyScope_respects (active : List String) (root : ScopeRoot) (d : Definition) :
    ScopeRespects E a active root d := by
  refine (Applier.applyScope.mutual_induct a (ScopeRespects E a) (AllRespect E a)
    (OneRespects E a) (ReferenceRespects E a)
    ?scope ?nil ?cons ?one ?none ?inlineActive ?inline ?unknown ?namedActive ?named).1
    active root d
  case scope =>
    intro active root d h hroot
    rw [Applier.applyScope]
    exact (beginScope_respected hroot d).bind fun _ => (h hroot).bind fun _ =>
      constrain_respected d.typeName
  case nil =>
    intro active root d parent parentKind _
    rw [Applier.placeAll]
    exact .pure ()
  case cons =>
    intro active root d parent parentKind e es h h' hparent
    rw [Applier.placeAll]
    exact (h hparent).bind fun _ => h' hparent
  case one => exact fun _ _ _ _ _ _ hr hc => oneRespects hr hc
  case none =>
    intro active typeName element id _
    rw [Applier.applyReference]
    exact .pure ()
  case inlineActive =>
    intro active typeName element id nested hn _
    rw [Applier.applyReference, if_pos hn]
    exact warn_respected E _
  case inline =>
    intro active typeName element id nested hn h hid
    rw [Applier.applyReference, if_neg hn]
    exact entered_respected hid h
  case unknown =>
    intro active typeName element id name hname _
    rw [Applier.applyReference_named, hname]
    exact .pure ()
  case namedActive =>
    intro active typeName element id name nested hname hn _
    rw [Applier.applyReference_named, hname]
    simp only [if_pos hn]
    exact warn_respected E _
  case named =>
    intro active typeName element id name nested hname hn h hid
    rw [Applier.applyReference_named, hname]
    simp only [if_neg hn]
    exact entered_respected hid h

end Induction

/-! ### The reserve of a component -/

/-- **What is reserved when a component is applied**: the nodes that are neither the component's
node nor held by one of its fields, nor below one of these. -/
def ofBinding (F : t.Forest) (b : Binding) : Reserve t where
  isReserved x := t.contains x = true ∧ ¬ t.IsWithin x b.node ∧
    ∀ f id, b.fields.get? f = some id → ¬ t.IsWithin x id
  isHeld c := ∃ f, b.fields.get? f = some c
  forest := F
  contains _ h := h.1
  parent _ _ h hp := ⟨F.contains_parent hp, fun hw => h.2.1 (.head hp hw),
    fun f id hf hw => h.2.2 f id hf (.head hp hw)⟩

/-- A run respects what is reserved from its component. -/
lemma respects_ofBinding (F : t.Forest) (b : Binding) :
    (ofBinding F b).Respects { tree := t, fields := b.fields } where
  tree := .refl _
  fields f id h := ⟨fun hr => hr.2.2 f id h .refl, .inl ⟨f, h⟩⟩
  placed _ hp := nomatch hp

end Reserve

namespace Applier

variable [Widget H] (a : Applier H)

/-- **What an application leaves alone.** Whatever the definition, the library, the styles and the
host are, and whether the application succeeds or fails: the tree stays a forest, and every living
node that is neither the component's node nor held by one of its fields, nor below one of these, is
as it was, with the same place. Of its children only nodes that are held by fields may have been
moved away. -/
theorem apply_keeps_rest (F : t.Forest) (b : Binding) (d : Definition) :
    (a.apply t b d).2.1.Forest ∧
      ∀ x slot, t.slot? x = some slot → ¬ t.IsWithin x b.node →
        (∀ f id, b.fields.get? f = some id → ¬ t.IsWithin x id) →
        ∃ moved : List NodeId, (∀ c ∈ moved, ∃ f, b.fields.get? f = some c) ∧
          (a.apply t b d).2.1.slot? x =
            some { slot with children := slot.children.filter (· ∉ moved) } := by
  have K : (Reserve.ofBinding F b).Keeps (a.apply t b d).2.1 := by
    have h := (Reserve.ofBinding F b).applyScope_respects a [d.typeName]
      ⟨b.node, b.typeName, b.adopts⟩ d (fun hr => hr.2.1 .refl) _ (Reserve.respects_ofBinding F b)
    unfold Live.Meets at h
    unfold apply
    split <;> rename_i hs <;> rw [hs] at h <;> exact h.tree
  exact ⟨K.forest, fun x slot hslot hroot hheld =>
    K.slot? x slot ⟨contains_iff.2 ⟨slot, hslot⟩, hroot, hheld⟩ hslot⟩

/-- A component's node, and beside it another one above the label that the component holds. -/
def besideLabel : ViewTree Empty :=
  [.insert { element := .generic (.wrapper "A") }, .insert { element := .generic (.wrapper "B") },
    .insertChild ⟨1⟩ { element := .generic (.ofKind .label) }].foldl ViewTree.edit {}

/-- The component, which creates no fields. -/
def holdingLabel : Binding :=
  { Binding.strict ⟨0⟩ "A" with fields := ({} : Table String NodeId).insert "a" ⟨2⟩ }

/-- The label is moved away from the node beside the component, which stays as it was otherwise. -/
theorem apply_keeps_rest_besideLabel :
    besideLabel.children ⟨1⟩ = [⟨2⟩] ∧
      (labelHost.apply besideLabel holdingLabel labelled).2.1.children ⟨1⟩ = [] ∧
      ∃ slot, besideLabel.slot? ⟨1⟩ = some slot ∧ ∃ moved : List NodeId,
        (∀ c ∈ moved, ∃ f, holdingLabel.fields.get? f = some c) ∧
          (labelHost.apply besideLabel holdingLabel labelled).2.1.slot? ⟨1⟩ =
            some { slot with children := slot.children.filter (· ∉ moved) } := by
  have F : besideLabel.Forest := Forest.empty.edits _
  have alone : ∀ id, id ≠ ⟨1⟩ → ¬ besideLabel.IsWithin ⟨1⟩ id := by
    intro id hne hw
    obtain rfl | hb := isWithin_iff.1 hw
    · exact hne rfl
    · obtain ⟨p, hp, -⟩ := Relation.TransGen.head'_iff.1 hb
      cases hp
  have held : ∀ f id, holdingLabel.fields.get? f = some id → ¬ besideLabel.IsWithin ⟨1⟩ id := by
    intro f id h
    unfold holdingLabel at h
    rw [Table.get?_insert] at h
    split at h
    · cases h
      exact alone _ (by decide)
    · cases h
  refine ⟨by cbv, by cbv, _, rfl, ?_⟩
  exact (labelHost.apply_keeps_rest F holdingLabel labelled).2 ⟨1⟩ _ rfl
    (alone _ (by decide)) held

end Applier

end ViewMarkup
