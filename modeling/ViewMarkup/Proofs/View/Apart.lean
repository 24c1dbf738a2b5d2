import ViewMarkup.Proofs.View.Alongside

/-!
# Components apart from each other

A component owns its node, the nodes that its fields hold, and all that is below one of these. What one
application leaves behind, however far it came, agrees with the tree before on all that is owned by a
component that shares no living node with its own. So an application to that component goes as it would
have gone before, and in turn leaves alone what the first one may touch and what it made.

## Main definitions

* `Slot.Mentions` — the identities that a slot holds.
* `Binding.Owns`, `Binding.Apart` — what a component owns, and components that share nothing.
* `shift` — the identities of new nodes, if others are made before.
* `Applier.Outcome` — what an application leaves behind, whether or not it succeeds.

## Main statements

* `Applier.outcome_of_apply` — every application has such an outcome.
* `Applier.Outcome.transfers_beside`, `Applier.Outcome.tracks_beside` — it does not touch what another
  component owns.
* `Applier.Outcome.apply_beside` — an application to the other component before and after the first one.
* `Applier.Outcome.slot?_eq` — what the first application made, after the other one.
-/

namespace ViewMarkup

open ViewTree

variable {H : Type} {t t' : ViewTree H}

/-! ### Renaming what was given out -/

section Congr

variable {ρ σ : NodeId → NodeId}

/-- A slot mentions an identity. -/
def Slot.Mentions (slot : Slot H) (id : NodeId) : Prop :=
  (∃ place, slot.attachment = some place ∧ place.parent = id) ∨ id ∈ slot.children ∨
    ∃ c ∈ slot.node.constraints, c.target = .node id

/-- Renaming a target depends on the node that it names. -/
lemma LiveTarget.rename_congr {target : LiveTarget}
    (h : ∀ id, target = .node id → ρ id = σ id) : target.rename ρ = target.rename σ := by
  cases target with
  | node id => exact congrArg LiveTarget.node (h id rfl)
  | constant v => rfl

/-- Renaming a target twice. -/
lemma LiveTarget.rename_rename (target : LiveTarget) :
    (target.rename ρ).rename σ = target.rename (σ ∘ ρ) := by
  cases target <;> rfl

/-- Renaming a target to itself. -/
lemma LiveTarget.rename_id (target : LiveTarget) : target.rename id = target := by
  cases target <;> rfl

namespace Slot

variable {slot : Slot H}

/-- Renamings that agree on what a slot mentions do the same to it. -/
lemma rename_congr (h : ∀ id, slot.Mentions id → ρ id = σ id) :
    slot.rename ρ = slot.rename σ := by
  have hconstraints : slot.node.constraints.map (·.rename ρ) =
      slot.node.constraints.map (·.rename σ) := List.map_congr_left fun c hc =>
    congrArg (LiveConstraint.mk c.declared) (LiveTarget.rename_congr fun id hid =>
      h id (.inr (.inr ⟨c, hc, hid⟩)))
  have hattachment : slot.attachment.map (fun place => { place with parent := ρ place.parent }) =
      slot.attachment.map fun place => { place with parent := σ place.parent } :=
    Option.map_congr fun place hplace => by rw [h place.parent (.inl ⟨place, hplace, rfl⟩)]
  have hchildren : slot.children.map ρ = slot.children.map σ :=
    List.map_congr_left fun id hid => h id (.inr (.inl hid))
  simp only [rename, ViewNode.rename, hconstraints, hattachment, hchildren]

/-- Renaming a slot twice. -/
lemma rename_rename (slot : Slot H) : (slot.rename ρ).rename σ = slot.rename (σ ∘ ρ) := by
  simp only [rename, ViewNode.rename, LiveConstraint.rename, List.map_map, Option.map_map,
    Function.comp_def, LiveTarget.rename_rename]

/-- Renaming a slot to itself. -/
lemma rename_id (slot : Slot H) : slot.rename id = slot := by
  simp only [rename, ViewNode.rename, LiveConstraint.rename, LiveTarget.rename_id, id_eq,
    List.map_id, List.map_id', Option.map_id']

end Slot

namespace Binding

variable {b : Binding}

/-- Renamings that agree on what was given out do the same to a component. -/
lemma rename_congr (hb : b.IsIssued t) (h : ∀ id, t.Issued id → ρ id = σ id) :
    b.rename ρ = b.rename σ := by
  have hfields : b.fields.map ρ = b.fields.map σ :=
    Table.map_congr fun id hid => h id (hb.fields id hid)
  have hcaptured : b.captured.map (·.rename ρ) = b.captured.map (·.rename σ) :=
    Table.map_congr fun handle hh => congrArg (ConstraintHandle.mk · handle.index)
      (h handle.node (hb.captured handle hh))
  simp only [rename, h b.node hb.node, hfields, hcaptured]

/-- Renaming a binding twice. -/
lemma rename_rename (b : Binding) : (b.rename ρ).rename σ = b.rename (σ ∘ ρ) := by
  simp only [rename, Table.map_map]
  rfl

/-- Renaming a binding to itself. -/
lemma rename_id (b : Binding) : b.rename id = b := by
  simp only [rename, Table.map_id]
  exact congrArg (fun captured => { b with captured }) (Table.map_id b.captured)

end Binding

namespace ApplyReport

variable {report : ApplyReport}

/-- Renaming a report depends on the nodes that it names. -/
lemma rename_congr (h : ∀ id ∈ report.named.values, ρ id = σ id) :
    report.rename ρ = report.rename σ :=
  congrArg (fun named => { report with named }) (Table.map_congr h)

/-- Renaming a report twice. -/
lemma rename_rename (report : ApplyReport) :
    (report.rename ρ).rename σ = report.rename (σ ∘ ρ) :=
  congrArg (fun named => { report with named }) (Table.map_map ..)

/-- Renaming a report to itself. -/
lemma rename_id (report : ApplyReport) : report.rename id = report :=
  congrArg (fun named => { report with named }) (Table.map_id _)

end ApplyReport

end Congr

namespace ViewTree

/-- All that a living node mentions was given out. -/
lemma issued_of_mentions (F : t.Forest) (C : t.Closed) {x id : NodeId} {slot : Slot H}
    (hslot : t.slot? x = some slot) (hid : slot.Mentions id) : t.Issued id := by
  rcases hid with ⟨place, hplace, rfl⟩ | hid | ⟨c, hc, hid⟩
  · exact issued_of_contains (F.contains_parent (c := x) (by
      rw [parent?_of_slot? hslot, hplace, Option.map_some]))
  · rw [← children_of_slot? hslot, F.mem_children_iff] at hid
    exact issued_of_contains (contains_of_parent? hid)
  · exact C x slot.node (get?_of_slot? hslot) c hc id hid

/-- Renamings that agree on what was given out do the same to a tree's slots. -/
lemma map_rename_congr (F : t.Forest) (C : t.Closed) {ρ σ : NodeId → NodeId}
    (h : ∀ id, t.Issued id → ρ id = σ id) (x : NodeId) :
    (t.slot? x).map (·.rename ρ) = (t.slot? x).map (·.rename σ) :=
  Option.map_congr fun _ hslot => Slot.rename_congr fun id hid =>
    h id (issued_of_mentions F C hslot hid)

/-- A renaming that keeps what was given out keeps all slots. -/
lemma map_rename_eq_self (F : t.Forest) (C : t.Closed) {ρ : NodeId → NodeId}
    (h : ∀ id, t.Issued id → ρ id = id) (x : NodeId) :
    (t.slot? x).map (·.rename ρ) = t.slot? x := by
  refine (map_rename_congr F C h x).trans ?_
  exact (Option.map_congr fun slot _ => slot.rename_id).trans Option.map_id'

/-- A node that is not there has no slot. -/
lemma slot?_of_not_contains {x : NodeId} (h : ¬ t.contains x = true) : t.slot? x = none :=
  slot?_eq_none (Bool.eq_false_iff.2 h)

end ViewTree

/-! ### What a component owns -/

namespace Binding

/-- A component owns its node, the nodes that its fields hold, and all that is below one of these. -/
def Owns (t : ViewTree H) (b : Binding) (x : NodeId) : Prop :=
  ∃ top, (top = b.node ∨ ∃ f, b.fields.get? f = some top) ∧ t.IsWithin x top

/-- Two components own no living node together. -/
def Apart (t : ViewTree H) (b c : Binding) : Prop :=
  ∀ x, t.contains x = true → b.Owns t x → ¬ c.Owns t x

/-- Being apart is mutual. -/
lemma Apart.symm {b c : Binding} (h : b.Apart t c) : c.Apart t b :=
  fun x hx hc hb => h x hx hb hc

/-- A component owns its root. -/
lemma owns_node (t : ViewTree H) (b : Binding) : b.Owns t b.node := ⟨_, .inl rfl, .refl⟩

/-- It owns its fields. -/
lemma owns_field (t : ViewTree H) {b : Binding} {f : String} {id : NodeId}
    (h : b.fields.get? f = some id) : b.Owns t id := ⟨_, .inr ⟨f, h⟩, .refl⟩

/-- What is below an owned node is owned. -/
lemma Owns.below {b : Binding} {x p : NodeId} (h : b.Owns t p) (hp : t.parent? x = some p) :
    b.Owns t x := h.imp fun _ h => ⟨h.1, .head hp h.2⟩

end Binding

namespace Reserve

/-- What is reserved from a component: the nodes that it does not own. -/
lemma isReserved_ofBinding {F : t.Forest} {b : Binding} {x : NodeId} :
    (ofBinding F b).isReserved x ↔ t.contains x = true ∧ ¬ b.Owns t x := by
  refine and_congr_right fun _ => ?_
  simp only [Binding.Owns, not_exists, not_and]
  constructor
  · rintro ⟨hnode, hfields⟩ top (rfl | ⟨f, hf⟩)
    · exact hnode
    · exact hfields f top hf
  · exact fun h => ⟨h _ (.inl rfl), fun f id hf => h id (.inr ⟨f, hf⟩)⟩

/-- What it owns is not reserved. -/
lemma not_isReserved_of_owns {F : t.Forest} {b : Binding} {x : NodeId} (h : b.Owns t x) :
    ¬ (ofBinding F b).isReserved x := fun hx => (isReserved_ofBinding.1 hx).2 h

/-- A living node that may be touched is owned. -/
lemma owns_of_not_isReserved {F : t.Forest} {b : Binding} {x : NodeId}
    (h : ¬ (ofBinding F b).isReserved x) (hx : t.contains x = true) : b.Owns t x := by
  by_contra hn
  exact h (isReserved_ofBinding.2 ⟨hx, hn⟩)

/-- A reserved node stays as it was if nothing below it is held. -/
theorem Keeps.slot?_eq {E : Reserve t} (K : E.Keeps t') {x : NodeId} (hx : E.isReserved x)
    (h : ∀ y, t.parent? y = some x → ¬ E.isHeld y) : t'.slot? x = t.slot? x := by
  obtain ⟨slot, moved, hslot, hmoved, hslot'⟩ := K.exists_slot? hx
  have hall : slot.children.filter (· ∉ moved) = slot.children :=
    List.filter_eq_self.2 fun y hy => decide_eq_true fun hm =>
      h y ((E.forest.mem_children_iff y x).1 (children_of_slot? hslot ▸ hy)) (hmoved y hm)
  rw [hslot', hslot, hall]

/-- The way up from a reserved node stays as it was. -/
lemma Keeps.isWithin_iff {E : Reserve t} (K : E.Keeps t') {x top : NodeId}
    (hx : E.isReserved x) : t'.IsWithin x top ↔ t.IsWithin x top := by
  constructor
  · intro h
    induction h using Relation.ReflTransGen.head_induction_on with
    | refl => exact .refl
    | head hp _ ih =>
      rw [K.parent?_eq hx] at hp
      exact .head hp (ih (E.parent _ _ hx hp))
  · intro h
    induction h using Relation.ReflTransGen.head_induction_on with
    | refl => exact .refl
    | head hp _ ih => exact .head ((K.parent?_eq hx).trans hp) (ih (E.parent _ _ hx hp))

end Reserve

/-! ### The identities of new nodes -/

/-- The identities of nodes, if `k` others are made before those from `n` on. -/
def shift (n k : Nat) (x : NodeId) : NodeId := if x.index < n then x else ⟨x.index + k⟩

/-- A node that was there before is not shifted. -/
lemma shift_of_lt {n k : Nat} {x : NodeId} (h : x.index < n) : shift n k x = x := if_pos h

/-- A node that came later is shifted. -/
lemma shift_of_le {n k : Nat} {x : NodeId} (h : n ≤ x.index) : shift n k x = ⟨x.index + k⟩ :=
  if_neg h.not_gt

/-- Different nodes stay different when they are shifted. -/
lemma shift_injective (n k : Nat) : Function.Injective (shift n k) := by
  rintro ⟨i⟩ ⟨j⟩ h
  simp only [shift] at h
  split at h <;> split at h <;> simp only [NodeId.mk.injEq] at h ⊢ <;> omega

/-! ### What an application leaves behind -/

namespace Reserve

/-- What may be touched corresponds to itself. -/
lemma transfers_refl (E : Reserve t) : Transfers E E id where
  injective := Function.injective_id
  rename_new _ := rfl
  not_isReserved _ h := h
  isReserved_parent _ _ _ _ h := h

/-- A tree tracks itself. -/
lemma tracks_refl (E : Reserve t) (C : t.Closed) : Tracks E E id t t where
  left := .refl E
  right := .refl E
  continues_left := .refl t
  continues_right := .refl t
  closed := C
  exists_size_eq := ⟨0, rfl, rfl⟩
  slot?_rename x _ := by simp only [Slot.rename_id, Option.map_id', id_eq]

/-- A field of a component may be moved by it. -/
lemma isMovable_of_field (F : t.Forest) {b : Binding} {f : String} {id : NodeId}
    (h : b.fields.get? f = some id) : (ofBinding F b).IsMovable id :=
  ⟨not_isReserved_of_owns (Binding.owns_field t h), .inl ⟨f, h⟩⟩

end Reserve

/-- **What an application to a component leaves behind**, whether or not it succeeds. What the
component does not own is as it was, no node has come to life again, and all that the tree, the
component and the report mention was given out. -/
structure Applier.Outcome (F : t.Forest) (b : Binding) (result : Except ApplyError ApplyReport)
    (t' : ViewTree H) (b' : Binding) : Prop where
  keeps : (Reserve.ofBinding F b).Keeps t'
  continues : t.Continues t'
  closed : t'.Closed
  issued : b'.IsIssued t'
  issued_named : ∀ report, result = .ok report → ∀ id ∈ report.named.values, t'.Issued id

/-- What applying a definition comes to. -/
theorem Applier.outcome_of_apply [Widget H] {a : Applier H} (F : t.Forest) (C : t.Closed)
    {b b' : Binding} (hb : b.IsIssued t) {d : Definition} {result : Except ApplyError ApplyReport}
    (h : a.apply t b d = (result, t', b')) : Outcome F b result t' b' := by
  obtain ⟨_, -, T, hb', hnamed⟩ := Reserve.apply_tracked (Reserve.ofBinding F b).transfers_refl
    (Reserve.tracks_refl _ C) hb (Reserve.not_isReserved_of_owns (Binding.owns_node t b))
    (fun _ _ hf => ⟨Reserve.isMovable_of_field F hf, Reserve.isMovable_of_field F hf⟩) h
  exact ⟨T.left, T.continues_left, T.closed, hb', hnamed⟩

/-! ### A component beside another one -/

open Reserve

section Beside

variable {F : t.Forest} {b b₁ c : Binding} {p : Except ApplyError ApplyReport} {t₁ : ViewTree H}

/-- What one component owns is reserved when the other one's definition is applied. -/
lemma Binding.Apart.isReserved (hapart : b.Apart t c) {x : NodeId} (hx : t.contains x = true)
    (h : c.Owns t x) : (ofBinding F b).isReserved x :=
  isReserved_ofBinding.2 ⟨hx, hapart.symm x hx h⟩

/-- A step that keeps what is reserved changes nothing about who owns it. -/
lemma Reserve.Keeps.owns_iff {E : Reserve t} (K : E.Keeps t₁) {x : NodeId} (hx : E.isReserved x) :
    c.Owns t₁ x ↔ c.Owns t x :=
  exists_congr fun _ => and_congr_right fun _ => K.isWithin_iff hx

namespace Applier.Outcome

variable (O : Outcome F b p t₁ b₁) (hapart : b.Apart t c)

include O hapart

/-- What the other component owns is as it was. -/
lemma slot?_of_owns {x : NodeId} (hx : t.contains x = true) (h : c.Owns t x) :
    t₁.slot? x = t.slot? x := by
  refine O.keeps.slot?_eq (hapart.isReserved hx h) fun y hp ⟨f, hf⟩ => ?_
  exact hapart y (contains_of_parent? hp) (Binding.owns_field t hf) (h.below hp)

/-- What the first application may touch, and what it makes, does not come to be owned by the other
component. -/
lemma not_owns_of_not_isReserved (hc : c.IsIssued t) {x : NodeId}
    (hx : ¬ (ofBinding F b).isReserved x) (halive : t₁.contains x = true) : ¬ c.Owns t₁ x := by
  rintro ⟨top, htop, hw⟩
  have hissued : t.Issued top := by
    obtain rfl | ⟨f, hf⟩ := htop
    · exact hc.node
    · exact hc.fields top (Table.mem_values_of_get? hf)
  induction hw using Relation.ReflTransGen.head_induction_on with
  | refl =>
    have hlived := O.continues top hissued halive
    exact hx (hapart.isReserved hlived ⟨top, htop, .refl⟩)
  | head hp hw ih =>
    rename_i x above
    -- where the way up leaves what may be touched, it did so before the application
    by_cases hres : (ofBinding F b).isReserved above
    · have hp₀ := O.keeps.parent?_of_isReserved hres hp
      have habove : c.Owns t above := ⟨top, htop, (O.keeps.isWithin_iff hres).1 hw⟩
      exact hx (hapart.isReserved (contains_of_parent? hp₀) (habove.below hp₀))
    · exact ih hres (O.keeps.forest.contains_parent hp)

omit hapart in
/-- A shifted node that is there was there before, if the other tree has as many nodes more. -/
lemma contains_of_contains_shift {k : Nat} (hk : t₁.slots.size = t.slots.size + k) {x : NodeId}
    (h : t₁.contains (shift t.slots.size k x) = true) :
    t.contains x = true ∧ shift t.slots.size k x = x := by
  rcases Nat.lt_or_ge x.index t.slots.size with hlt | hle
  · have hx : shift t.slots.size k x = x := shift_of_lt hlt
    rw [hx] at h
    exact ⟨O.continues x hlt h, hx⟩
  · have hlt := index_lt_of_contains h
    rw [shift_of_le hle, hk] at hlt
    exact absurd hlt (by simpa using hle)

/-- **What the other component may touch is the same after the first application**, and so are the
nodes above it. -/
theorem transfers_beside {k : Nat} (hk : t₁.slots.size = t.slots.size + k) :
    Transfers (ofBinding F c) (ofBinding O.keeps.forest c) (shift t.slots.size k) where
  injective := shift_injective _ _
  rename_new j := by
    rw [shift_of_le (Nat.le_add_right _ _), hk]
    exact congrArg NodeId.mk (Nat.add_right_comm _ j k)
  not_isReserved x hx hx' := by
    obtain ⟨halive, hn⟩ := isReserved_ofBinding.1 hx'
    obtain ⟨hlived, heq⟩ := O.contains_of_contains_shift hk halive
    have howns := owns_of_not_isReserved hx hlived
    rw [heq] at hn
    exact hn ((O.keeps.owns_iff (hapart.isReserved hlived howns)).2 howns)
  isReserved_parent x above hx hp habove := by
    have howns := owns_of_not_isReserved hx (contains_of_parent? hp)
    obtain ⟨halive, hn⟩ := isReserved_ofBinding.1 habove
    -- if the node above were the first component's, then so would be the node itself
    have hres : (ofBinding F b).isReserved above := isReserved_ofBinding.2
      ⟨halive, fun h => hapart x (contains_of_parent? hp) (h.below hp) howns⟩
    rw [shift_of_lt (index_lt_of_contains halive)]
    exact isReserved_ofBinding.2
      ⟨O.keeps.contains hres, fun h => hn ((O.keeps.owns_iff hres).1 h)⟩

/-- **The tree after the first application agrees with the one before on what the other component
may touch.** -/
theorem tracks_beside (C : t.Closed) {k : Nat} (hk : t₁.slots.size = t.slots.size + k) :
    Tracks (ofBinding F c) (ofBinding O.keeps.forest c) (shift t.slots.size k) t t₁ where
  left := .refl _
  right := .refl _
  continues_left := .refl t
  continues_right := .refl t₁
  closed := C
  exists_size_eq := ⟨0, rfl, rfl⟩
  slot?_rename x hx := by
    by_cases halive : t.contains x = true
    · rw [shift_of_lt (index_lt_of_contains halive),
        O.slot?_of_owns hapart halive (owns_of_not_isReserved hx halive),
        map_rename_eq_self F C (fun id hid => shift_of_lt hid)]
    · rw [slot?_of_not_contains halive]
      exact slot?_of_not_contains fun h => halive (O.contains_of_contains_shift hk h).1

/-- **The other component's application goes as it would have gone before the first one.** -/
theorem apply_beside [Widget H] {a : Applier H} (C : t.Closed) (hc : c.IsIssued t) {k : Nat}
    (hk : t₁.slots.size = t.slots.size + k) {d : Definition}
    {q : Except ApplyError ApplyReport} {t₃ : ViewTree H} {c₃ : Binding}
    (h : a.apply t c d = (q, t₃, c₃)) :
    ∃ t₂, a.apply t₁ c d = (q.map (·.rename (shift t.slots.size k)), t₂,
        c₃.rename (shift t.slots.size k)) ∧
      Tracks (ofBinding F c) (ofBinding O.keeps.forest c) (shift t.slots.size k) t₃ t₂ := by
  have fixed : ∀ id, t.Issued id → shift t.slots.size k id = id := fun _ hid => shift_of_lt hid
  have hrename : c.rename (shift t.slots.size k) = c :=
    (Binding.rename_congr hc fixed).trans c.rename_id
  obtain ⟨t₂, h₂, T, -⟩ := apply_tracked (O.transfers_beside hapart hk)
    (O.tracks_beside hapart C hk) hc (not_isReserved_of_owns (Binding.owns_node t c))
    (fun f id hf => ⟨isMovable_of_field F hf, by
      rw [fixed id (hc.fields id (Table.mem_values_of_get? hf))]
      exact isMovable_of_field _ hf⟩) h
  rw [hrename] at h₂
  exact ⟨t₂, h₂, T⟩

variable {q : Except ApplyError ApplyReport} {t₂ : ViewTree H} {c₂ : Binding}

/-- **What the first application may touch and what it makes stays as it leaves it.** -/
theorem slot?_eq (hc : c.IsIssued t) (O₂ : Outcome O.keeps.forest c q t₂ c₂) {x : NodeId}
    (hx : ¬ (ofBinding F b).isReserved x) (hissued : t₁.Issued x) : t₂.slot? x = t₁.slot? x := by
  by_cases halive : t₁.contains x = true
  · have hres : (ofBinding O.keeps.forest c).isReserved x :=
      isReserved_ofBinding.2 ⟨halive, O.not_owns_of_not_isReserved hapart hc hx halive⟩
    refine O₂.keeps.slot?_eq hres fun y hp ⟨f, hf⟩ => ?_
    exact O.not_owns_of_not_isReserved hapart hc
      (O.keeps.not_isReserved_of_isBelow (.single hp) hx) (contains_of_parent? hp)
      (Binding.owns_field t₁ hf)
  · rw [slot?_of_not_contains halive]
    exact slot?_of_not_contains fun h => halive (O₂.continues x hissued h)

omit hapart in
/-- What neither component owns only loses children. -/
lemma exists_slot?_eq (O₂ : Outcome O.keeps.forest c q t₂ c₂) {x : NodeId}
    (halive : t.contains x = true) (hb : ¬ b.Owns t x) (hc : ¬ c.Owns t x) :
    ∃ (slot : Slot H) (gone : List NodeId), t.slot? x = some slot ∧
      t₂.slot? x = some { slot with children := slot.children.filter (· ∉ gone) } := by
  have hres : (ofBinding F b).isReserved x := isReserved_ofBinding.2 ⟨halive, hb⟩
  have hres₁ : (ofBinding O.keeps.forest c).isReserved x :=
    isReserved_ofBinding.2 ⟨O.keeps.contains hres, fun h => hc ((O.keeps.owns_iff hres).1 h)⟩
  obtain ⟨slot, moved, hslot, -, hslot₁⟩ := O.keeps.exists_slot? hres
  obtain ⟨slot₁, moved₁, h, -, hslot₂⟩ := O₂.keeps.exists_slot? hres₁
  rw [hslot₁, Option.some.injEq] at h
  subst h
  refine ⟨slot, moved ++ moved₁, hslot, ?_⟩
  rw [hslot₂]
  simp only [List.filter_filter, List.mem_append, not_or, Bool.decide_and, Bool.and_comm]

end Applier.Outcome

end Beside

end ViewMarkup
