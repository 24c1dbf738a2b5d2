import ViewMarkup.Proofs.View.Apart

/-!
# Two applications in either order

Two components of a tree that own no living node together may be applied in either order. Their trees, the
components and the results are the same in the end, except that new nodes get their identities in
another order. Neither application has to succeed.

The nodes of each component, and the new ones that it gets, hold the same in the end as after its own
application, in either order. The other nodes only lose children. Such a child belongs to one of the
components, and where it stands in the end is known from its own slot.

## Main definitions

* `exchange` — the identities of new nodes in the other order.
* `ViewTree.IsRenamed` — a tree is another one with other identities.
* `Crossed` — where two applications lead to in either order.

## Main statements

* `Crossed.isRenamed` — the trees are the same but for the identities.
* `Applier.apply_comm` — the order of two applications does not matter.
-/

namespace ViewMarkup

open ViewTree Reserve

variable {H : Type} {t : ViewTree H}

/-! ### New nodes in another order -/

/-- The identities of nodes, if of the nodes from `n` on the first `k` and the next `l` are made in
the other order. -/
def exchange (n k l : Nat) (x : NodeId) : NodeId :=
  if x.index < n then x
  else if x.index < n + k then ⟨x.index + l⟩
  else if x.index < n + k + l then ⟨x.index - k⟩
  else x

/-- Exchanging twice changes nothing. -/
lemma exchange_exchange (n k l : Nat) (x : NodeId) : exchange n l k (exchange n k l x) = x := by
  obtain ⟨i⟩ := x
  simp only [exchange]
  split_ifs <;> simp only [NodeId.mk.injEq] at * <;> omega

/-- Different nodes stay different when they are exchanged. -/
lemma exchange_injective (n k l : Nat) : Function.Injective (exchange n k l) :=
  Function.LeftInverse.injective (exchange_exchange n k l)

/-- A node that was there before is not exchanged. -/
lemma exchange_of_lt {n k l : Nat} {x : NodeId} (h : x.index < n) : exchange n k l x = x :=
  if_pos h

/-- The first nodes come after the others. -/
lemma exchange_eq_shift {n k l : Nat} {x : NodeId} (h : x.index < n + k) :
    exchange n k l x = shift n l x := by
  unfold exchange shift
  split_ifs <;> rfl

/-- The others come before them. -/
lemma exchange_of_le_of_lt {n k l : Nat} {x : NodeId} (h : n + k ≤ x.index)
    (h' : x.index < n + k + l) : exchange n k l x = ⟨x.index - k⟩ := by
  unfold exchange
  rw [if_neg (by omega), if_neg h.not_gt, if_pos h']

/-- A node that came after both is not exchanged. -/
lemma exchange_of_le {n k l : Nat} {x : NodeId} (h : n + k + l ≤ x.index) :
    exchange n k l x = x := by
  unfold exchange
  rw [if_neg (by omega), if_neg (by omega), if_neg h.not_gt]

/-! ### Both orders -/

/-- A tree is another one with other identities. -/
def ViewTree.IsRenamed (ρ : NodeId → NodeId) (t t' : ViewTree H) : Prop :=
  t'.slots.size = t.slots.size ∧ ∀ x, t'.slot? (ρ x) = (t.slot? x).map (·.rename ρ)

/-- **Where two applications lead to in either order.** Each component's nodes and the new ones that
it gets hold the same in both trees, and the other nodes only have lost children. -/
structure Crossed (F : t.Forest) (b c : Binding) (k l : Nat) (u v : ViewTree H) : Prop where
  forest_left : u.Forest
  forest_right : v.Forest
  size_left : u.slots.size = t.slots.size + k + l
  size_right : v.slots.size = t.slots.size + l + k
  first : ∀ x, ¬ (ofBinding F b).isReserved x → x.index < t.slots.size + k →
    v.slot? (exchange t.slots.size k l x) =
      (u.slot? x).map (·.rename (exchange t.slots.size k l))
  second : ∀ x, ¬ (ofBinding F c).isReserved x → x.index < t.slots.size + l →
    u.slot? (exchange t.slots.size l k x) =
      (v.slot? x).map (·.rename (exchange t.slots.size l k))
  rest : ∀ x, t.contains x = true → ¬ b.Owns t x → ¬ c.Owns t x →
    ∃ (slot : Slot H) (gone gone' : List NodeId), t.slot? x = some slot ∧
      u.slot? x = some { slot with children := slot.children.filter (· ∉ gone) } ∧
      v.slot? x = some { slot with children := slot.children.filter (· ∉ gone') }

namespace Crossed

variable {F : t.Forest} {b c : Binding} {k l : Nat} {u v : ViewTree H} (X : Crossed F b c k l u v)

include X

/-- The renaming may be read from the other side. -/
lemma slot?_of_second {x : NodeId} (hx : ¬ (ofBinding F c).isReserved x)
    (hlt : x.index < t.slots.size + l) : v.slot? x =
      (u.slot? (exchange t.slots.size l k x)).map (·.rename (exchange t.slots.size k l)) := by
  rw [X.second x hx hlt, Option.map_map]
  refine (Option.map_congr fun slot _ => ?_).trans Option.map_id' |>.symm
  have hid : exchange t.slots.size k l ∘ exchange t.slots.size l k = id :=
    funext (exchange_exchange _ _ _)
  rw [Function.comp_apply, Slot.rename_rename, hid, Slot.rename_id]

/-- A node that was there stands below another one that was there in both trees or in none. -/
lemma parent?_eq_some_iff {x p : NodeId} (hx : t.contains x = true) (hp : t.Issued p) :
    v.parent? x = some p ↔ u.parent? x = some p := by
  have hlt := issued_of_contains hx
  have follows : v.slot? x = (u.slot? x).map (·.rename (exchange t.slots.size k l)) →
      (v.parent? x = some p ↔ u.parent? x = some p) := fun h => by
    have hfix : exchange t.slots.size k l p = p := exchange_of_lt hp
    rw [parent?_rename h]
    nth_rewrite 1 [← hfix]
    rw [← Option.map_some, (Option.map_injective (exchange_injective _ k l)).eq_iff]
  by_cases hb : b.Owns t x
  · have h := X.first x (not_isReserved_of_owns hb) (Nat.lt_add_right k hlt)
    rw [exchange_of_lt hlt] at h
    exact follows h
  · by_cases hc : c.Owns t x
    · have h := X.slot?_of_second (not_isReserved_of_owns hc) (Nat.lt_add_right l hlt)
      rw [exchange_of_lt hlt] at h
      exact follows h
    · obtain ⟨slot, gone, gone', -, hu, hv⟩ := X.rest x hx hb hc
      rw [parent?_of_slot? hu, parent?_of_slot? hv]

/-- A node that neither component owns has lost the same children in both trees. -/
lemma slot?_of_rest (C : t.Closed) {x : NodeId} (hx : t.contains x = true) (hb : ¬ b.Owns t x)
    (hc : ¬ c.Owns t x) : v.slot? (exchange t.slots.size k l x) =
      (u.slot? x).map (·.rename (exchange t.slots.size k l)) := by
  have hlt := issued_of_contains hx
  obtain ⟨slot, gone, gone', hslot, hu, hv⟩ := X.rest x hx hb hc
  have hsame : slot.children.filter (· ∉ gone') = slot.children.filter (· ∉ gone) := by
    refine List.filter_congr fun y hy => decide_eq_decide.2 ?_
    have hp : t.parent? y = some x := (F.mem_children_iff y x).1 (children_of_slot? hslot ▸ hy)
    have hiff := X.parent?_eq_some_iff (contains_of_parent? hp) hlt
    rw [← X.forest_left.mem_children_iff, ← X.forest_right.mem_children_iff,
      children_of_slot? hu, children_of_slot? hv] at hiff
    simpa [hy] using hiff
  have hfix : Slot.rename (exchange t.slots.size k l)
        { slot with children := slot.children.filter (· ∉ gone) } =
      { slot with children := slot.children.filter (· ∉ gone) } := by
    refine (Slot.rename_congr fun id hid => ?_).trans (Slot.rename_id _)
    have hmentions : slot.Mentions id :=
      hid.imp_right fun h => h.imp_left fun h => (List.mem_filter.1 h).1
    exact exchange_of_lt (issued_of_mentions F C hslot hmentions)
  rw [exchange_of_lt hlt, hu, hv, hsame, Option.map_some, hfix]

/-- **Two applications lead to the same tree in either order**, if the new nodes are renamed. -/
theorem isRenamed (C : t.Closed) : u.IsRenamed (exchange t.slots.size k l) v := by
  refine ⟨by rw [X.size_left, X.size_right, Nat.add_right_comm], fun x => ?_⟩
  have new : ∀ {y : NodeId} (b : Binding), t.slots.size ≤ y.index →
      ¬ (ofBinding F b).isReserved y := fun b hle h =>
    absurd (index_lt_of_contains ((ofBinding F b).contains _ h)) hle.not_gt
  rcases Nat.lt_or_ge x.index t.slots.size with hlt | hle
  · by_cases hb : (ofBinding F b).isReserved x
    · by_cases hc : (ofBinding F c).isReserved x
      · exact X.slot?_of_rest C ((ofBinding F b).contains x hb) (isReserved_ofBinding.1 hb).2
          (isReserved_ofBinding.1 hc).2
      · have h := X.slot?_of_second hc (Nat.lt_add_right l hlt)
        rw [exchange_of_lt hlt] at h ⊢
        exact h
    · exact X.first x hb (Nat.lt_add_right k hlt)
  · rcases Nat.lt_or_ge x.index (t.slots.size + k) with hlt | hle'
    · exact X.first x (new b hle) hlt
    · rcases Nat.lt_or_ge x.index (t.slots.size + k + l) with hlt | hle''
      · have h := X.slot?_of_second (x := ⟨x.index - k⟩) (new c (Nat.le_sub_of_add_le hle'))
          (by simp only; omega)
        rwa [← exchange_of_le_of_lt hle' hlt, exchange_exchange] at h
      · have hu : ¬ u.contains x = true := fun h => by
          have := index_lt_of_contains h
          rw [X.size_left] at this
          exact hle''.not_gt this
        have hv : ¬ v.contains x = true := fun h => by
          have := index_lt_of_contains h
          rw [X.size_right, Nat.add_right_comm] at this
          exact hle''.not_gt this
        rw [exchange_of_le hle'', slot?_of_not_contains hu, slot?_of_not_contains hv,
          Option.map_none]

end Crossed

namespace Applier

/-- The nodes of the first component are the same in both orders. -/
lemma Outcome.slot?_exchange {F : t.Forest} {b b₁ c c₂ : Binding}
    {p q : Except ApplyError ApplyReport} {t₁ t₂ r₀ t₄ : ViewTree H} (O : Outcome F b p t₁ b₁)
    (hapart : b.Apart t c) (hc : c.IsIssued t) (O₂ : Outcome O.keeps.forest c q t₂ c₂)
    {E' : Reserve r₀} {k l : Nat} (hk : t₁.slots.size = t.slots.size + k)
    (T : Tracks (ofBinding F b) E' (shift t.slots.size l) t₁ t₄) {x : NodeId}
    (hx : ¬ (ofBinding F b).isReserved x) (hlt : x.index < t.slots.size + k) :
    t₄.slot? (exchange t.slots.size k l x) =
      (t₂.slot? x).map (·.rename (exchange t.slots.size k l)) := by
  have hissued : t₁.Issued x := hlt.trans_eq hk.symm
  rw [O.slot?_eq hapart hc O₂ hx hissued, exchange_eq_shift hlt, T.slot?_rename x hx]
  exact map_rename_congr O.keeps.forest O.closed
    (fun id hid => (exchange_eq_shift (Nat.lt_of_lt_of_eq hid hk)).symm) x

/-- The trees that two applications lead to, if each goes in the second place as in the first. -/
lemma Outcome.crossed {F : t.Forest} {b b₁ b₄ c c₂ c₃ : Binding}
    {p₁ p₂ p₃ p₄ : Except ApplyError ApplyReport} {t₁ t₂ t₃ t₄ : ViewTree H}
    (O₁ : Outcome F b p₁ t₁ b₁) (O₃ : Outcome F c p₃ t₃ c₃) (hb : b.IsIssued t)
    (hc : c.IsIssued t) (hapart : b.Apart t c) (O₂ : Outcome O₁.keeps.forest c p₂ t₂ c₂)
    (O₄ : Outcome O₃.keeps.forest b p₄ t₄ b₄) {k l : Nat}
    (hk : t₁.slots.size = t.slots.size + k) (hl : t₃.slots.size = t.slots.size + l)
    (T₂ : Tracks (ofBinding F c) (ofBinding O₁.keeps.forest c) (shift t.slots.size k) t₃ t₂)
    (T₄ : Tracks (ofBinding F b) (ofBinding O₃.keeps.forest b) (shift t.slots.size l) t₁ t₄) :
    Crossed F b c k l t₂ t₄ where
  forest_left := O₂.keeps.forest
  forest_right := O₄.keeps.forest
  size_left := by
    obtain ⟨j, hj, hj'⟩ := T₂.exists_size_eq
    omega
  size_right := by
    obtain ⟨j, hj, hj'⟩ := T₄.exists_size_eq
    omega
  first x hx hlt := O₁.slot?_exchange hapart hc O₂ hk T₄ hx hlt
  second x hx hlt := O₃.slot?_exchange hapart.symm hb O₄ hl T₂ hx hlt
  rest x hx hxb hxc := by
    obtain ⟨slot, gone, hslot, h⟩ := O₁.exists_slot?_eq O₂ hx hxb hxc
    obtain ⟨slot', gone', hslot', h'⟩ := O₃.exists_slot?_eq O₄ hx hxc hxb
    rw [hslot, Option.some.injEq] at hslot'
    subst hslot'
    exact ⟨slot, gone, gone', hslot, h, h'⟩

variable [Widget H] {a : Applier H}

/-- **Applications to two components apart from each other may be made in either order.** The
components own no living node together; the definitions, the library, the styles and the host may be
any, and either application may fail. In the end the trees, the components and the results are the
same, up to a renaming that keeps all nodes that were there before.

Of a tree it is only asked that its links fit together and that it mentions no identity that it has
not given out, and so of the components. Every application leaves that true (`Applier.Outcome`).

**Proof sketch.** The second application goes as it would have gone first, with its new nodes shifted
by those of the other one (`Applier.Outcome.apply_beside`). So each component's nodes hold the same in
both orders. What neither component owns can only have lost children, and where a child stands in the
end is read off the child. -/
theorem apply_comm (F : t.Forest) (C : t.Closed) {b b₁ b₄ c c₂ c₃ : Binding} (hb : b.IsIssued t)
    (hc : c.IsIssued t) (hapart : b.Apart t c) {d e : Definition} {t₁ t₂ t₃ t₄ : ViewTree H}
    {p₁ p₂ p₃ p₄ : Except ApplyError ApplyReport} (h₁ : a.apply t b d = (p₁, t₁, b₁))
    (h₂ : a.apply t₁ c e = (p₂, t₂, c₂)) (h₃ : a.apply t c e = (p₃, t₃, c₃))
    (h₄ : a.apply t₃ b d = (p₄, t₄, b₄)) :
    ∃ ρ : NodeId → NodeId, Function.Bijective ρ ∧ (∀ x, t.Issued x → ρ x = x) ∧
      t₂.IsRenamed ρ t₄ ∧ b₄ = b₁.rename ρ ∧ c₃ = c₂.rename ρ ∧
      p₄ = p₁.map (·.rename ρ) ∧ p₃ = p₂.map (·.rename ρ) := by
  have O₁ := outcome_of_apply F C hb h₁
  have O₃ := outcome_of_apply F C hc h₃
  have O₂ := outcome_of_apply O₁.keeps.forest O₁.closed (hc.mono O₁.keeps.size_le) h₂
  have O₄ := outcome_of_apply O₃.keeps.forest O₃.closed (hb.mono O₃.keeps.size_le) h₄
  obtain ⟨k, hk⟩ := Nat.exists_eq_add_of_le O₁.keeps.size_le
  obtain ⟨l, hl⟩ := Nat.exists_eq_add_of_le O₃.keeps.size_le
  obtain ⟨t₂', h₂', T₂⟩ := O₁.apply_beside hapart C hc hk h₃
  obtain ⟨t₄', h₄', T₄⟩ := O₃.apply_beside hapart.symm C hb hl h₁
  obtain ⟨hp₂, rfl, hc₂⟩ : p₂ = _ ∧ t₂ = t₂' ∧ c₂ = _ := by
    rw [h₂] at h₂'
    simpa only [Prod.mk.injEq] using h₂'
  obtain ⟨hp₄, rfl, hb₄⟩ : p₄ = _ ∧ t₄ = t₄' ∧ b₄ = _ := by
    rw [h₄] at h₄'
    simpa only [Prod.mk.injEq] using h₄'
  have early : ∀ id, t₁.Issued id →
      shift t.slots.size l id = exchange t.slots.size k l id := fun id hid =>
    (exchange_eq_shift (Nat.lt_of_lt_of_eq hid hk)).symm
  have late : ∀ id, t₃.Issued id →
      exchange t.slots.size k l (shift t.slots.size k id) = id := fun id hid => by
    rw [← exchange_eq_shift (Nat.lt_of_lt_of_eq hid hl), exchange_exchange]
  refine ⟨exchange t.slots.size k l, ⟨exchange_injective _ k l, ?_⟩, fun x hx => exchange_of_lt hx,
    (O₁.crossed O₃ hb hc hapart O₂ O₄ hk hl T₂ T₄).isRenamed C, ?_, ?_, ?_, ?_⟩
  · exact fun x => ⟨exchange t.slots.size l k x, exchange_exchange _ l k x⟩
  · rw [hb₄]
    exact Binding.rename_congr O₁.issued early
  · rw [hc₂, Binding.rename_rename]
    exact ((Binding.rename_congr O₃.issued late).trans c₃.rename_id).symm
  · rw [hp₄]
    cases p₁ with
    | error e => rfl
    | ok report =>
      exact congrArg Except.ok (ApplyReport.rename_congr fun id hid =>
        early id (O₁.issued_named report rfl id hid))
  · rw [hp₂]
    cases p₃ with
    | error e => rfl
    | ok report =>
      have back : report.rename (exchange t.slots.size k l ∘ shift t.slots.size k) = report :=
        (ApplyReport.rename_congr fun id hid =>
          late id (O₃.issued_named report rfl id hid)).trans report.rename_id
      exact congrArg Except.ok (report.rename_rename.trans back).symm

/-- Two nodes that stand by themselves. -/
def twoWrappers : ViewTree Empty :=
  ((({} : ViewTree Empty).insert { element := .generic (.wrapper "A") }).2.insert
    { element := .generic (.wrapper "B") }).2

/-- A component at each of them gets a label, and the one that gets it first has the smaller
identity for it. -/
theorem apply_comm_twoWrappers :
    ∃ (p₁ p₂ p₃ p₄ : Except ApplyError ApplyReport) (t₁ t₂ t₃ t₄ : ViewTree Empty)
      (b₁ b₄ c₂ c₃ : Binding),
      labelHost.apply twoWrappers (.adopting ⟨0⟩ "A") labelled = (p₁, t₁, b₁) ∧
      labelHost.apply t₁ (.adopting ⟨1⟩ "A") labelled = (p₂, t₂, c₂) ∧
      labelHost.apply twoWrappers (.adopting ⟨1⟩ "A") labelled = (p₃, t₃, c₃) ∧
      labelHost.apply t₃ (.adopting ⟨0⟩ "A") labelled = (p₄, t₄, b₄) ∧
      b₁.fields.get? "a" = some ⟨2⟩ ∧ b₄.fields.get? "a" = some ⟨3⟩ ∧
      ∃ ρ : NodeId → NodeId, Function.Bijective ρ ∧ (∀ x, twoWrappers.Issued x → ρ x = x) ∧
        t₂.IsRenamed ρ t₄ ∧ b₄ = b₁.rename ρ ∧ c₃ = c₂.rename ρ ∧
        p₄ = p₁.map (·.rename ρ) ∧ p₃ = p₂.map (·.rename ρ) := by
  have F : twoWrappers.Forest := (Forest.empty.insert _).insert _
  have C : twoWrappers.Closed := (Closed.empty.insert _).insert _
  have issued : ∀ id, twoWrappers.Issued id →
      (Binding.adopting id "A").IsIssued twoWrappers := fun id hid =>
    ⟨hid, fun _ h => (nomatch h), fun _ h => (nomatch h)⟩
  have owns : ∀ id x, (Binding.adopting id "A").Owns twoWrappers x → x = id := by
    rintro id x ⟨top, rfl | ⟨f, hf⟩, hw⟩
    · obtain rfl | hb := isWithin_iff.1 hw
      · rfl
      · obtain ⟨above, hp, -⟩ := Relation.TransGen.head'_iff.1 hb
        rw [twoWrappers, parent?_insert, parent?_insert] at hp
        cases hp
    · cases hf
  have hapart : (Binding.adopting ⟨0⟩ "A").Apart twoWrappers (.adopting ⟨1⟩ "A") :=
    fun x _ h h' => by
      have := (owns _ _ h).symm.trans (owns _ _ h')
      cases this
  refine ⟨_, _, _, _, _, _, _, _, _, _, _, _, Prod.mk.eta.symm, Prod.mk.eta.symm, Prod.mk.eta.symm,
    Prod.mk.eta.symm, by cbv, by cbv, ?_⟩
  exact apply_comm F C (issued _ (by decide)) (issued _ (by decide)) hapart rfl rfl rfl rfl

end Applier

end ViewMarkup
