import ViewMarkup.Proofs.View.Reserve
import ViewMarkup.Proofs.View.Tracking

/-!
# What a component inside does to the nodes around it

When an element that refers to a component has been placed, the definition of the component is applied
below its node. Whatever was below the node goes then, and what comes is new. Nothing else happens: all
other nodes stay alive and stay where they are, and no node that was gone comes back.

Nothing is assumed of the definition, the library or the host, and nothing of where the node comes
from.

## Main definitions

* `ViewTree.Exchanges` — what is below a node has been exchanged.
* `Applier.Obtains`, `Applier.Puts` — what placing an element comes to in any tree.

## Main statements

* `Applier.placeOne_puts` — placing an element, with nothing known of its node.
* `Applier.invariant_continuing` — an application never brings a node back.
* `Applier.exchanges_of_clear` — when all that is below a node has been exchanged.
* `Applier.applyReference_exchanges` — the definition of a component inside is applied, or is not.
-/

namespace ViewMarkup

open ViewTree

variable {H : Type} {t t' t₀ : ViewTree H}

/-- What holds after a step that is known to succeed. -/
lemma Live.Meets.of_eq {α : Type} {s s' : Run H} {x : Live H α} {v : α} {ok : α → Run H → Prop}
    {fail : Run H → Prop} (h : x s = .ok v s') (hok : ok v s') : Live.Meets s x ok fail := by
  unfold Live.Meets
  rw [h]
  exact hok

/-- A node is alive if it holds something. -/
lemma ViewTree.isSome_get? (t : ViewTree H) (id : NodeId) : (t.get? id).isSome = t.contains id :=
  Option.isSome_map

/-! ### Taking apart -/

namespace Applier

/-- Of the nodes below only those to keep are left. -/
lemma contains_clear_iff (F : t.Forest) {root x : NodeId} {keep : List NodeId} :
    (clear t root keep).contains x = true ↔
      t.contains x = true ∧ (t.IsBelow x root → x ∈ keep) := by
  rw [← F.mem_descendants_iff, contains, contains, slot?_clear root keep F]
  by_cases hx : x ∈ t.descendants root
  · by_cases hk : x ∈ keep <;> simp [hx, hk]
  · by_cases hr : x = root
    · subst hr
      simp [hx]
    · simp [hx, hr]

/-- The nodes below have nothing above them any more. -/
lemma parent?_clear (F : t.Forest) (root : NodeId) (keep : List NodeId) (x : NodeId) :
    (clear t root keep).parent? x = if x ∈ t.descendants root then none else t.parent? x := by
  rw [parent?, parent?, slot?_clear root keep F]
  by_cases hx : x ∈ t.descendants root
  · by_cases hk : x ∈ keep <;> simp [hx, hk]
  · by_cases hr : x = root
    · subst hr
      simp only [hx, if_false, if_true]
      cases t.slot? x <;> rfl
    · simp [hx, hr]

/-- After a tree was cleared, its root has no children. -/
lemma children_clear (F : t.Forest) (root : NodeId) (keep : List NodeId) :
    (clear t root keep).children root = [] := by
  have hroot : root ∉ t.descendants root := by
    rw [F.mem_descendants_iff]
    exact F.acyclic root
  rw [children, slot?_clear root keep F, if_neg hroot, if_pos rfl]
  cases t.slot? root <;> rfl

/-- Where nothing is below a node, nothing is taken apart. -/
lemma clear_of_children (F : t.Forest) {root : NodeId} (h : t.children root = [])
    (keep : List NodeId) : clear t root keep = t := by
  have hnone : t.descendants root = [] := List.eq_nil_iff_forall_not_mem.2 fun x hx =>
    F.not_isBelow h x (F.mem_descendants_iff.1 hx)
  unfold clear
  rw [hnone]
  rfl

/-! ### Placing an element -/

variable (a : Applier H)

/-- Where the node of an element comes from, whatever is known of the tree: its field holds it and it is
alive, or it is a new one, which the field holds from then on. Either way the visual element that it
begins with is given. -/
inductive Obtains (e : Element) (s : Run H) : NodeId → VisualElement H → Run H → Prop where
  /-- The field holds a living node. -/
  | kept {field : String} {id : NodeId} {n : ViewNode H} : e.field = some field →
      s.fields.get? field = some id → s.tree.get? id = some n → Obtains e s id n.element s
  /-- There is no field, or it holds nothing, or what it holds is gone. -/
  | new {start : VisualElement H} :
      (∀ field id, e.field = some field → s.fields.get? field = some id →
        s.tree.contains id = false) → a.create e = .ok start →
      Obtains e s (s.tree.insert { element := start }).1 start
        { s with
          tree := (s.tree.insert { element := start }).2
          fields := match e.field with
            | some field => s.fields.insert field (s.tree.insert { element := start }).1
            | none => s.fields }

/-- The node for an element is that of its field, or a new one. -/
lemma nodeFor_obtains (root : ScopeRoot) (e : Element) (s : Run H) :
    Live.Meets s (a.nodeFor root e) (fun id s' => ∃ start, a.Obtains e s id start s')
      (fun s' => s' = s) := by
  unfold nodeFor
  cases hf : e.field with
  | none =>
    simp only [Live.Meets, insertNew]
    cases hc : a.create e with
    | error error => rfl
    | ok start =>
      have new := Obtains.new (s := s) (fun field id h => by rw [hf] at h; cases h) hc
      rw [hf] at new
      exact ⟨start, new⟩
  | some field =>
    refine Live.Meets.bind ?_
    rw [Live.meets_get]
    cases hg : (s.fields.get? field).filter s.tree.contains with
    | some id =>
      obtain ⟨hget, halive⟩ := Option.filter_eq_some_iff.1 hg
      obtain ⟨slot, hslot⟩ := contains_iff.1 halive
      exact ⟨_, .kept hf hget (get?_of_slot? hslot)⟩
    | none =>
      have hgone : ∀ field' id, e.field = some field' → s.fields.get? field' = some id →
          s.tree.contains id = false := by
        intro field' id he hid
        rw [hf] at he
        cases he
        rw [hid, Option.filter_eq_none_iff] at hg
        simpa using hg id rfl
      simp only
      split
      · refine Live.Meets.bind ?_
        unfold Live.Meets insertNew
        cases hc : a.create e with
        | error error => rfl
        | ok start =>
          have new := Obtains.new hgone hc
          rw [hf] at new
          exact ⟨start, new⟩
      · rfl

/-- **What placing an element comes to**, whatever is known of the tree: its node is one that its field
holds, or a new one. In a tree in which the node is as the element has it, the node goes below the
parent, if it may. -/
structure Puts (d : Definition) (parent : NodeId) (arranged : Bool) (e : Element) (s : Run H)
    (id : NodeId) (start : VisualElement H) (ready : ViewTree H) (s' : Run H) : Prop where
  /-- The links of the tree fit together. -/
  forest : s.tree.Forest → ready.Forest
  /-- The node is as the element has it. -/
  get?_id : ready.get? id = some (a.dress d e start)
  /-- Other nodes are as they were. -/
  get?_of_ne : ∀ x, x ≠ id → ready.get? x = s.tree.get? x
  /-- All nodes are where they were. -/
  parent?_eq : ∀ x, ready.parent? x = s.tree.parent? x
  /-- No slot is taken back. -/
  size_le : s.tree.slots.size ≤ ready.slots.size
  /-- The field held the node, or the node is new and what the field held is gone. -/
  source : (∃ f n, e.field = some f ∧ s.fields.get? f = some id ∧ s.tree.get? id = some n ∧
      start = n.element) ∨
    id.index = s.tree.slots.size ∧ a.create e = .ok start ∧
      ∀ f w, e.field = some f → s.fields.get? f = some w → s.tree.contains w = false
  /-- The field holds the node. -/
  get?_field : ∀ f, e.field = some f → s'.fields.get? f = some id
  /-- Other fields hold what they held. -/
  get?_of_field_ne : ∀ f, e.field ≠ some f → s'.fields.get? f = s.fields.get? f
  /-- The node goes below the parent, if it may. -/
  tree_eq : s'.tree = (ready.attach? id parent arranged).getD ready
  /-- The element is noted as placed. -/
  placed_eq : s'.placed = s.placed ++ [⟨e, id, parent⟩]

namespace Puts

variable {a} {d : Definition} {parent id : NodeId} {arranged : Bool} {e : Element} {s s' : Run H}
  {start : VisualElement H}

/-- A tree stays a forest when a node is put into its place. -/
lemma forest' (P : a.Puts d parent arranged e s id start t s') (F : s.tree.Forest) :
    s'.tree.Forest := by
  rw [P.tree_eq]
  exact (P.forest F).attach?_getD _ _ _

/-- It does not shrink. -/
lemma size_le' (P : a.Puts d parent arranged e s id start t s') :
    s.tree.slots.size ≤ s'.tree.slots.size := by
  rw [P.tree_eq]
  cases h : t.attach? id parent arranged with
  | none => exact P.size_le
  | some t' => exact P.size_le.trans (size_slots_attach? h).ge

/-- Going below another node does not change what nodes hold. -/
lemma get?_eq (P : a.Puts d parent arranged e s id start t s') (x : NodeId) :
    s'.tree.get? x = t.get? x := by
  rw [P.tree_eq]
  cases h : t.attach? id parent arranged with
  | none => rfl
  | some t' => exact get?_attach? h x

/-- The node is there. -/
lemma contains_id (P : a.Puts d parent arranged e s id start t s') : t.contains id = true := by
  rw [← isSome_get?, P.get?_id]
  rfl

/-- No other node comes or goes. -/
lemma contains_of_ne (P : a.Puts d parent arranged e s id start t s') {x : NodeId}
    (hx : x ≠ id) : t.contains x = s.tree.contains x := by
  rw [← isSome_get?, ← isSome_get?, P.get?_of_ne x hx]

/-- Nodes that were given out before are alive if they were. -/
lemma contains_of_issued (P : a.Puts d parent arranged e s id start t s') {x : NodeId}
    (hx : s.tree.Issued x) : s'.tree.contains x = s.tree.contains x := by
  have hready : s'.tree.contains x = t.contains x := by
    rw [← isSome_get?, ← isSome_get?, P.get?_eq]
  rw [hready]
  by_cases he : x = id
  · subst he
    obtain ⟨_, n, -, -, hn, -⟩ | ⟨hnew, -⟩ := P.source
    · rw [P.contains_id, ← isSome_get?, hn]
      rfl
    · exact absurd hnew (Nat.ne_of_lt hx)
  · exact P.contains_of_ne he

/-- Nodes other than the element's are where they were. -/
lemma parent?_of_ne (P : a.Puts d parent arranged e s id start t s') {x : NodeId} (hx : x ≠ id) :
    s'.tree.parent? x = s.tree.parent? x := by
  rw [P.tree_eq, ← P.parent?_eq x]
  cases h : t.attach? id parent arranged with
  | none => rfl
  | some t' => exact (parent?_attach? h x).trans (if_neg hx.symm)

/-- The element's node is below the parent or where it was. -/
lemma parent?_id (P : a.Puts d parent arranged e s id start t s') :
    s'.tree.parent? id = some parent ∨
      t.canAttach id parent = false ∧ s'.tree.parent? id = s.tree.parent? id := by
  rw [P.tree_eq, ← P.parent?_eq id]
  cases h : t.attach? id parent arranged with
  | none =>
    have hsome := isSome_attach? t id parent arranged
    rw [h] at hsome
    exact .inr ⟨hsome.symm, rfl⟩
  | some t' => exact .inl ((parent?_attach? h id).trans (if_pos rfl))

end Puts

variable [Widget H]

/-- **Placing an element**, with nothing known of the tree. If it fails, nothing has changed. -/
theorem placeOne_puts (root : ScopeRoot) (d : Definition) (parent : NodeId) (parentKind : Kind)
    (e : Element) (s : Run H) :
    Live.Meets s (a.placeOne root d parent parentKind e)
      (fun id s' => ∃ start ready,
        a.Puts d parent parentKind.arrangesChildren e s id start ready s')
      (fun s' => s' = s) := by
  unfold placeOne
  refine Live.Meets.bind ((a.nodeFor_obtains root e s).imp ?_ fun _ h => h)
  rintro id s₁ ⟨start, O⟩
  refine Live.Meets.bind ?_
  rw [Live.meets_modify]
  refine Live.Meets.bind ?_
  obtain ⟨warnings, hassign⟩ := a.assign_eq id e.kind d.typeName e.name (a.sheets.resolve d e)
    { s₁ with tree := s₁.tree.modify id (prepare e) }
  refine .of_eq hassign (Live.Meets.bind ?_)
  rw [Live.meets_modify, Live.meets_pure]
  refine ⟨start, (s₁.tree.modify id (prepare e)).modify id
    (a.capabilities.setOn e.kind (a.sheets.resolve d e).properties), ?_⟩
  have links := (SameLinks.modify s₁.tree id (prepare e)).trans
    (.modify _ id (a.capabilities.setOn e.kind (a.sheets.resolve d e).properties))
  have hsize : ((s₁.tree.modify id (prepare e)).modify id
      (a.capabilities.setOn e.kind (a.sheets.resolve d e).properties)).slots.size =
      s₁.tree.slots.size := by simp only [ViewTree.modify, size_slots_modifySlot]
  have dressed : ∀ n : ViewNode H, n.element = start →
      a.capabilities.setOn e.kind (a.sheets.resolve d e).properties (prepare e n) =
        a.dress d e start := by
    rintro n rfl
    rfl
  cases O with
  | @kept field _ n hf hid hn =>
    exact
      { forest := links.forest
        get?_id := by simp only [get?_modify, if_pos, hn, Option.map_some, dressed n rfl]
        get?_of_ne := fun x hx => by simp only [get?_modify, if_neg hx.symm]
        parent?_eq := links.parent?_eq
        size_le := hsize.ge
        source := .inl ⟨field, n, hf, hid, hn, rfl⟩
        get?_field := fun f he => by rw [← hid, Option.some.inj (he.symm.trans hf)]
        get?_of_field_ne := fun _ _ => rfl
        tree_eq := rfl
        placed_eq := rfl }
  | new hgone hc =>
    have hnew : (s.tree.insert { element := start }).2.get? (s.tree.insert { element := start }).1 =
        some { element := start } := by rw [get?, slot?_insert, if_pos rfl]; rfl
    exact
      { forest := fun F => links.forest (F.insert _)
        get?_id := by
          simp only [get?_modify, if_pos, hnew, Option.map_some, dressed { element := start } rfl]
        get?_of_ne := fun x hx => by
          simp only [get?_modify, if_neg hx.symm]
          rw [get?, get?, slot?_insert, if_neg hx]
        parent?_eq := fun x => (links.parent?_eq x).trans (parent?_insert _ _ _)
        size_le := by
          rw [hsize]
          simp [ViewTree.insert]
        source := .inr ⟨rfl, hc, hgone⟩
        get?_field := fun f he => by
          simp only [he]
          exact (Table.get?_insert _ _ _ _).trans (if_pos rfl)
        get?_of_field_ne := fun f hne => by
          cases he : e.field with
          | none => rfl
          | some field =>
            rw [he] at hne
            exact (Table.get?_insert _ _ _ _).trans (if_neg fun h => hne (congrArg some h))
        tree_eq := rfl
        placed_eq := rfl }

/-- Beginning a scope takes apart what is below a living node, and gives the node its properties. -/
lemma beginScope_clears (root : ScopeRoot) (d : Definition) (s : Run H) :
    Live.Meets s (a.beginScope root d)
      (fun _ s' => s.tree.contains root.node = true ∧ s'.fields = s.fields ∧ s'.placed = s.placed ∧
        s'.tree = (clear s.tree root.node s.fields.values).modify root.node
          (a.capabilities.setOn .container (a.sheets.resolveRoot d).properties))
      (fun s' => s' = s) := by
  unfold beginScope
  refine Live.Meets.bind ?_
  rw [Live.meets_get]
  split
  · next hroot =>
    refine Live.Meets.bind ?_
    rw [Live.meets_set]
    obtain ⟨warnings, hassign⟩ := a.assign_eq root.node .container d.typeName "self"
      (a.sheets.resolveRoot d)
      { s with
        tree := clear s.tree root.node s.fields.values
        definitions := s.definitions ++ [d.typeName] }
    exact .of_eq hassign ⟨hroot, rfl, rfl, rfl⟩
  · exact rfl

/-- The definition that a reference leads to is applied in a scope of its own; if there is none to be
entered, there may be a warning. -/
lemma applyReference_cases (active : List String) (typeName element : String) (id : NodeId)
    (r : Option TypeReference) :
    (∃ nested, a.enters? active r = some nested ∧
      a.applyReference active typeName element id r = inNewScope (do
        let _ ← a.applyScope (nested.typeName :: active) ⟨id, nested.typeName, true⟩ nested)) ∨
    a.enters? active r = none ∧ (a.applyReference active typeName element id r = pure () ∨
      ∃ w, a.applyReference active typeName element id r = warn w) := by
  match r with
  | none =>
    rw [applyReference]
    exact .inr ⟨rfl, .inl rfl⟩
  | some (.inline nested) =>
    rw [applyReference, enters?]
    split
    · exact .inr ⟨rfl, .inr ⟨_, rfl⟩⟩
    · exact .inl ⟨nested, rfl, rfl⟩
  | some (.named name) =>
    rw [applyReference_named, enters?]
    cases a.library.get? name with
    | none => exact .inr ⟨rfl, .inl rfl⟩
    | some nested =>
      by_cases hn : nested.typeName ∈ active
      · exact .inr ⟨by simp [hn], .inr ⟨_, if_pos hn⟩⟩
      · exact .inl ⟨nested, by simp [hn], if_neg hn⟩

/-! ### Nodes that were gone -/

/-- A run in which no node that was gone has come to life again. -/
structure Continuing (t₀ : ViewTree H) (s : Run H) : Prop where
  forest : s.tree.Forest
  size_le : t₀.slots.size ≤ s.tree.slots.size
  continues : t₀.Continues s.tree

omit [Widget H] in
/-- Setting constraints changes no links and takes no slots. -/
lemma constrain_sameLinks (typeName : String) (s : Run H) :
    Live.Meets s (constrain typeName)
      (fun _ s' => s'.fields = s.fields ∧ s'.placed = s.placed ∧ s.tree.SameLinks s'.tree ∧
        s'.tree.slots.size = s.tree.slots.size)
      (fun s' => s' = s) := by
  unfold Live.Meets constrain
  cases allConstraints typeName s.placed with
  | error e => rfl
  | ok rebuilt =>
    have hsize : ∀ (changes : List (NodeId × List LiveConstraint)) (t : ViewTree H),
        (changes.foldl (fun t e => t.modify e.1 (withConstraints e.2)) t).slots.size =
          t.slots.size := by
      intro changes
      induction changes with
      | nil => exact fun _ => rfl
      | cons change changes ih => exact fun t => (ih _).trans (size_slots_modifySlot _ _ _)
    exact ⟨rfl, rfl, sameLinks_foldl_modify s.tree rebuilt, hsize rebuilt s.tree⟩

omit [Widget H] in
/-- A run continues if the links stay and no node is added. -/
lemma Continuing.congr {s s' : Run H} (h : Continuing t₀ s) (hlinks : s.tree.SameLinks s'.tree)
    (hsize : s'.tree.slots.size = s.tree.slots.size) : Continuing t₀ s' where
  forest := hlinks.forest h.forest
  size_le := h.size_le.trans hsize.ge
  continues := h.continues.mono fun x _ hx => by rwa [hlinks.contains_eq] at hx

/-- **An application never brings a node back.** -/
theorem invariant_continuing (t₀ : ViewTree H) :
    Invariant a (Continuing t₀) (fun _ => True) (fun _ => True) where
  inline _ _ _ _ _ _ := trivial
  named _ _ _ := trivial
  enter _ h := ⟨h.forest, h.size_le, h.continues⟩
  leave _ _ _ h := ⟨h.forest, h.size_le, h.continues⟩
  warn _ _ _ _ h := ⟨h.forest, h.size_le, h.continues⟩
  beginScope root d _ _ s h := by
    refine (a.beginScope_clears root d s).imp ?_ fun s' hs => hs ▸ h
    rintro _ s' ⟨-, -, -, htree⟩
    have hclear : Continuing t₀ { s with tree := clear s.tree root.node s.fields.values } :=
      { forest := forest_clear _ _ h.forest
        size_le := h.size_le.trans (size_slots_clear _ _ _).ge
        continues := h.continues.mono fun x _ hx => ((contains_clear_iff h.forest).1 hx).1 }
    exact hclear.congr (htree ▸ .modify _ _ _) (htree ▸ size_slots_modifySlot _ _ _)
  placeOne root d parent parentKind e _ _ _ s h := by
    refine (a.placeOne_puts root d parent parentKind e s).imp ?_ fun s' hs => by rw [hs]; exact h
    rintro id s' ⟨start, ready, P⟩
    refine ⟨⟨P.forest' h.forest, h.size_le.trans P.size_le', h.continues.mono fun x hx halive => ?_⟩,
      trivial⟩
    rwa [P.contains_of_issued (hx.mono h.size_le)] at halive
  constrain typeName s h := by
    refine (constrain_sameLinks typeName s).imp ?_ fun s' hs => hs ▸ h
    exact fun _ s' ⟨_, _, hlinks, hsize⟩ => h.congr hlinks hsize

end Applier

/-! ### A scope inside -/

/-- **What is below a node has been exchanged**: all of it has gone, and new nodes may have come. All
other nodes are alive if they were, and stay where they were. -/
structure ViewTree.Exchanges (t : ViewTree H) (id : NodeId) (t' : ViewTree H) : Prop where
  /-- The links of the tree fit together. -/
  forest : t'.Forest
  /-- No slot is taken back. -/
  size_le : t.slots.size ≤ t'.slots.size
  /-- Of the nodes that were given out before, those below the node are gone. -/
  contains_iff : ∀ x, t.Issued x →
    (t'.contains x = true ↔ t.contains x = true ∧ ¬ t.IsBelow x id)
  /-- The others are where they were. -/
  parent?_eq : ∀ x, t.Issued x → t'.contains x = true → t'.parent? x = t.parent? x

/-- What is reserved when a definition is applied to a node that has nothing below it: all other
nodes. -/
def Reserve.ofBare (F : t.Forest) {id : NodeId} (h : t.children id = []) : Reserve t where
  isReserved x := t.contains x = true ∧ x ≠ id
  isHeld _ := False
  forest := F
  contains _ hx := hx.1
  parent x p hx hp := ⟨F.contains_parent hp, by
    rintro rfl
    have hmem := (F.mem_children_iff x p).2 hp
    rw [h] at hmem
    cases hmem⟩

/-- A node with nothing below it stays where it is if all other nodes are kept: they keep their
children. -/
lemma Reserve.Keeps.parent?_of_bare {F : t.Forest} {id p : NodeId} {hbare : t.children id = []}
    (K : (Reserve.ofBare F hbare).Keeps t') (hp : t.parent? id = some p) : t'.parent? id = some p := by
  have hne : p ≠ id := by
    rintro rfl
    exact F.acyclic _ (.single hp)
  obtain ⟨slot, moved, hslot, hmoved, hslot'⟩ :=
    K.exists_slot? (x := p) ⟨F.contains_parent hp, hne⟩
  rw [← K.forest.mem_children_iff, children_of_slot? hslot']
  rw [← F.mem_children_iff, children_of_slot? hslot] at hp
  have hstays : id ∉ moved := fun h => hmoved id h
  exact List.mem_filter.2 ⟨hp, by simpa using hstays⟩

namespace Applier

/-- What is below a node has been exchanged if it is taken apart, and then all other nodes are kept and
no node that was gone comes to life again. -/
theorem exchanges_of_clear (F : t.Forest) {id p : NodeId} (hp : t.parent? id = some p)
    (K : (Reserve.ofBare (forest_clear id [] F) (children_clear F id [])).Keeps t')
    (C : (clear t id []).Continues t') : t.Exchanges id t' := by
  have hcleared : ∀ x, (clear t id []).contains x = true ↔
      t.contains x = true ∧ ¬ t.IsBelow x id := fun x => by
    rw [contains_clear_iff F]
    simp only [List.not_mem_nil, imp_false]
  have hparent : ∀ x, (clear t id []).contains x = true →
      (clear t id []).parent? x = t.parent? x := fun x hx => by
    rw [parent?_clear F, if_neg]
    rw [F.mem_descendants_iff]
    exact ((hcleared x).1 hx).2
  have hsize : (clear t id []).slots.size = t.slots.size := size_slots_clear _ _ _
  have hnode : t'.parent? id = some p := by
    refine K.parent?_of_bare ?_
    rw [hparent _ ((hcleared id).2 ⟨contains_of_parent? hp, F.acyclic _⟩), hp]
  refine ⟨K.forest, hsize ▸ K.size_le, fun x hx => ?_, fun x hx halive => ?_⟩
  · rw [← hcleared]
    refine ⟨C x (by rw [Issued, hsize]; exact hx), fun halive => ?_⟩
    by_cases he : x = id
    · exact he ▸ contains_of_parent? hnode
    · exact K.contains ⟨halive, he⟩
  · by_cases he : x = id
    · rw [he, hnode, hp]
    · have hkept : (clear t id []).contains x = true :=
        C x (by rw [Issued, hsize]; exact hx) halive
      rw [K.parent?_eq ⟨hkept, he⟩, hparent x hkept]

variable [Widget H] (a : Applier H)

/-- A scope that begins without fields begins as if what is below its node had been taken apart
before. -/
lemma applyScope_cleared (active : List String) {root : ScopeRoot} (d : Definition) {s : Run H}
    (F : s.tree.Forest) (hroot : s.tree.contains root.node = true) (hf : s.fields = {}) :
    a.applyScope active root d s =
      a.applyScope active root d { s with tree := clear s.tree root.node [] } := by
  have hroot' : (clear s.tree root.node []).contains root.node = true :=
    (contains_clear_iff F).2 ⟨hroot, fun h => (F.acyclic _ h).elim⟩
  have hclear : clear (clear s.tree root.node []) root.node [] = clear s.tree root.node [] :=
    clear_of_children (forest_clear _ _ F) (children_clear F _ _) []
  have hbegin : a.beginScope root d s =
      a.beginScope root d { s with tree := clear s.tree root.node [] } := by
    obtain ⟨tree, fields, placed, warnings, definitions⟩ := s
    subst hf
    have hvalues : ({} : Table String NodeId).values = [] := rfl
    simp only [beginScope, bind, EStateM.bind, get, getThe, MonadStateOf.get, EStateM.get, set,
      EStateM.set, hroot, hroot', hvalues, hclear, if_true]
  rw [applyScope]
  simp only [bind, EStateM.bind, hbegin]

/-- **A definition is applied inside a node** that is below another one. -/
theorem applyScope_exchanges (active : List String) (root : ScopeRoot) (d : Definition) {s : Run H}
    (F : s.tree.Forest) {p : NodeId} (hp : s.tree.parent? root.node = some p) (hf : s.fields = {})
    (hplaced : s.placed = []) :
    Live.Meets s (a.applyScope active root d) (fun _ s' => s.tree.Exchanges root.node s'.tree)
      (fun s' => s.tree.Exchanges root.node s'.tree) := by
  have hroot := contains_of_parent? hp
  have F₁ : (clear s.tree root.node []).Forest := forest_clear _ _ F
  -- The run that begins with the cleared tree keeps all other nodes and brings none back.
  have keeps := (Reserve.ofBare F₁ (children_clear F _ _)).applyScope_respects a active root d
    (fun h => h.2 rfl)
    { s with tree := clear s.tree root.node [] }
    { tree := .refl _
      fields := fun f id h => by rw [show s.fields = {} from hf] at h; cases h
      placed := fun q hq => by rw [show s.placed = [] from hplaced] at hq; cases hq }
  have continues := (a.invariant_continuing (clear s.tree root.node [])).applyScope active root d
    trivial trivial { s with tree := clear s.tree root.node [] } ⟨F₁, Nat.le_refl _, .refl _⟩
  unfold Live.Meets at keeps continues ⊢
  rw [a.applyScope_cleared active d F hroot hf]
  split <;> rename_i hs <;> rw [hs] at keeps continues <;>
    exact exchanges_of_clear F hp keeps.tree continues.continues

/-- What an application to the component of an element does to the scope around it: it keeps its
fields and its elements; below the node everything is exchanged if there is a definition to be
entered, else nothing happens. -/
structure Within (nested : Option Definition) (id : NodeId) (s s' : Run H) : Prop where
  fields_eq : s'.fields = s.fields
  placed_eq : s'.placed = s.placed
  tree : match nested with
    | some _ => s.tree.Exchanges id s'.tree
    | none => s'.tree = s.tree

/-- **The component of an element**: its definition is applied, or there is none to be entered. -/
theorem applyReference_exchanges (active : List String) (typeName element : String) {id p : NodeId}
    (r : Option TypeReference) {s : Run H} (F : s.tree.Forest) (hp : s.tree.parent? id = some p) :
    Live.Meets s (a.applyReference active typeName element id r)
      (fun _ s' => Within (a.enters? active r) id s s')
      (fun s' => Within (a.enters? active r) id s s') := by
  have entered : ∀ nested : Definition, Live.Meets s
      (inNewScope do
        let _ ← a.applyScope (nested.typeName :: active) ⟨id, nested.typeName, true⟩ nested)
      (fun _ s' => Within (some nested) id s s') (fun s' => Within (some nested) id s s') := by
    intro nested
    refine meets_inNewScope (Live.Meets.bind ?_)
    refine (a.applyScope_exchanges (s := { s with fields := {}, placed := [] }) _
      ⟨id, nested.typeName, true⟩ nested F hp rfl rfl).imp ?_ ?_
    · exact fun _ s' E => ⟨rfl, rfl, E⟩
    · exact fun s' E => ⟨rfl, rfl, E⟩
  obtain ⟨nested, hn, h⟩ | ⟨hn, h | ⟨w, h⟩⟩ := a.applyReference_cases active typeName element id r
  · rw [hn, h]
    exact entered nested
  · rw [hn, h]
    exact ⟨rfl, rfl, rfl⟩
  · rw [hn, h]
    exact ⟨rfl, rfl, rfl⟩

end Applier

end ViewMarkup
