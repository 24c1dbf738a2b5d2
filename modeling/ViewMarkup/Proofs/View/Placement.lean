import ViewMarkup.Proofs.Document.Scopes
import ViewMarkup.Proofs.View.Clearing

/-!
# Placing one element

An element takes the node that its field holds, or a new one. Either way the node stands by itself
at the time, so that it can always go below its parent, where it becomes the last one.

## Main definitions

* `Live.Meets` — what holds after a step, whether it fails or not.
* `Applier.dress` — what an element makes of a visual element.
* `Applier.Supplies` — where the node of an element comes from.

## Main statements

* `ViewTree.Forest.attach_isLoose` — putting a node that stands by itself below another.
* `Applier.placeOne_meets` — what placing an element does to the tree.
-/

namespace ViewMarkup

variable {H : Type}

/-! ### Steps that may fail -/

namespace Live

variable {α β : Type} {s : Run H} {x : Live H α} {ok : α → Run H → Prop} {fail : Run H → Prop}

/-- What holds after a step from a state: one thing if it succeeds, another if it fails. -/
def Meets (s : Run H) (x : Live H α) (ok : α → Run H → Prop) (fail : Run H → Prop) : Prop :=
  match x s with
  | .ok a s' => ok a s'
  | .error _ s' => fail s'

/-- A composition meets what its second part meets after its first. -/
lemma Meets.bind {f : α → Live H β} {ok : β → Run H → Prop}
    (h : Meets s x (fun a s' => Meets s' (f a) ok fail) fail) : Meets s (x >>= f) ok fail := by
  unfold Meets at *
  simp only [Bind.bind, EStateM.bind]
  cases hx : x s with
  | ok a s' =>
    rw [hx] at h
    exact h
  | error e s' =>
    rw [hx] at h
    exact h

/-- Less may be asked of a step. -/
lemma Meets.imp {ok' : α → Run H → Prop} {fail' : Run H → Prop} (h : Meets s x ok fail)
    (hok : ∀ a s', ok a s' → ok' a s') (hfail : ∀ s', fail s' → fail' s') :
    Meets s x ok' fail' := by
  unfold Meets at *
  split
  · next hx =>
    rw [hx] at h
    exact hok _ _ h
  · next hx =>
    rw [hx] at h
    exact hfail _ h

/-- A change of the state never fails. -/
lemma modify_apply (f : Run H → Run H) (s : Run H) : (modify f : Live H Unit) s = .ok () (f s) :=
  rfl

/-- Looking at the state gives the state. -/
lemma meets_get {ok : Run H → Run H → Prop} : Meets s get ok fail ↔ ok s s := Iff.rfl

/-- Replacing the state replaces it. -/
lemma meets_set {s' : Run H} {ok : PUnit → Run H → Prop} : Meets s (set s') ok fail ↔ ok ⟨⟩ s' :=
  Iff.rfl

/-- A result without a step leaves the state. -/
lemma meets_pure {v : α} : Meets s (pure v) ok fail ↔ ok v s := Iff.rfl

/-- A change of the state changes it. -/
lemma meets_modify {f : Run H → Run H} {ok : Unit → Run H → Prop} :
    Meets s (modify f) ok fail ↔ ok () (f s) :=
  Iff.rfl

end Live

/-! ### Going below another node -/

namespace ViewTree

variable {t : ViewTree H}

/-- A node that stands by itself may go below any other one. -/
theorem Forest.attach_isLoose (F : Forest t) {id parent : NodeId} (hl : t.IsLoose id)
    (hp : t.contains parent = true) (hne : id ≠ parent) (arranged : Bool) :
    ∃ t', t.attach? id parent arranged = some t' ∧ Forest t' ∧
      ∀ x, t'.slot? x = (t.slot? x).map fun s =>
        { s with
          attachment := if id = x then some ⟨parent, arranged⟩ else s.attachment
          children := if parent = x then s.children ++ [id] else s.children } := by
  have hc : t.canAttach id parent = true :=
    canAttach_iff.2 ⟨hl.contains, hp, hne, fun h =>
      F.not_isBelow hl.children parent (F.mem_ancestors_iff.1 h)⟩
  obtain ⟨t', ht'⟩ := Option.isSome_iff_exists.1 ((isSome_attach? t id parent arranged).trans hc)
  refine ⟨t', ht', F.attach? ht', fun x => ?_⟩
  rw [slot?_attach? ht', detach_of_parent? hl.parent?]

/-- A change of a node matters where the node is alone. -/
lemma modify_congr {t : ViewTree H} {id : NodeId} {f g : ViewNode H → ViewNode H}
    (h : ∀ n, t.get? id = some n → f n = g n) : t.modify id f = t.modify id g := by
  unfold modify modifySlot
  split
  · next s hs => simp only [h s.node (get?_of_slot? hs)]
  · rfl

/-- A node that is gone cannot be changed. -/
lemma modify_of_get? {t : ViewTree H} {id : NodeId} (h : t.get? id = none)
    (f : ViewNode H → ViewNode H) : t.modify id f = t := by
  unfold modify modifySlot
  split
  · next s hs =>
    rw [get?_of_slot? hs] at h
    cases h
  · rfl

end ViewTree

/-! ### Properties -/

/-- The element with properties set in order; those that cannot be set change nothing. -/
def Capabilities.setAll (c : Capabilities H) (kind : Kind) (ps : List Property)
    (v : VisualElement H) : VisualElement H :=
  ps.foldl (fun v p =>
    match c.set kind v p with
    | .applied v' => v'
    | _ => v) v

/-- The node with properties of its element set. -/
def Capabilities.setOn (c : Capabilities H) (kind : Kind) (ps : List Property) (n : ViewNode H) :
    ViewNode H :=
  { n with element := c.setAll kind ps n.element }

namespace Applier

variable [Widget H] (a : Applier H)

/-- Setting properties one by one, with warnings, gives the view that setting them all gives. -/
lemma foldl_setOne (kind : Kind) (typeName element : String) (ps : List Property)
    (v : VisualElement H) (warnings : List ApplyWarning) :
    (ps.foldl (a.setOne kind typeName element) (v, warnings)).1 =
      a.capabilities.setAll kind ps v := by
  unfold Capabilities.setAll
  induction ps generalizing v warnings with
  | nil => rfl
  | cons p ps ih =>
    rw [List.foldl_cons, List.foldl_cons, setOne]
    cases a.capabilities.set kind v p <;> exact ih _ _

/-- Giving a node its properties changes its element and the warnings alone. -/
lemma assign_eq (id : NodeId) (kind : Kind) (typeName element : String) (r : Resolved)
    (s : Run H) : ∃ warnings, a.assign id kind typeName element r s = .ok ()
      { s with
        tree := s.tree.modify id (a.capabilities.setOn kind r.properties)
        warnings } := by
  cases hn : s.tree.get? id with
  | none =>
    refine ⟨s.warnings ++ skippedWarnings typeName element r, ?_⟩
    rw [ViewTree.modify_of_get? hn, assign, Live.modify_apply]
    simp only [hn]
  | some n =>
    rcases hv : r.properties.foldl (a.setOne kind typeName element) (n.element, [])
      with ⟨v, warnings⟩
    have hset : v = a.capabilities.setAll kind r.properties n.element := by
      rw [← a.foldl_setOne kind typeName element r.properties n.element [], hv]
    refine ⟨s.warnings ++ skippedWarnings typeName element r ++ warnings, ?_⟩
    rw [assign, Live.modify_apply]
    simp only [hn, hv]
    congr 2
    refine ViewTree.modify_congr fun n' hn' => ?_
    rw [hn] at hn'
    cases hn'
    rw [hset]
    rfl

/-- What an element makes of a visual element: a node with its name, its priorities and its
properties. Along an axis without a declared priority the node resists compression with high and
hugs its content with low priority. -/
def dress (d : Definition) (e : Element) (start : VisualElement H) : ViewNode H where
  element := a.capabilities.setAll e.kind (a.sheets.resolve d e).properties start
  name := some e.name
  constraints := []
  compression :=
    ⟨e.layout.compression.horizontal.getD .high, e.layout.compression.vertical.getD .high⟩
  hugging := ⟨e.layout.hugging.horizontal.getD .low, e.layout.hugging.vertical.getD .low⟩

/-! ### The node of an element -/

/-- No node can be had for an element: it is a field of a component that does not create its fields,
or nothing creates elements of its type. -/
def Refuses (adopts : Bool) (e : Element) : Prop :=
  (adopts = false ∧ e.field.isSome = true) ∨ ∃ error, a.create e = .error error

/-- Where the node of an element comes from: the field of the element holds it, or it is a new one
with a fresh visual element, which the field holds from then on. Either way the visual element that
it begins with is given. -/
inductive Supplies (e : Element) (s : Run H) : NodeId → VisualElement H → Run H → Prop where
  /-- The field holds a node that stands by itself. -/
  | kept {field : String} {id : NodeId} {n : ViewNode H} : e.field = some field →
      s.fields.get? field = some id → s.tree.slot? id = some { node := n } →
      Supplies e s id n.element s
  /-- There is no field or it holds nothing. -/
  | new {start : VisualElement H} : (∀ field, e.field = some field → s.fields.get? field = none) →
      a.create e = .ok start →
      Supplies e s (s.tree.insert { element := start }).1 start
        { s with
          tree := (s.tree.insert { element := start }).2
          fields := match e.field with
            | some field => s.fields.insert field (s.tree.insert { element := start }).1
            | none => s.fields }

omit [Widget H] in
/-- The node of an element, unless none can be had; then nothing has changed. -/
lemma nodeFor_meets (root : ScopeRoot) (e : Element) (s : Run H)
    (hl : ∀ field id, e.field = some field → s.fields.get? field = some id → s.tree.IsLoose id) :
    Live.Meets s (a.nodeFor root e) (fun id s' => ∃ start, a.Supplies e s id start s')
      (fun s' => s = s' ∧ a.Refuses root.adopts e) := by
  unfold nodeFor
  cases hf : e.field with
  | none =>
    simp only [Live.Meets, insertNew]
    cases hc : a.create e with
    | error error => exact ⟨rfl, .inr ⟨error, hc⟩⟩
    | ok start =>
      have new := Supplies.new (s := s) (e := e) (fun field h => by rw [hf] at h; cases h) hc
      rw [hf] at new
      exact ⟨start, new⟩
  | some field =>
    refine Live.Meets.bind ?_
    rw [Live.meets_get]
    cases hg : s.fields.get? field with
    | some id =>
      obtain ⟨n, hn⟩ := hl field id hf hg
      rw [Option.filter_some, if_pos (ViewTree.contains_iff.2 ⟨_, hn⟩)]
      exact ⟨n.element, .kept hf hg hn⟩
    | none =>
      rw [Option.filter_none]
      simp only
      split
      · refine Live.Meets.bind ?_
        unfold Live.Meets insertNew
        cases hc : a.create e with
        | error error => exact ⟨rfl, .inr ⟨error, hc⟩⟩
        | ok start =>
          have new := Supplies.new (s := s) (e := e) (fun field' h => by
            rw [hf] at h
            cases h
            exact hg) hc
          rw [hf] at new
          exact ⟨start, new⟩
      · next ha => exact ⟨rfl, .inl ⟨Bool.eq_false_iff.2 ha, by rw [hf]; rfl⟩⟩

namespace Supplies

variable {a} {e : Element} {s s₁ : Run H} {id : NodeId} {start : VisualElement H}

omit [Widget H] in
/-- The node that an element gets stands by itself. -/
lemma slot?_eq (h : a.Supplies e s id start s₁) :
    ∃ n : ViewNode H, n.element = start ∧ s₁.tree.slot? id = some { node := n } := by
  cases h with
  | kept _ _ hn => exact ⟨_, rfl, hn⟩
  | new _ _ => exact ⟨_, rfl, (ViewTree.slot?_insert _ _ _).trans (if_pos rfl)⟩

omit [Widget H] in
/-- Other nodes are not touched. -/
lemma slot?_of_ne (h : a.Supplies e s id start s₁) {x : NodeId} (hx : x ≠ id) :
    s₁.tree.slot? x = s.tree.slot? x := by
  cases h with
  | kept _ _ _ => rfl
  | new _ _ => exact (ViewTree.slot?_insert _ _ _).trans (if_neg hx)

omit [Widget H] in
/-- A tree stays a forest when a node is supplied. -/
lemma forest (h : a.Supplies e s id start s₁) (F : s.tree.Forest) : s₁.tree.Forest := by
  cases h with
  | kept _ _ _ => exact F
  | new _ _ => exact F.insert _

omit [Widget H] in
/-- Supplying a node places nothing. -/
lemma placed_eq (h : a.Supplies e s id start s₁) : s₁.placed = s.placed := by
  cases h <;> rfl

omit [Widget H] in
/-- The node is not one that lived before, unless the element's field held it. -/
lemma ne_of_contains (h : a.Supplies e s id start s₁) {x : NodeId}
    (hx : s.tree.contains x = true)
    (hh : ∀ field, e.field = some field → s.fields.get? field ≠ some x) : id ≠ x := by
  cases h with
  | kept hf hg _ =>
    rintro rfl
    exact hh _ hf hg
  | new _ _ =>
    rintro rfl
    rw [ViewTree.contains_fst_insert] at hx
    cases hx

omit [Widget H] in
/-- A node is supplied by the field of its element, or it is new. -/
lemma source (h : a.Supplies e s id start s₁) :
    (∃ field n, e.field = some field ∧ s.fields.get? field = some id ∧
      s.tree.get? id = some n ∧ start = n.element) ∨
    (∀ field, e.field = some field → s.fields.get? field = none) ∧ a.create e = .ok start ∧
      s.tree.contains id = false := by
  cases h with
  | kept hf hg hn => exact .inl ⟨_, _, hf, hg, ViewTree.get?_of_slot? hn, rfl⟩
  | new hg hc => exact .inr ⟨hg, hc, ViewTree.contains_fst_insert _ _⟩

omit [Widget H] in
/-- The field of the element holds the node. -/
lemma get?_field (h : a.Supplies e s id start s₁) (field : String) (hf : e.field = some field) :
    s₁.fields.get? field = some id := by
  cases h with
  | kept hf' hg _ =>
    rw [hf] at hf'
    cases hf'
    exact hg
  | new _ _ =>
    simp only [hf, Table.get?_insert, ↓reduceIte]

omit [Widget H] in
/-- Other fields hold what they held. -/
lemma get?_of_ne (h : a.Supplies e s id start s₁) (field : String) (hf : e.field ≠ some field) :
    s₁.fields.get? field = s.fields.get? field := by
  cases h with
  | kept _ _ _ => rfl
  | new _ _ =>
    cases he : e.field with
    | none => rfl
    | some field' =>
      rw [he] at hf
      exact (Table.get?_insert _ _ _ _).trans (if_neg fun h => hf (congrArg some h))

omit [Widget H] in
/-- No field comes to be there twice. -/
lemma nodup_keys (h : a.Supplies e s id start s₁) (hn : s.fields.keys.Nodup) :
    s₁.fields.keys.Nodup := by
  cases h with
  | kept _ _ _ => exact hn
  | new _ _ =>
    cases he : e.field with
    | none => exact hn
    | some field => exact Table.nodup_keys_insert hn _ _

end Supplies

/-! ### An element without what is inside it -/

/-- What placing an element does: its node, with the visual element that it begins with, becomes the
last one below the parent, and no other node is changed. -/
structure Places (d : Definition) (parent : NodeId) (arranged : Bool) (e : Element) (s : Run H)
    (id : NodeId) (start : VisualElement H) (s' : Run H) : Prop where
  /-- The links of the tree fit together. -/
  forest : s'.tree.Forest
  /-- The node is not the parent. -/
  ne_parent : id ≠ parent
  /-- The node is as the element has it. -/
  slot?_id : s'.tree.slot? id = some ⟨a.dress d e start, some ⟨parent, arranged⟩, []⟩
  /-- It is the last one below the parent. -/
  slot?_parent : s'.tree.slot? parent = (s.tree.slot? parent).map fun slot =>
    { slot with children := slot.children ++ [id] }
  /-- Other nodes are as they were. -/
  slot?_of_ne : ∀ x, x ≠ id → x ≠ parent → s'.tree.slot? x = s.tree.slot? x
  /-- The field held the node, or it is new. -/
  source : (∃ field n, e.field = some field ∧ s.fields.get? field = some id ∧
      s.tree.get? id = some n ∧ start = n.element) ∨
    (∀ field, e.field = some field → s.fields.get? field = none) ∧ a.create e = .ok start ∧
      s.tree.contains id = false
  /-- The field holds the node. -/
  get?_field : ∀ field, e.field = some field → s'.fields.get? field = some id
  /-- Other fields hold what they held. -/
  get?_of_ne : ∀ field, e.field ≠ some field → s'.fields.get? field = s.fields.get? field
  /-- No field comes to be there twice. -/
  nodup_keys : s.fields.keys.Nodup → s'.fields.keys.Nodup
  /-- The element is noted as placed. -/
  placed_eq : s'.placed = s.placed ++ [⟨e, id, parent⟩]

/-- **Placing an element** puts its node, as the element has it, last below the parent, and changes
no other node; or no node can be had, and nothing changes. -/
theorem placeOne_meets (root : ScopeRoot) (d : Definition) {parent : NodeId} (parentKind : Kind)
    {e : Element} {s : Run H} (F : s.tree.Forest) (hp : s.tree.contains parent = true)
    (hl : ∀ field id, e.field = some field → s.fields.get? field = some id →
      s.tree.IsLoose id ∧ id ≠ parent) :
    Live.Meets s (a.placeOne root d parent parentKind e)
      (fun id s' => ∃ start, a.Places d parent parentKind.arrangesChildren e s id start s')
      (fun s' => s = s' ∧ a.Refuses root.adopts e) := by
  refine Live.Meets.bind ?_
  refine (a.nodeFor_meets root e s fun field id hf hg => (hl field id hf hg).1).imp ?_ fun _ h => h
  rintro id s₁ ⟨start, hs₁⟩
  have hne : id ≠ parent := hs₁.ne_of_contains hp fun field hf hg => (hl field parent hf hg).2 rfl
  obtain ⟨n, hstart, hn⟩ := hs₁.slot?_eq
  refine Live.Meets.bind ?_
  rw [Live.meets_modify]
  obtain ⟨warnings, hassign⟩ := a.assign_eq id e.kind d.typeName e.name (a.sheets.resolve d e)
    { s₁ with tree := s₁.tree.modify id (prepare e) }
  refine Live.Meets.bind ?_
  rw [Live.Meets, hassign]
  -- The node is dressed before it goes below the parent.
  have dressed : ∀ x, ((s₁.tree.modify id (prepare e)).modify id
      (a.capabilities.setOn e.kind (a.sheets.resolve d e).properties)).slot? x =
      if x = id then some { node := a.dress d e start } else s.tree.slot? x := by
    intro x
    rw [ViewTree.slot?_modify, ViewTree.slot?_modify]
    by_cases hx : id = x
    · rw [if_pos hx, if_pos hx, if_pos hx.symm, ← hx, hn, ← hstart]
      rfl
    · rw [if_neg hx, if_neg hx, if_neg (Ne.symm hx), hs₁.slot?_of_ne (Ne.symm hx)]
  have F₂ := ((hs₁.forest F).modify id (prepare e)).modify id
    (a.capabilities.setOn e.kind (a.sheets.resolve d e).properties)
  obtain ⟨t', ht', F', hslot⟩ := F₂.attach_isLoose ⟨_, (dressed id).trans (if_pos rfl)⟩
    (by rw [ViewTree.contains, dressed, if_neg hne.symm]; exact hp) hne parentKind.arrangesChildren
  have after : ∀ x, t'.slot? x = if x = id then
        some ⟨a.dress d e start, some ⟨parent, parentKind.arrangesChildren⟩, []⟩
      else (s.tree.slot? x).map fun slot =>
        { slot with children := if parent = x then slot.children ++ [id] else slot.children } := by
    intro x
    rw [hslot, dressed]
    by_cases hx : x = id
    · simp [hx, hne.symm]
    · simp [hx, Ne.symm hx]
  refine ⟨start, ?_⟩
  simp only [ht', Option.getD_some]
  exact
    { forest := F'
      ne_parent := hne
      slot?_id := (after id).trans (if_pos rfl)
      slot?_parent := by
        rw [after parent, if_neg hne.symm]
        simp only [↓reduceIte]
      slot?_of_ne := fun x hx hp => by
        rw [after x, if_neg hx]
        simp only [Ne.symm hp, ↓reduceIte, Option.map_id']
      source := hs₁.source
      get?_field := hs₁.get?_field
      get?_of_ne := hs₁.get?_of_ne
      nodup_keys := hs₁.nodup_keys
      placed_eq := by rw [hs₁.placed_eq] }

end Applier

end ViewMarkup
