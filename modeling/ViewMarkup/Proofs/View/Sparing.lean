import ViewMarkup.Proofs.View.Exchanging

/-!
# Which nodes of a component's fields outlive an application

When a component's scope begins, the nodes that its fields hold are kept. What is applied inside an
element that refers to another component knows nothing of these fields, and it exchanges everything
below the element's node. So a node that a field holds is lost if it lies below such a node at that
moment, and it is lost in no other way.

Which nodes lie below can be told beforehand. The fields may hold nodes anywhere but the component's
node and those above it, also inside one another. What is below the component's node is taken apart, so
that nothing lies there below a field's node. Elsewhere a node of a field goes where its element goes
and takes with it what is below it, except for those nodes whose own elements have come before. The
elements themselves are placed inside containers, never inside components, so that a component's node
only has others of the scope below it if a container has the same node.

## Main definitions

* `Binding.IsBeside` — the fields hold nodes of the tree other than the component's and those above.
* `Applier.Buries` — an element of a component takes a node with it, which is lost below.
* `Applier.Shares` — a container and a component have the same node.
* `Applier.Midway` — an application that has placed some of its elements.

## Main statements

* `Applier.Midway.isBelow_iff_covers` — what is below the node of an element.
* `Applier.Midway.puts`, `Applier.Midway.within` — what one element does.
* `Applier.applyScope_midway` — how far a whole application comes.
* `Applier.contains_apply_iff` — the nodes of fields that outlive an application.
-/

namespace ViewMarkup

open ViewTree Element

variable {H : Type}

/-! ### Which nodes are lost -/

/-- The fields of a component hold nodes of the tree, alive or not, other than the component's node and
those above it. -/
def Binding.IsBeside (t : ViewTree H) (b : Binding) : Prop :=
  ∀ f id, b.fields.get? f = some id → t.Issued id ∧ id ≠ b.node ∧ ¬ t.IsBelow b.node id

/-- The field of an element holds a node that another one is below, and when the elements before have
been placed it is still below: none of them has the other node, or one between, as its own. -/
def Binding.Covers (t : ViewTree H) (b : Binding) (before : List Element) (e : Element)
    (x : NodeId) : Prop :=
  ∃ f id, e.field = some f ∧ b.fields.get? f = some id ∧ t.IsBelow x id ∧
    ∀ e' ∈ before, ∀ f' w, e'.field = some f' → b.fields.get? f' = some w → t.IsWithin x w →
      ¬ t.IsBelow w id

namespace Applier

variable (a : Applier H)

/-- **Elements of a component bury a node**: it is not below the component's node, and one of them
covers it and has the definition of a component applied inside. -/
def Buries (t : ViewTree H) (b : Binding) (typeName : String) (es : List Element) (x : NodeId) :
    Prop :=
  ¬ t.IsBelow x b.node ∧ ∃ before e after, es = before ++ e :: after ∧
    (a.nested? [typeName] e).isSome = true ∧ b.Covers t before e x

/-- The fields of two elements hold the same node, one has others inside, and the other has the
definition of a component applied inside. -/
def Shares (b : Binding) (d : Definition) : Prop :=
  ∃ e ∈ d.elements, ∃ e' ∈ d.elements, ∃ f f' id, (a.nested? [d.typeName] e).isSome = true ∧
    e'.kind.acceptsChildren = true ∧ e'.children ≠ [] ∧ e.field = some f ∧ e'.field = some f' ∧
    b.fields.get? f = some id ∧ b.fields.get? f' = some id

variable {a} {t : ViewTree H} {b : Binding} {typeName : String} {x : NodeId}

/-- What an element buries it buries when others follow. -/
lemma Buries.mono {es es' : List Element} (h : es <+: es') (hb : a.Buries t b typeName es x) :
    a.Buries t b typeName es' x := by
  obtain ⟨rest, rfl⟩ := h
  obtain ⟨hroot, before, e, after, rfl, hn, hcovers⟩ := hb
  exact ⟨hroot, before, e, after ++ rest, by rw [List.append_assoc, List.cons_append], hn, hcovers⟩

/-- One more element may bury a node. -/
lemma buries_concat {es : List Element} {e : Element} :
    a.Buries t b typeName (es ++ [e]) x ↔ a.Buries t b typeName es x ∨
      ¬ t.IsBelow x b.node ∧ (a.nested? [typeName] e).isSome = true ∧ b.Covers t es e x := by
  constructor
  · rintro ⟨hroot, before, e', after, heq, hn, hcovers⟩
    rcases List.eq_nil_or_concat after with rfl | ⟨after, last, rfl⟩
    · obtain ⟨rfl, he⟩ := List.append_inj' heq rfl
      cases he
      exact .inr ⟨hroot, hn, hcovers⟩
    · rw [List.concat_eq_append, ← List.cons_append, ← List.append_assoc] at heq
      obtain ⟨rfl, -⟩ := List.append_inj' heq rfl
      exact .inl ⟨hroot, before, e', after, rfl, hn, hcovers⟩
  · rintro (hb | ⟨hroot, hn, hcovers⟩)
    · exact hb.mono (List.prefix_append _ _)
    · exact ⟨hroot, es, e, [], rfl, hn, hcovers⟩

/-! ### An application under way -/

/-- Elements of the scope can be placed below a node: it is the component's, or that of a placed
element that takes others and has some inside. -/
def IsOpen (s : Run H) (root w : NodeId) : Prop :=
  w = root ∨ ∃ q ∈ s.placed, q.node = w ∧ q.element.kind.acceptsChildren = true ∧
    q.element.children ≠ []

/-- What is open stays open when more is placed. -/
lemma IsOpen.mono {s s' : Run H} {root w : NodeId} (h : IsOpen s root w)
    (hplaced : s.placed ⊆ s'.placed) : IsOpen s' root w :=
  h.imp_right fun ⟨q, hq, hw⟩ => ⟨q, hplaced hq, hw⟩

variable (a t b)

/-- **An application that has placed some of its elements.** The nodes of these hang where their
elements are, and of the others that were there before each is where it was, if it is alive. The nodes
of fields that are gone are those that the elements which are done have buried. -/
structure Midway (d : Definition) (done : List Element) (s : Run H) : Prop where
  /-- The links of the tree fit together. -/
  forest : s.tree.Forest
  /-- No slot is taken back. -/
  size_le : t.slots.size ≤ s.tree.slots.size
  /-- No node that was gone has come to life again. -/
  continues : t.Continues s.tree
  /-- The component's node is alive. -/
  contains_root : s.tree.contains b.node = true
  /-- The elements placed are those of the definition. -/
  mem_elements : ∀ q ∈ s.placed, q.element ∈ d.elements
  /-- Fields of other elements hold what they held. -/
  fields_eq : ∀ f, (∀ q ∈ s.placed, q.element.field ≠ some f) → s.fields.get? f = b.fields.get? f
  /-- The nodes of placed elements are new, or the fields held them. -/
  source : ∀ q ∈ s.placed, ¬ t.Issued q.node ∨
    ∃ f, q.element.field = some f ∧ b.fields.get? f = some q.node
  /-- What the field of a placed element held is its node, or gone. -/
  gone : ∀ q ∈ s.placed, ∀ f w, q.element.field = some f → b.fields.get? f = some w →
    q.node = w ∨ s.tree.contains w = false
  /-- Placed elements hang below the component's node or inside one another. -/
  hangs : ∀ q ∈ s.placed, ∃ w, s.tree.parent? q.node = some w ∧ IsOpen s b.node w
  /-- Other nodes are where they were, or stand by themselves if they were below. -/
  parent?_eq : ∀ z, s.tree.contains z = true → t.contains z = true →
    (∀ q ∈ s.placed, q.node ≠ z) →
    s.tree.parent? z = if z ∈ t.descendants b.node then none else t.parent? z
  /-- The nodes of fields that are gone are those that are buried. -/
  contains_eq_false_iff : ∀ f x, b.fields.get? f = some x → t.contains x = true →
    (s.tree.contains x = false ↔ a.Buries t b d.typeName done x)

variable {a t b}

namespace Midway

variable {d : Definition} {done : List Element} {s s' : Run H}

/-! ### The nodes above and below -/

/-- The component's node and those above it are no nodes of placed elements. -/
lemma ne_of_above (M : a.Midway t b d done s) (F : t.Forest) (hb : b.IsBeside t)
    (hroot : t.contains b.node = true) {y : NodeId} (hy : y = b.node ∨ t.IsBelow b.node y) :
    ∀ q ∈ s.placed, q.node ≠ y := by
  rintro q hq rfl
  have halive : t.contains q.node = true := by
    obtain hy | hy := hy
    · exact hy ▸ hroot
    · exact F.contains_above hy
  obtain hnew | ⟨f, -, hf⟩ := M.source q hq
  · exact hnew (issued_of_contains halive)
  · obtain hy | hy := hy
    · exact (hb f _ hf).2.1 hy
    · exact (hb f _ hf).2.2 hy

/-- Whatever is above an element or the component's node has elements inside or is above the
component's node.

**Proof sketch.** Going up from an element leads to nodes that have elements inside, and from there to
the component's node. The nodes above that one are not touched. -/
lemma isOpen_of_isBelow (M : a.Midway t b d done s) (F : t.Forest) (hb : b.IsBeside t)
    (hroot : t.contains b.node = true) {z w : NodeId}
    (hz : z = b.node ∨ ∃ q ∈ s.placed, q.node = z) (h : s.tree.IsBelow z w) :
    IsOpen s b.node w ∨ t.IsBelow b.node w := by
  -- above the component's node all is as it was
  have up : ∀ y, (y = b.node ∨ t.IsBelow b.node y) → ∀ w, s.tree.parent? y = some w →
      t.IsBelow b.node w := by
    intro y hy w hw
    have hout : y ∉ t.descendants b.node := by
      rw [F.mem_descendants_iff]
      obtain rfl | hy := hy
      · exact F.acyclic _
      · exact fun h => F.acyclic _ (hy.trans h)
    have halive : t.contains y = true := by
      obtain rfl | hy := hy
      · exact hroot
      · exact F.contains_above hy
    rw [M.parent?_eq y (contains_of_parent? hw) halive (M.ne_of_above F hb hroot hy),
      if_neg hout] at hw
    obtain rfl | hy := hy
    · exact .single hw
    · exact hy.tail hw
  have step : ∀ y, (IsOpen s b.node y ∨ t.IsBelow b.node y) → ∀ w, s.tree.parent? y = some w →
      IsOpen s b.node w ∨ t.IsBelow b.node w := by
    rintro y ((rfl | ⟨q, hq, rfl, -⟩) | hy) w hw
    · exact .inr (up _ (.inl rfl) w hw)
    · obtain ⟨w', hw', hopen⟩ := M.hangs q hq
      cases hw.symm.trans hw'
      exact .inl hopen
    · exact .inr (up y (.inr hy) w hw)
  induction h with
  | single hw =>
    obtain rfl | ⟨q, hq, rfl⟩ := hz
    · exact .inr (up _ (.inl rfl) _ hw)
    · obtain ⟨w', hw', hopen⟩ := M.hangs q hq
      cases hw.symm.trans hw'
      exact .inl hopen
  | tail _ hw ih => exact step _ ih _ hw

/-- **What is below a node that has no elements inside was below it before**, apart from the
component's node, and none of the nodes between is that of an element. -/
theorem isBelow_of_isBelow (M : a.Midway t b d done s) (F : t.Forest) (hb : b.IsBeside t)
    (hroot : t.contains b.node = true) {id : NodeId} (hclosed : ¬ IsOpen s b.node id)
    (habove : ¬ t.IsBelow b.node id) (h : s.tree.IsBelow x id) (hx : t.contains x = true) :
    t.IsBelow x id ∧ ¬ t.IsBelow x b.node ∧ ∀ w, t.IsWithin x w → t.IsBelow w id →
      s.tree.contains w = true ∧ ∀ q ∈ s.placed, q.node ≠ w := by
  -- a node from which the way up does not lead to elements has stayed where it was
  have stays : ∀ {z y}, s.tree.IsBelow z id → t.contains z = true → s.tree.parent? z = some y →
      (∀ q ∈ s.placed, q.node ≠ z) ∧ ¬ t.IsBelow z b.node ∧ t.parent? z = some y := by
    intro z y hz halive hy
    have hfree : ∀ q ∈ s.placed, q.node ≠ z := fun q hq he =>
      (M.isOpen_of_isBelow F hb hroot (.inr ⟨q, hq, he⟩) hz).elim hclosed habove
    rw [M.parent?_eq z (contains_of_parent? hy) halive hfree] at hy
    split at hy
    · cases hy
    · next hout => exact ⟨hfree, fun hz => hout (F.mem_descendants_iff.2 hz), hy⟩
  induction h using Relation.TransGen.head_induction_on with
  | single hp =>
    obtain ⟨hfree, hout, hp'⟩ := stays (.single hp) hx hp
    refine ⟨.single hp', hout, fun w hw hbelow => ?_⟩
    obtain rfl | hw := isWithin_iff.1 hw
    · exact ⟨contains_of_parent? hp, hfree⟩
    · obtain ⟨y, hy, hw⟩ := Relation.TransGen.head'_iff.1 hw
      cases hp'.symm.trans hy
      exact (F.acyclic _ (hbelow.trans_left hw)).elim
  | head hp h ih =>
    obtain ⟨hfree, hout, hp'⟩ := stays (.head hp h) hx hp
    obtain ⟨hbelow, -, hways⟩ := ih (F.contains_parent hp')
    refine ⟨.head hp' hbelow, hout, fun w hw hbelow => ?_⟩
    obtain rfl | hw := isWithin_iff.1 hw
    · exact ⟨contains_of_parent? hp, hfree⟩
    · obtain ⟨y, hy, hw⟩ := Relation.TransGen.head'_iff.1 hw
      cases hp'.symm.trans hy
      exact hways w hw hbelow

/-- **A living node that the last element covers is below its node.** -/
theorem isBelow_of_covers (M : a.Midway t b d done s) (F : t.Forest) {before : List PlacedView}
    {q : PlacedView} (hplaced : s.placed = before ++ [q])
    (hdone : before.map (·.element) = done) (hx : s.tree.contains x = true)
    (hout : ¬ t.IsBelow x b.node) (h : b.Covers t done q.element x) :
    s.tree.IsBelow x q.node := by
  obtain ⟨f, id, hf, hid, hbelow, hfree⟩ := h
  -- going up from the node to that of the field meets no other element's node
  have free : ∀ y, t.IsWithin x y → t.IsBelow y id → ∀ p ∈ s.placed, p.node ≠ y := by
    rintro y hy hyid p hp rfl
    obtain hnew | ⟨f', hf', hg⟩ := M.source p hp
    · exact hnew (issued_of_contains hyid.contains)
    · rw [hplaced, List.mem_append, List.mem_singleton] at hp
      obtain hp | rfl := hp
      · exact hfree p.element (hdone ▸ List.mem_map_of_mem hp) f' _ hf' hg hy hyid
      · cases hf.symm.trans hf'
        cases hid.symm.trans hg
        exact F.acyclic _ hyid
  have up : ∀ w, t.IsWithin x w → (w = id ∨ t.IsBelow w id) →
      s.tree.contains w = true ∧ s.tree.IsWithin x w := by
    intro w hw
    induction hw with
    | refl => exact fun _ => ⟨hx, .refl⟩
    | tail hy hp ih =>
      rename_i y w
      intro hwid
      have hyid : t.IsBelow y id := by
        obtain rfl | hwid := hwid
        · exact .single hp
        · exact .head hp hwid
      obtain ⟨halive, hwithin⟩ := ih (.inr hyid)
      have hyout : y ∉ t.descendants b.node := by
        rw [F.mem_descendants_iff]
        exact fun h => hout (Relation.TransGen.trans_right hy h)
      have hp' : s.tree.parent? y = some w := by
        rw [M.parent?_eq y halive (contains_of_parent? hp) (free y hy hyid), if_neg hyout, hp]
      exact ⟨M.forest.contains_parent hp', hwithin.tail hp'⟩
  obtain ⟨halive, hwithin⟩ := up id (isWithin_iff.2 (.inr hbelow)) (.inl rfl)
  have hq : q ∈ s.placed := hplaced ▸ List.mem_append_right _ (List.mem_singleton_self q)
  have hnode : q.node = id := (M.gone q hq f id hf hid).resolve_right fun h => by
    rw [halive] at h
    cases h
  rw [hnode]
  refine (isWithin_iff.1 hwithin).resolve_left ?_
  rintro rfl
  exact F.acyclic _ hbelow

/-- **What is below the node of the last element is what it covers**, if the node has no elements
inside. -/
theorem isBelow_iff_covers (M : a.Midway t b d done s) (F : t.Forest) (hb : b.IsBeside t)
    (hroot : t.contains b.node = true) {before : List PlacedView} {q : PlacedView}
    (hplaced : s.placed = before ++ [q]) (hdone : before.map (·.element) = done)
    (hclosed : ¬ IsOpen s b.node q.node) (hx : t.contains x = true)
    (halive : s.tree.contains x = true) :
    s.tree.IsBelow x q.node ↔ ¬ t.IsBelow x b.node ∧ b.Covers t done q.element x := by
  have hq : q ∈ s.placed := hplaced ▸ List.mem_append_right _ (List.mem_singleton_self q)
  refine ⟨fun hbelow => ?_, fun h => M.isBelow_of_covers F hplaced hdone halive h.1 h.2⟩
  obtain ⟨hbelow', hout, hways⟩ := M.isBelow_of_isBelow F hb hroot hclosed
    (fun h => M.ne_of_above F hb hroot (.inr h) q hq rfl) hbelow hx
  obtain hnew | ⟨f', hf', hid⟩ := M.source q hq
  · exact (hnew (issued_of_contains (F.contains_above hbelow'))).elim
  refine ⟨hout, f', q.node, hf', hid, hbelow', fun e' he' g w hg hw hxw hwid => ?_⟩
  obtain ⟨hstays, hfree⟩ := hways w hxw hwid
  obtain ⟨p, hp, rfl⟩ := List.mem_map.1 (hdone ▸ he')
  have hp : p ∈ s.placed := hplaced ▸ List.mem_append_left _ hp
  obtain he | hdead := M.gone p hp g w hg hw
  · exact hfree p hp he
  · rw [hstays] at hdead
    cases hdead

/-! ### The steps -/

/-- The node of the next element, which has not been placed before, is none that has elements inside,
unless the fields of both hold it. -/
lemma source_of_puts (M : a.Midway t b d done s) {parent id : NodeId} {arranged : Bool}
    {e : Element} {start : VisualElement H} {ready : ViewTree H}
    (hfield : ∀ q ∈ s.placed, ∀ f, q.element.field = some f → e.field ≠ some f)
    (P : a.Puts d parent arranged e s id start ready s') :
    (¬ s.tree.Issued id ∧ ∀ q ∈ s.placed, q.node ≠ id) ∨
      ∃ f, e.field = some f ∧ b.fields.get? f = some id := by
  obtain ⟨f, _, hf, hid, -⟩ | ⟨hnew, -⟩ := P.source
  · refine .inr ⟨f, hf, ?_⟩
    rw [← M.fields_eq f fun q hq h => hfield q hq f h hf]
    exact hid
  · have hnot : ¬ s.tree.Issued id := fun h => Nat.ne_of_lt h hnew
    refine .inl ⟨hnot, ?_⟩
    rintro q hq rfl
    obtain ⟨w, hw, -⟩ := M.hangs q hq
    exact hnot (issued_of_contains (contains_of_parent? hw))

/-- The node of the next element can go below its parent, unless it is that of another element: going
up from the parent leads to nodes of elements, to the component's node and to those above. -/
lemma canAttach_of_puts (M : a.Midway t b d done s) (F : t.Forest) (hb : b.IsBeside t)
    (hroot : t.contains b.node = true) {parent id : NodeId} {arranged : Bool} {e : Element}
    {start : VisualElement H} {ready : ViewTree H}
    (hfield : ∀ q ∈ s.placed, ∀ f, q.element.field = some f → e.field ≠ some f)
    (hparent : IsOpen s b.node parent) (P : a.Puts d parent arranged e s id start ready s')
    (hother : ∀ q ∈ s.placed, q.node ≠ id) : ready.canAttach id parent = true := by
  have hid : id ≠ b.node ∧ ¬ t.IsBelow b.node id := by
    obtain ⟨hnot, -⟩ | ⟨f, -, hf⟩ := M.source_of_puts hfield P
    · refine ⟨?_, fun h => hnot ?_⟩
      · rintro rfl
        exact hnot (issued_of_contains M.contains_root)
      · exact (issued_of_contains (F.contains_above h)).mono M.size_le
    · exact (hb f id hf).2
  have hclosed : ¬ IsOpen s b.node id := by
    rintro (h | ⟨q, hq, h, -⟩)
    · exact hid.1 h
    · exact hother q hq h
  have hne : id ≠ parent := by
    rintro rfl
    exact hclosed hparent
  have hreached : parent = b.node ∨ ∃ q ∈ s.placed, q.node = parent := by
    obtain h | ⟨q, hq, h, -⟩ := hparent
    · exact .inl h
    · exact .inr ⟨q, hq, h⟩
  have halive : s.tree.contains parent = true := by
    obtain rfl | ⟨q, hq, rfl⟩ := hreached
    · exact M.contains_root
    · obtain ⟨w, hw, -⟩ := M.hangs q hq
      exact contains_of_parent? hw
  refine canAttach_iff.2 ⟨P.contains_id, (P.contains_of_ne hne.symm).trans halive, hne, fun h => ?_⟩
  rw [(P.forest M.forest).mem_ancestors_iff] at h
  have h : s.tree.IsBelow parent id := h.mono fun c p hc => by rwa [← P.parent?_eq c]
  exact (M.isOpen_of_isBelow F hb hroot hreached h).elim hclosed hid.2

/-- When the next element has been placed, its node hangs below its parent, or stays where it is as
that of another element. -/
lemma hangs_of_puts (M : a.Midway t b d done s) (F : t.Forest) (hb : b.IsBeside t)
    (hroot : t.contains b.node = true) {parent id : NodeId} {arranged : Bool} {e : Element}
    {start : VisualElement H} {ready : ViewTree H}
    (hfield : ∀ q ∈ s.placed, ∀ f, q.element.field = some f → e.field ≠ some f)
    (hparent : IsOpen s b.node parent) (P : a.Puts d parent arranged e s id start ready s') :
    ∃ w, s'.tree.parent? id = some w ∧ IsOpen s b.node w := by
  obtain hp | ⟨hno, hp⟩ := P.parent?_id
  · exact ⟨parent, hp, hparent⟩
  · by_cases hold : ∃ q ∈ s.placed, q.node = id
    · obtain ⟨q, hq, rfl⟩ := hold
      rw [hp]
      exact M.hangs q hq
    · have hother : ∀ q ∈ s.placed, q.node ≠ id := fun q hq h => hold ⟨q, hq, h⟩
      rw [M.canAttach_of_puts F hb hroot hfield hparent P hother] at hno
      cases hno

/-- **Placing one more element.** -/
theorem puts (M : a.Midway t b d done s) (F : t.Forest) (hb : b.IsBeside t)
    (hroot : t.contains b.node = true) {parent id : NodeId} {arranged : Bool} {e : Element}
    {start : VisualElement H} {ready : ViewTree H} (he : e ∈ d.elements)
    (hfield : ∀ q ∈ s.placed, ∀ f, q.element.field = some f → e.field ≠ some f)
    (hparent : IsOpen s b.node parent) (P : a.Puts d parent arranged e s id start ready s') :
    a.Midway t b d done s' := by
  have hsource := M.source_of_puts hfield P
  have hsub : s.placed ⊆ s'.placed := P.placed_eq ▸ List.subset_append_left _ _
  have hplaced : ∀ {motive : PlacedView → Prop}, (∀ q ∈ s.placed, motive q) →
      motive ⟨e, id, parent⟩ → ∀ q ∈ s'.placed, motive q := by
    intro motive hold hnew q hq
    rw [P.placed_eq, List.mem_append, List.mem_singleton] at hq
    obtain hq | rfl := hq
    · exact hold q hq
    · exact hnew
  have hissued : ∀ x, t.Issued x → s'.tree.contains x = s.tree.contains x := fun x hx =>
    P.contains_of_issued (hx.mono M.size_le)
  have hnew := M.hangs_of_puts F hb hroot hfield hparent P
  refine
    { forest := P.forest' M.forest
      size_le := M.size_le.trans P.size_le'
      continues := M.continues.mono fun x hx h => by rwa [hissued x hx] at h
      contains_root := (hissued _ (issued_of_contains hroot)).trans M.contains_root
      mem_elements := hplaced M.mem_elements he
      fields_eq := fun f hf => ?_
      source := hplaced M.source ?_
      gone := hplaced (fun q hq f w hf hw => ?_) fun f w hf hw => ?_
      hangs := hplaced (fun q hq => ?_) ?_
      parent?_eq := fun z hz halive hfree => ?_
      contains_eq_false_iff := fun f x hf hx => ?_ }
  · have hlast := hf ⟨e, id, parent⟩ (P.placed_eq ▸ List.mem_append_right _ (List.mem_singleton_self _))
    rw [P.get?_of_field_ne f hlast]
    exact M.fields_eq f fun q hq => hf q (hsub hq)
  · exact hsource.imp_left fun h hi => h.1 (hi.mono M.size_le)
  · rw [hissued w (hb f w hw).1]
    exact M.gone q hq f w hf hw
  · have hw' : s.fields.get? f = some w := by
      rw [M.fields_eq f fun q hq h => hfield q hq f h hf, hw]
    obtain ⟨f', _, hf', hid, -⟩ | ⟨-, -, hgone⟩ := P.source
    · cases hf.symm.trans hf'
      exact .inl (Option.some.inj (hid.symm.trans hw'))
    · exact .inr ((hissued w (hb f w hw).1).trans (hgone f w hf hw'))
  · by_cases hid : q.node = id
    · rw [hid]
      obtain ⟨w, hw, hopen⟩ := hnew
      exact ⟨w, hw, hopen.mono hsub⟩
    · obtain ⟨w, hw, hopen⟩ := M.hangs q hq
      exact ⟨w, (P.parent?_of_ne hid).trans hw, hopen.mono hsub⟩
  · obtain ⟨w, hw, hopen⟩ := hnew
    exact ⟨w, hw, hopen.mono hsub⟩
  · have hne : z ≠ id := fun h => hfree ⟨e, id, parent⟩
      (P.placed_eq ▸ List.mem_append_right _ (List.mem_singleton_self _)) h.symm
    rw [hissued z (issued_of_contains halive)] at hz
    rw [P.parent?_of_ne hne, M.parent?_eq z hz halive fun q hq => hfree q (hsub hq)]
  · rw [hissued x (issued_of_contains hx)]
    exact M.contains_eq_false_iff f x hf hx

/-- The node of an element in which a definition is applied has no elements inside: no other element
that has some shares it. -/
lemma not_isOpen_of_puts (M : a.Midway t b d done s) (F : t.Forest) (hb : b.IsBeside t)
    (hroot : t.contains b.node = true) (hshares : ¬ a.Shares b d) {parent id : NodeId}
    {arranged : Bool} {e : Element} {start : VisualElement H} {ready : ViewTree H}
    (he : e ∈ d.elements)
    (hfield : ∀ q ∈ s.placed, ∀ f, q.element.field = some f → e.field ≠ some f)
    (hparent : IsOpen s b.node parent) (P : a.Puts d parent arranged e s id start ready s')
    (hn : (a.nested? [d.typeName] e).isSome = true) (hk : e.kind.acceptsChildren = false) :
    ¬ IsOpen s' b.node id := by
  rintro (h | ⟨q, hq, h, haccepts, hinside⟩)
  · exact (M.puts F hb hroot he hfield hparent P).ne_of_above F hb hroot (.inl rfl) ⟨e, id, parent⟩
      (P.placed_eq ▸ List.mem_append_right _ (List.mem_singleton_self _)) h
  · rw [P.placed_eq, List.mem_append, List.mem_singleton] at hq
    obtain hq | rfl := hq
    · obtain ⟨-, hfresh⟩ | ⟨f, hf, hid⟩ := M.source_of_puts hfield P
      · exact hfresh q hq h
      · obtain hnew | ⟨f', hf', hid'⟩ := M.source q hq
        · exact hnew (h ▸ (hb f id hid).1)
        · exact hshares ⟨e, he, q.element, M.mem_elements q hq, f, f', id, hn, haccepts, hinside, hf,
            hf', hid, hid'.trans (congrArg some h)⟩
    · rw [hk] at haccepts
      cases haccepts

/-- Nothing depends on what the nodes hold, or on what else a run notes. -/
lemma congr (M : a.Midway t b d done s) (hlinks : s.tree.SameLinks s'.tree)
    (hsize : s'.tree.slots.size = s.tree.slots.size) (hfields : s'.fields = s.fields)
    (hplaced : s'.placed = s.placed) : a.Midway t b d done s' where
  forest := hlinks.forest M.forest
  size_le := M.size_le.trans hsize.ge
  continues := M.continues.mono fun x _ h => by rwa [hlinks.contains_eq] at h
  contains_root := (hlinks.contains_eq _).trans M.contains_root
  mem_elements := hplaced ▸ M.mem_elements
  fields_eq := hplaced ▸ hfields ▸ M.fields_eq
  source := hplaced ▸ M.source
  gone q hq f w hf hw := (M.gone q (hplaced ▸ hq) f w hf hw).imp_right (hlinks.contains_eq w).trans
  hangs q hq := by
    obtain ⟨w, hw, hopen⟩ := M.hangs q (hplaced ▸ hq)
    exact ⟨w, (hlinks.parent?_eq _).trans hw, hopen.mono (hplaced ▸ List.Subset.refl _)⟩
  parent?_eq z hz halive hfree := (hlinks.parent?_eq z).trans
    (M.parent?_eq z ((hlinks.contains_eq z).symm.trans hz) halive (hplaced ▸ hfree))
  contains_eq_false_iff f x hf hx := by
    rw [hlinks.contains_eq]
    exact M.contains_eq_false_iff f x hf hx

/-- An element without a definition to be applied inside buries nothing. -/
lemma skip (M : a.Midway t b d done s) {e : Element} (hn : a.nested? [d.typeName] e = none) :
    a.Midway t b d (done ++ [e]) s :=
  { M with
    contains_eq_false_iff := fun f x hf hx => by
      rw [M.contains_eq_false_iff f x hf hx, buries_concat, hn]
      simp }

/-- **Applying a definition inside the last element** loses what the element covers, and no other node
of a field. -/
theorem exchanges (M : a.Midway t b d done s) (F : t.Forest) (hb : b.IsBeside t)
    (hroot : t.contains b.node = true) {before : List PlacedView} {q : PlacedView}
    (hplaced : s.placed = before ++ [q]) (hdone : before.map (·.element) = done)
    (hclosed : ¬ IsOpen s b.node q.node) {nested : Definition}
    (hn : a.nested? [d.typeName] q.element = some nested) (W : Within (some nested) q.node s s') :
    a.Midway t b d (done ++ [q.element]) s' := by
  have hq : q ∈ s.placed := hplaced ▸ List.mem_append_right _ (List.mem_singleton_self q)
  have habove : ¬ t.IsBelow b.node q.node := fun h =>
    M.ne_of_above F hb hroot (.inr h) q hq rfl
  have E : s.tree.Exchanges q.node s'.tree := W.tree
  have hopen : ∀ {w}, IsOpen s b.node w → IsOpen s' b.node w := fun h =>
    h.mono (W.placed_eq ▸ List.Subset.refl _)
  -- neither elements nor the component's node are below
  have kept : ∀ z, (z = b.node ∨ ∃ p ∈ s.placed, p.node = z) → s.tree.contains z = true →
      s'.tree.contains z = true := fun z hz halive =>
    (E.contains_iff z (issued_of_contains halive)).2 ⟨halive, fun h =>
      (M.isOpen_of_isBelow F hb hroot hz h).elim hclosed habove⟩
  have dies : ∀ x, t.Issued x → (s'.tree.contains x = false ↔
      s.tree.contains x = false ∨ s.tree.contains x = true ∧ s.tree.IsBelow x q.node) := by
    intro x hx
    have hiff := E.contains_iff x (hx.mono M.size_le)
    rw [← Bool.not_eq_true, hiff, ← Bool.not_eq_true]
    by_cases halive : s.tree.contains x = true <;> simp [halive]
  exact
    { forest := E.forest
      size_le := M.size_le.trans E.size_le
      continues := M.continues.mono fun x hx h => ((E.contains_iff x (hx.mono M.size_le)).1 h).1
      contains_root := kept _ (.inl rfl) M.contains_root
      mem_elements := fun p hp => M.mem_elements p (W.placed_eq ▸ hp)
      fields_eq := fun f hf => by
        rw [W.fields_eq]
        exact M.fields_eq f fun p hp => hf p (W.placed_eq ▸ hp)
      source := fun p hp => M.source p (W.placed_eq ▸ hp)
      gone := fun p hp f w hf hw => (M.gone p (W.placed_eq ▸ hp) f w hf hw).imp_right fun h =>
        (dies w (hb f w hw).1).2 (.inl h)
      hangs := fun p hp => by
        rw [W.placed_eq] at hp
        obtain ⟨w, hw, h⟩ := M.hangs p hp
        have halive := contains_of_parent? hw
        exact ⟨w, (E.parent?_eq _ (issued_of_contains halive)
          (kept _ (.inr ⟨p, hp, rfl⟩) halive)).trans hw, hopen h⟩
      parent?_eq := fun z hz halive hfree => by
        have hissued := (issued_of_contains halive).mono M.size_le
        rw [E.parent?_eq z hissued hz]
        exact M.parent?_eq z ((E.contains_iff z hissued).1 hz).1 halive
          fun p hp => hfree p (W.placed_eq ▸ hp)
      contains_eq_false_iff := fun f x hf hx => by
        rw [dies x (issued_of_contains hx), buries_concat, ← M.contains_eq_false_iff f x hf hx, hn]
        cases halive : s.tree.contains x with
        | false => exact iff_of_true (.inl rfl) (.inl rfl)
        | true =>
          rw [M.isBelow_iff_covers F hb hroot hplaced hdone hclosed hx halive]
          simp }

/-- **What is done inside the last element**: the definition that it refers to is applied there, or
nothing is. -/
theorem within (M : a.Midway t b d done s) (F : t.Forest) (hb : b.IsBeside t)
    (hroot : t.contains b.node = true) {before : List PlacedView} {q : PlacedView}
    (hplaced : s.placed = before ++ [q]) (hdone : before.map (·.element) = done)
    (hclosed : (a.nested? [d.typeName] q.element).isSome = true → ¬ IsOpen s b.node q.node)
    (W : Within (a.nested? [d.typeName] q.element) q.node s s') :
    a.Midway t b d (done ++ [q.element]) s' := by
  cases hn : a.nested? [d.typeName] q.element with
  | none =>
    rw [hn] at W
    exact (M.skip hn).congr (W.tree ▸ .refl _) (W.tree ▸ rfl) W.fields_eq W.placed_eq
  | some nested =>
    rw [hn] at W hclosed
    exact M.exchanges F hb hroot hplaced hdone (hclosed rfl) hn W

end Midway

/-! ### The whole application -/

/-- The elements of a definition before another one have other fields. -/
lemma field_ne_of_before {d : Definition} (hd : d.IsParsed) {done rest : List Element} {e : Element}
    (helements : d.elements = done ++ e :: rest) {e' : Element} (he' : e' ∈ done) {f : String}
    (hf' : e'.field = some f) : e.field ≠ some f := by
  intro hf
  have hnodup : (fieldsOf d.children).Nodup := hd.areSound.nodup_fields
  have helements : walkAll d.children = done ++ e :: rest := helements
  rw [fieldsOf, helements, List.filterMap_append] at hnodup
  exact (List.nodup_append.1 hnodup).2.2 f (List.mem_filterMap.2 ⟨e', he', hf'⟩) f
    (List.mem_filterMap.2 ⟨e, List.mem_cons_self, hf⟩) rfl

section Induction

variable [Widget H] (a t b)

/-- What is to be shown of placing elements of the component's own scope. -/
def AllSpare (active : List String) (root : ScopeRoot) (d : Definition) (parent : NodeId)
    (parentKind : Kind) (es : List Element) : Prop :=
  active = [d.typeName] → d.IsParsed → ¬ a.Shares b d → ∀ (done rest : List Element) (s : Run H),
    a.Midway t b d done s → s.placed.map (·.element) = done →
    d.elements = done ++ (walkAll es ++ rest) → (es ≠ [] → IsOpen s b.node parent) →
    Live.Meets s (a.placeAll active root d parent parentKind es)
      (fun _ s' => a.Midway t b d (done ++ walkAll es) s' ∧
        s'.placed.map (·.element) = done ++ walkAll es ∧ s.placed ⊆ s'.placed)
      (fun s' => ∃ es', es' <+: d.elements ∧ a.Midway t b d es' s')

/-- What is to be shown of placing an element of that scope. -/
def OneSpares (active : List String) (root : ScopeRoot) (d : Definition) (parent : NodeId)
    (parentKind : Kind) (e : Element) : Prop :=
  active = [d.typeName] → d.IsParsed → ¬ a.Shares b d → ∀ (done rest : List Element) (s : Run H),
    a.Midway t b d done s → s.placed.map (·.element) = done →
    d.elements = done ++ (walkAll [e] ++ rest) → IsOpen s b.node parent →
    Live.Meets s (a.place active root d parent parentKind e)
      (fun _ s' => a.Midway t b d (done ++ walkAll [e]) s' ∧
        s'.placed.map (·.element) = done ++ walkAll [e] ∧ s.placed ⊆ s'.placed)
      (fun s' => ∃ es', es' <+: d.elements ∧ a.Midway t b d es' s')

variable {a t b}

/-- An element is placed, and then what is inside it. -/
lemma oneSpares (F : t.Forest) (hb : b.IsBeside t) (hroot : t.contains b.node = true)
    {active : List String} {root : ScopeRoot} {d : Definition} {parent : NodeId}
    {parentKind : Kind} {e : Element}
    (hc : ∀ id, AllSpare a t b active root d id e.kind e.children) :
    OneSpares a t b active root d parent parentKind e := by
  intro hactive hd hshares done rest s M hdone helements hparent
  subst hactive
  have hsound := hd.areSound
  rw [walkAll_cons, walkAll, List.append_nil] at helements ⊢
  have he : e ∈ d.elements := by
    rw [helements]
    exact List.mem_append_right _ List.mem_cons_self
  have hfield : ∀ q ∈ s.placed, ∀ f, q.element.field = some f → e.field ≠ some f :=
    fun q hq f hf => field_ne_of_before hd helements (hdone ▸ List.mem_map_of_mem hq) hf
  rw [place]
  refine Live.Meets.bind ((a.placeOne_puts root d parent parentKind e s).imp ?_ ?_)
  swap
  · rintro s' rfl
    exact ⟨done, helements ▸ List.prefix_append _ _, M⟩
  rintro id s₁ ⟨start, ready, P⟩
  have M₁ := M.puts F hb hroot he hfield hparent P
  have hplaced₁ : s₁.placed.map (·.element) = done ++ [e] := by
    rw [P.placed_eq, List.map_append, hdone]
    rfl
  have hsub : s.placed ⊆ s₁.placed := P.placed_eq ▸ List.subset_append_left _ _
  simp only
  by_cases hk : e.kind.acceptsChildren = true
  · have hcomp : e.kind ≠ .component := by
      intro h
      rw [h] at hk
      cases hk
    rw [if_pos hk, if_neg hcomp]
    have M₁ := M₁.skip (e := e) (if_neg hcomp)
    have hopen : e.children ≠ [] → IsOpen s₁ b.node id := fun h =>
      .inr ⟨⟨e, id, parent⟩, P.placed_eq ▸ List.mem_append_right _ (List.mem_singleton_self _),
        rfl, hk, h⟩
    have helements₁ : d.elements = (done ++ [e]) ++ (walkAll e.children ++ rest) := by
      rw [helements]
      simp
    refine Live.Meets.bind ((hc id rfl hd hshares (done ++ [e]) rest s₁ M₁ hplaced₁ helements₁
      hopen).imp ?_ fun _ h => h)
    rintro _ s' ⟨M', hplaced', hsub'⟩
    rw [List.append_assoc, List.singleton_append] at M' hplaced'
    exact ⟨M', hplaced', List.Subset.trans hsub hsub'⟩
  · rw [if_neg hk]
    have hk : e.kind.acceptsChildren = false := by simpa using hk
    rw [hsound.children_eq_nil e he hk, walkAll]
    have hprefix : done ++ [e] <+: d.elements := by
      rw [helements]
      exact ⟨walkAll e.children ++ rest, by simp⟩
    by_cases hcomp : e.kind = .component
    · rw [if_pos hcomp]
      have hn : a.nested? [d.typeName] e = a.enters? [d.typeName] e.reference := if_pos hcomp
      obtain ⟨w, hw, -⟩ := M₁.hangs ⟨e, id, parent⟩
        (P.placed_eq ▸ List.mem_append_right _ (List.mem_singleton_self _))
      have inside : ∀ s', Within (a.enters? [d.typeName] e.reference) id s₁ s' →
          a.Midway t b d (done ++ [e]) s' := fun s' W =>
        M₁.within F hb hroot P.placed_eq hdone
          (fun h => M.not_isOpen_of_puts F hb hroot hshares he hfield hparent P h hk) (hn ▸ W)
      refine (a.applyReference_exchanges [d.typeName] d.typeName e.name e.reference M₁.forest
        hw).imp ?_ ?_
      · intro _ s' W
        exact ⟨inside s' W, W.placed_eq ▸ hplaced₁, W.placed_eq ▸ hsub⟩
      · exact fun s' W => ⟨done ++ [e], hprefix, inside s' W⟩
    · rw [if_neg hcomp]
      exact ⟨M₁.skip (if_neg hcomp), hplaced₁, hsub⟩

variable (a)

/-- **Placing elements of the component's own scope** leads from one state midway to another, however
far it comes.

**Proof sketch.** Induction over the application. Only the cases of this scope count; what is applied
inside an element is known from `applyReference_exchanges`. -/
theorem placeAll_midway (F : t.Forest) (hb : b.IsBeside t) (hroot : t.contains b.node = true)
    (active : List String) (root : ScopeRoot) (d : Definition) (parent : NodeId) (parentKind : Kind)
    (es : List Element) : AllSpare a t b active root d parent parentKind es := by
  refine (applyScope.mutual_induct a (fun _ _ _ => True) (AllSpare a t b) (OneSpares a t b)
    (fun _ _ _ _ _ => True) ?scope ?nil ?cons ?one ?none ?inlineActive ?inline ?unknown ?namedActive
    ?named).2.1 active root d parent parentKind es
  case nil =>
    intro active root d parent parentKind _ _ _ done rest s M hdone _ _
    rw [placeAll, walkAll, List.append_nil]
    exact ⟨M, hdone, List.Subset.refl _⟩
  case cons =>
    intro active root d parent parentKind e es ih ih' hactive hd hshares done rest s M hdone helements
      hparent
    have hparent := hparent (List.cons_ne_nil e es)
    have hwalk : walkAll (e :: es) = walkAll [e] ++ walkAll es := by
      rw [walkAll_cons, walkAll_cons e [], walkAll, List.append_nil, List.cons_append]
    rw [hwalk] at helements ⊢
    rw [placeAll]
    refine Live.Meets.bind ((ih hactive hd hshares done (walkAll es ++ rest) s M hdone
      (by rw [helements, List.append_assoc]) hparent).imp ?_ fun _ h => h)
    rintro _ s₁ ⟨M₁, hplaced₁, hsub₁⟩
    refine (ih' hactive hd hshares _ rest s₁ M₁ hplaced₁ (by rw [helements]; simp) fun _ =>
      hparent.mono hsub₁).imp ?_ fun _ h => h
    rintro _ s' ⟨M', hplaced', hsub'⟩
    rw [List.append_assoc] at M' hplaced'
    exact ⟨M', hplaced', List.Subset.trans hsub₁ hsub'⟩
  case one => exact fun _ _ _ _ _ _ _ hc => oneSpares F hb hroot hc
  all_goals intros; trivial

omit [Widget H] in
/-- A component's scope begins with no element placed. The nodes of fields are all kept. -/
lemma midway_clear (F : t.Forest) (hroot : t.contains b.node = true) (d : Definition) {s : Run H}
    (hlinks : (clear t b.node b.fields.values).SameLinks s.tree)
    (hsize : s.tree.slots.size = (clear t b.node b.fields.values).slots.size)
    (hfields : s.fields = b.fields) (hplaced : s.placed = []) : a.Midway t b d [] s where
  forest := hlinks.forest (forest_clear _ _ F)
  size_le := by rw [hsize, size_slots_clear]
  continues x _ h := by
    rw [hlinks.contains_eq] at h
    exact ((contains_clear_iff F).1 h).1
  contains_root := by
    rw [hlinks.contains_eq]
    exact (contains_clear_iff F).2 ⟨hroot, fun h => (F.acyclic _ h).elim⟩
  mem_elements q hq := by rw [hplaced] at hq; cases hq
  fields_eq f _ := by rw [hfields]
  source q hq := by rw [hplaced] at hq; cases hq
  gone q hq := by rw [hplaced] at hq; cases hq
  hangs q hq := by rw [hplaced] at hq; cases hq
  parent?_eq z _ _ _ := (hlinks.parent?_eq z).trans (parent?_clear F _ _ z)
  contains_eq_false_iff f x hf hx := by
    have halive : s.tree.contains x = true := by
      rw [hlinks.contains_eq]
      exact (contains_clear_iff F).2 ⟨hx, fun _ => Table.mem_values_of_get? hf⟩
    rw [halive]
    refine ⟨fun h => (nomatch h), ?_⟩
    rintro ⟨-, before, e, after, h, -⟩
    exact absurd h (by simp)

/-- **How far an application comes**: it places all elements, or those up to one at which it stops, or
the component's node is gone and nothing happens. -/
theorem applyScope_midway (F : t.Forest) (hb : b.IsBeside t) {d : Definition} (hd : d.IsParsed)
    (hshares : ¬ a.Shares b d) :
    Live.Meets { tree := t, fields := b.fields }
      (a.applyScope [d.typeName] ⟨b.node, b.typeName, b.adopts⟩ d)
      (fun _ s' => a.Midway t b d d.elements s')
      (fun s' => s'.tree = t ∨ ∃ es, es <+: d.elements ∧ a.Midway t b d es s') := by
  rw [applyScope]
  refine Live.Meets.bind ((a.beginScope_clears _ d _).imp ?_ fun s' hs => .inl (hs ▸ rfl))
  rintro _ s₁ ⟨hroot, hfields, hplaced, htree⟩
  have M : a.Midway t b d [] s₁ := midway_clear a F hroot d (htree ▸ .modify _ _ _)
    (htree ▸ size_slots_modifySlot _ _ _) hfields hplaced
  refine Live.Meets.bind ((a.placeAll_midway F hb hroot [d.typeName] ⟨b.node, b.typeName, b.adopts⟩ d
    b.node .container d.children rfl hd hshares [] [] s₁ M (by rw [hplaced]; rfl)
    (by rw [List.append_nil]; rfl) fun _ => .inl rfl).imp ?_ fun _ h => .inr h)
  rintro _ s₂ ⟨M₂, -⟩
  refine (constrain_sameLinks d.typeName s₂).imp ?_ ?_
  · rintro _ s' ⟨hfields, hplaced, hlinks, hsize⟩
    exact M₂.congr hlinks hsize hfields hplaced
  · rintro s' rfl
    exact .inr ⟨_, List.prefix_refl _, M₂⟩

end Induction

variable [Widget H] (a)

/-- **Which nodes of fields outlive an application.** A definition that comes from a document is
applied to a component of either sort, with any library, styles and host; the component's fields hold
nodes of the tree other than the component's node and those above it, and none of them is held both for
an element with others inside and for one that has a definition applied inside. Whether the application
succeeds or fails, a living node that a field holds is alive afterwards unless the definition buries
it. If it succeeds, those that are buried are gone.

**Proof sketch.** When the scope begins all these nodes are kept. Placing an element loses none
(`Midway.puts`), and applying a definition inside loses what lies below the element's node at the time
(`Midway.exchanges`); the nodes that do are those that it covers. -/
theorem contains_apply_iff (F : t.Forest) (hb : b.IsBeside t) {d : Definition} (hd : d.IsParsed)
    (hshares : ¬ a.Shares b d) {f : String} (hf : b.fields.get? f = some x)
    (hx : t.contains x = true) :
    (¬ a.Buries t b d.typeName d.elements x → (a.apply t b d).2.1.contains x = true) ∧
      ∀ report, (a.apply t b d).1 = .ok report →
        ((a.apply t b d).2.1.contains x = true ↔ ¬ a.Buries t b d.typeName d.elements x) := by
  obtain ⟨report, b', s, hs, -, M⟩ | ⟨error, b', s, hs, hfail⟩ :=
    apply_of_meets (a.applyScope_midway F hb hd hshares)
  · have hiff : s.tree.contains x = true ↔ ¬ a.Buries t b d.typeName d.elements x := by
      rw [← M.contains_eq_false_iff f x hf hx, Bool.not_eq_false]
    rw [hs]
    exact ⟨hiff.2, fun _ _ => hiff⟩
  · rw [hs]
    refine ⟨fun hspared => ?_, fun _ h => by cases h⟩
    obtain ht | ⟨es, hes, M⟩ := hfail
    · exact ht.symm ▸ hx
    · rw [← Bool.not_eq_false, M.contains_eq_false_iff f x hf hx]
      exact fun h => hspared (h.mono hes)

/-- A component that holds a node beside it, and the label below that node. -/
def holdingBoth : Binding :=
  { Binding.strict ⟨0⟩ "A" with
    fields := (({} : Table String NodeId).insert "b" ⟨1⟩).insert "c" ⟨2⟩ }

/-- The field with the node, which has a label of its own inside. -/
def frame : Element :=
  ⟨.component, some "b", {}, [], [], [], some (.inline ⟨"A_b", false, true, [], [],
    [⟨.label, none, {}, [], [], [], none, "temp_label_1"⟩]⟩), "b"⟩

/-- The field with the label. -/
def caption : Element := ⟨.label, some "c", {}, [], [], [], none, "c"⟩

/-- A definition that has the one field alone. -/
def framed : Definition := ⟨"A", false, false, [], [], [frame]⟩

/-- A definition that has the field with the label before the other one. -/
def captionedFrame : Definition := ⟨"A", false, false, [], [], [caption, frame]⟩

/-- The tree with a label beside a component is a forest. -/
lemma forest_besideLabel : besideLabel.Forest := Forest.empty.edits _

/-- The component is beside the label. -/
lemma isBeside_holdingBoth : holdingBoth.IsBeside besideLabel := by
  have alone : ∀ id, ¬ besideLabel.IsBelow ⟨0⟩ id := by
    intro id h
    obtain ⟨p, hp, -⟩ := Relation.TransGen.head'_iff.1 h
    cases hp
  intro f id h
  unfold holdingBoth at h
  rw [Table.get?_insert, Table.get?_insert] at h
  split at h
  · cases h
    exact ⟨by decide, by decide, alone _⟩
  · split at h
    · cases h
      exact ⟨by decide, by decide, alone _⟩
    · cases h

/-- **A label is lost** although a field holds it: it is below the node of another field, and the
definition that is applied there destroys it. -/
theorem contains_framed : holdingBoth.fields.get? "c" = some ⟨2⟩ ∧
    besideLabel.contains ⟨2⟩ = true ∧ framed.IsParsed ∧
    (labelHost.apply besideLabel holdingBoth framed).1.toOption.isSome = true ∧
    (labelHost.apply besideLabel holdingBoth framed).2.1.contains ⟨2⟩ = false := by
  refine ⟨by decide, by decide, ⟨"<Component type=\"A\"><Component field=\"b\"><Label/></Component></Component>",
    framed, ?_, ?_⟩, by cbv, by cbv⟩
  · rw [Definition.ofText_ofList]
    cbv
  · rw [framed, Definition.definitions]
    exact List.mem_cons_self

/-- The label is not lost if its own element comes before. -/
theorem contains_captionedFrame :
    (labelHost.apply besideLabel holdingBoth captionedFrame).2.1.contains ⟨2⟩ = true := by
  have parsed : captionedFrame.IsParsed := by
    refine ⟨"<Component type=\"A\"><Label field=\"c\"/><Component field=\"b\"><Label/></Component></Component>",
      captionedFrame, ?_, ?_⟩
    · rw [Definition.ofText_ofList]
      cbv
    · rw [captionedFrame, Definition.definitions]
      exact List.mem_cons_self
  have simple : ∀ e ∈ captionedFrame.elements, e.kind.acceptsChildren = false := by decide
  have notShared : ¬ labelHost.Shares holdingBoth captionedFrame := by
    rintro ⟨-, -, e, he, -, -, -, -, haccepts, -⟩
    rw [simple e he] at haccepts
    cases haccepts
  refine (labelHost.contains_apply_iff forest_besideLabel isBeside_holdingBoth parsed notShared
    (f := "c") (by decide) (by decide)).1 ?_
  rintro ⟨-, before, e, after, hes, hn, f, id, -, -, hbelow, hfree⟩
  -- the label has no definition applied inside, and it comes before whatever else there is
  rw [show captionedFrame.elements = [caption, frame] from rfl] at hes
  cases before with
  | nil =>
    obtain ⟨rfl, -⟩ := List.cons.inj hes
    cases hn
  | cons first before =>
    obtain ⟨rfl, -⟩ := List.cons.inj hes
    exact hfree caption List.mem_cons_self "c" ⟨2⟩ rfl (by decide) .refl hbelow

end Applier

end ViewMarkup
