import ViewMarkup.Proofs.View.Placement

/-!
# Views that show a definition

A tree shows the elements of a scope below a node if each element has its node there, in document
order, with the name, the priorities and the properties of the element, and if inside each node that
takes elements the tree shows what is inside the element in the same way. The node of a component
shows the elements of the component's own definition, a scope of its own, or nothing if there is no
such definition to be entered.

## Main definitions

* `Scene` — a scope with all that decides about the nodes in it.
* `AxisPair.Honours` — priorities are those that are declared.
* `PlacedView.Hangs` — a view is where its element is.
* `Applier.nested?` — the definition that is applied inside an element.
* `Applier.Shows` — the nodes below a node show elements, each exactly.

## Main statements

* `Applier.Shows.congr` — whether elements are shown depends on their nodes alone.
* `Applier.Shows.tie` — what becomes of a scope when its constraints are set.
* `Applier.Shows.isBelow_iff` — the nodes below the node are those of the elements, and no others.
-/

namespace ViewMarkup

variable {H : Type}

/-- A scope with all that decides about the nodes in it. -/
structure Scene (H : Type) where
  /-- The types that are being applied. -/
  active : List String
  /-- The definition whose scope it is. -/
  definition : Definition
  /-- The visual elements of the nodes that the fields of the component held before. -/
  old : String → Option (VisualElement H)
  /-- What constraints the node of an element has. -/
  ties : PlacedView → List LiveConstraint → Prop

/-- **The priorities of a view are those of its element**: along each axis the declared one, and
another one if none is declared. -/
structure AxisPair.Honours (p : AxisPair) (declared : AxisPriorities) (otherwise : Priority) :
    Prop where
  /-- The declared horizontal priority. -/
  horizontal_eq : ∀ q, declared.horizontal = some q → p.horizontal = q
  /-- The other one if no horizontal priority is declared. -/
  horizontal_eq_otherwise : declared.horizontal = none → p.horizontal = otherwise
  /-- The declared vertical priority. -/
  vertical_eq : ∀ q, declared.vertical = some q → p.vertical = q
  /-- The other one if no vertical priority is declared. -/
  vertical_eq_otherwise : declared.vertical = none → p.vertical = otherwise

/-- A pair that takes each declared priority, and else another one. -/
lemma AxisPair.Honours.of_getD (declared : AxisPriorities) (otherwise : Priority) :
    (AxisPair.mk (declared.horizontal.getD otherwise)
      (declared.vertical.getD otherwise)).Honours declared otherwise where
  horizontal_eq q h := by rw [h, Option.getD_some]
  horizontal_eq_otherwise h := by rw [h, Option.getD_none]
  vertical_eq q h := by rw [h, Option.getD_some]
  vertical_eq_otherwise h := by rw [h, Option.getD_none]

/-- A view of a scope has the name of its element and the priorities that the element declares: where
it declares none, the view resists compression with high and hugs its content with low priority. It
hangs directly below the node of the scope's elements, or below the view of the element that has its
own inside; that one says whether it is lined up. -/
def PlacedView.Hangs (t : ViewTree H) (parent : NodeId) (arranged : Bool) (es : List Element)
    (views : List PlacedView) (v : PlacedView) : Prop :=
  ∃ slot, t.slot? v.node = some slot ∧
    slot.node.name = some v.element.name ∧
    slot.node.compression.Honours v.element.layout.compression .high ∧
    slot.node.hugging.Honours v.element.layout.hugging .low ∧
    (v.element ∈ es ∧ slot.attachment = some ⟨parent, arranged⟩ ∨
      ∃ p ∈ views, v.element ∈ p.element.children ∧
        slot.attachment = some ⟨p.node, p.element.kind.arrangesChildren⟩)

namespace PlacedView.Hangs

variable {t : ViewTree H} {parent : NodeId} {arranged : Bool} {es es' : List Element}
  {views views' : List PlacedView} {v : PlacedView}

/-- A view that hangs among some elements hangs among more. -/
lemma mono (h : v.Hangs t parent arranged es views) (hes : es ⊆ es') (hviews : views ⊆ views') :
    v.Hangs t parent arranged es' views' := by
  obtain ⟨slot, hs, hn, hc, hh, ⟨he, ha⟩ | ⟨p, hp, ha⟩⟩ := h
  · exact ⟨slot, hs, hn, hc, hh, .inl ⟨hes he, ha⟩⟩
  · exact ⟨slot, hs, hn, hc, hh, .inr ⟨p, hviews hp, ha⟩⟩

/-- A view inside another of the scope. -/
lemma inside {p : PlacedView}
    (h : v.Hangs t p.node p.element.kind.arrangesChildren p.element.children views)
    (hp : p ∈ views') (hviews : views ⊆ views') : v.Hangs t parent arranged es views' := by
  obtain ⟨slot, hs, hn, hc, hh, ⟨he, ha⟩ | ⟨p', hp', ha⟩⟩ := h
  · exact ⟨slot, hs, hn, hc, hh, .inr ⟨p, hp, he, ha⟩⟩
  · exact ⟨slot, hs, hn, hc, hh, .inr ⟨p', hviews hp', ha⟩⟩

end PlacedView.Hangs

namespace Applier

/-- The definition that a reference leads to, if it is known and is not being applied already. -/
def enters? (a : Applier H) (active : List String) : Option TypeReference → Option Definition
  | none => none
  | some (.inline d) => if d.typeName ∈ active then none else some d
  | some (.named name) => (a.library.get? name).filter fun d => d.typeName ∉ active

/-- The definition that is applied inside the node of an element, if the element is a component. -/
def nested? (a : Applier H) (active : List String) (e : Element) : Option Definition :=
  if e.kind = .component then a.enters? active e.reference else none

/-- The visual element that the node of an element begins with: what it was if the field of the
element held the node, else a fresh one. -/
def Starts (a : Applier H) (σ : Scene H) (e : Element) (v : VisualElement H) : Prop :=
  match e.field.bind σ.old with
  | some old => v = old
  | none => a.create e = .ok v

/-- The node of a placed element has the constraints of the element, with their targets found among
the views of the scope. -/
def Tied (typeName : String) (views : List PlacedView) (p : PlacedView)
    (cs : List LiveConstraint) : Prop :=
  liveConstraints typeName views p = .ok cs

/-- **The nodes below a node show elements**: those directly below show the elements one by one, and
below them there is exactly what is to be shown inside the elements. Besides the elements and the
nodes directly below, the views of the scope are listed in document order, and so are all nodes of
the scopes nested in it. -/
inductive Shows (a : Applier H) (t : ViewTree H) : Scene H → NodeId → Bool → List Element →
    List NodeId → List PlacedView → List NodeId → Prop where
  /-- No elements, no nodes. -/
  | nil {σ : Scene H} {parent : NodeId} {arranged : Bool} : Shows a t σ parent arranged [] [] [] []
  /-- An element that takes others inside. -/
  | container {σ : Scene H} {parent : NodeId} {arranged : Bool} {e : Element} {es : List Element}
      {id : NodeId} {ids inside : List NodeId} {start : VisualElement H} {cs : List LiveConstraint}
      {views views' : List PlacedView} {deep deep' : List NodeId} :
      e.kind.acceptsChildren = true → a.Starts σ e start → σ.ties ⟨e, id, parent⟩ cs →
      t.slot? id = some ⟨{ a.dress σ.definition e start with constraints := cs },
        some ⟨parent, arranged⟩, inside⟩ →
      Shows a t σ id e.kind.arrangesChildren e.children inside views deep →
      Shows a t σ parent arranged es ids views' deep' →
      Shows a t σ parent arranged (e :: es) (id :: ids) (⟨e, id, parent⟩ :: (views ++ views'))
        (deep ++ deep')
  /-- A component whose definition is applied. Its node has the properties of the element and then
  those of the definition's root. -/
  | component {σ : Scene H} {parent : NodeId} {arranged : Bool} {e : Element} {es : List Element}
      {id : NodeId} {ids inside : List NodeId} {start : VisualElement H} {cs : List LiveConstraint}
      {views views' : List PlacedView} {deep deep' : List NodeId} {nested : Definition} :
      a.nested? σ.active e = some nested → a.Starts σ e start → σ.ties ⟨e, id, parent⟩ cs →
      t.slot? id = some
        ⟨{ a.capabilities.setOn .container (a.sheets.resolveRoot nested).properties
            (a.dress σ.definition e start) with constraints := cs },
          some ⟨parent, arranged⟩, inside⟩ →
      Shows a t ⟨nested.typeName :: σ.active, nested, fun _ => none, Tied nested.typeName views⟩ id
        false nested.children inside views deep →
      Shows a t σ parent arranged es ids views' deep' →
      Shows a t σ parent arranged (e :: es) (id :: ids) (⟨e, id, parent⟩ :: views')
        (views.map (·.node) ++ deep ++ deep')
  /-- An element with nothing inside. -/
  | leaf {σ : Scene H} {parent : NodeId} {arranged : Bool} {e : Element} {es : List Element}
      {id : NodeId} {ids : List NodeId} {start : VisualElement H} {cs : List LiveConstraint}
      {views' : List PlacedView} {deep' : List NodeId} :
      e.kind.acceptsChildren = false → a.nested? σ.active e = none → a.Starts σ e start →
      σ.ties ⟨e, id, parent⟩ cs →
      t.slot? id = some ⟨{ a.dress σ.definition e start with constraints := cs },
        some ⟨parent, arranged⟩, []⟩ →
      Shows a t σ parent arranged es ids views' deep' →
      Shows a t σ parent arranged (e :: es) (id :: ids) (⟨e, id, parent⟩ :: views') deep'

namespace Shows

variable {a : Applier H} {t t' : ViewTree H} {σ : Scene H} {parent : NodeId} {arranged : Bool}
  {es : List Element} {ids : List NodeId} {views : List PlacedView} {deep : List NodeId}

/-- Whether elements are shown depends on their nodes alone. -/
theorem congr (h : a.Shows t σ parent arranged es ids views deep)
    (hs : ∀ x ∈ views.map (·.node) ++ deep, t'.slot? x = t.slot? x) :
    a.Shows t' σ parent arranged es ids views deep := by
  induction h with
  | nil => exact .nil
  | container hk hst hc hslot _ _ ih ih' =>
    simp only [List.map_cons, List.map_append, List.cons_append, List.append_assoc,
      List.forall_mem_cons, List.forall_mem_append] at hs ih ih'
    obtain ⟨hid, hv, hv', hd, hd'⟩ := hs
    exact .container hk hst hc (hid.trans hslot) (ih ⟨hv, hd⟩) (ih' ⟨hv', hd'⟩)
  | component hn hst hc hslot _ _ ih ih' =>
    simp only [List.map_cons, List.cons_append, List.append_assoc,
      List.forall_mem_cons, List.forall_mem_append] at hs ih ih'
    obtain ⟨hid, hv', hv, hd, hd'⟩ := hs
    exact .component hn hst hc (hid.trans hslot) (ih ⟨hv, hd⟩) (ih' ⟨hv', hd'⟩)
  | leaf hk hn hst hc hslot _ ih' =>
    simp only [List.map_cons, List.cons_append, List.forall_mem_cons] at hs
    exact .leaf hk hn hst hc (hs.1.trans hslot) (ih' hs.2)

/-- What becomes of a scope when its constraints are set. -/
theorem tie (h : a.Shows t σ parent arranged es ids views deep)
    {ties : PlacedView → List LiveConstraint → Prop}
    (hd : ∀ x ∈ deep, t'.slot? x = t.slot? x)
    (hv : ∀ v ∈ views, ∃ cs, ties v cs ∧ t'.slot? v.node = (t.slot? v.node).map fun s =>
      { s with node := { s.node with constraints := cs } }) :
    a.Shows t' { σ with ties } parent arranged es ids views deep := by
  induction h with
  | nil => exact .nil
  | container hk hst _ hslot _ _ ih ih' =>
    simp only [List.forall_mem_cons, List.forall_mem_append] at hd hv
    obtain ⟨⟨cs, hcs, hid⟩, hv, hv'⟩ := hv
    rw [hslot] at hid
    exact .container hk hst hcs hid (ih hd.1 hv) (ih' hd.2 hv')
  | component hn hst _ hslot hin _ _ ih' =>
    simp only [List.forall_mem_cons, List.forall_mem_append] at hd hv
    obtain ⟨⟨cs, hcs, hid⟩, hv'⟩ := hv
    rw [hslot] at hid
    exact .component hn hst hcs hid (hin.congr (List.forall_mem_append.2 hd.1)) (ih' hd.2 hv')
  | leaf hk hn hst _ hslot _ ih' =>
    simp only [List.forall_mem_cons] at hv
    obtain ⟨⟨cs, hcs, hid⟩, hv'⟩ := hv
    rw [hslot] at hid
    exact .leaf hk hn hst hcs hid (ih' hd hv')

/-- Elements are shown one after the other. -/
lemma append (h : a.Shows t σ parent arranged es ids views deep) {es' : List Element}
    {ids' : List NodeId} {views' : List PlacedView} {deep' : List NodeId}
    (h' : a.Shows t σ parent arranged es' ids' views' deep') :
    a.Shows t σ parent arranged (es ++ es') (ids ++ ids') (views ++ views') (deep ++ deep') := by
  induction h with
  | nil => exact h'
  | container hk hst hc hslot hin _ _ ih =>
    simp only [List.cons_append, List.append_assoc]
    exact .container hk hst hc hslot hin (ih h')
  | component hn hst hc hslot hin _ _ ih =>
    simp only [List.cons_append, List.append_assoc]
    rw [← List.append_assoc]
    exact .component hn hst hc hslot hin (ih h')
  | leaf hk hn hst hc hslot _ ih => exact .leaf hk hn hst hc hslot (ih h')

/-- Every node listed is alive and has another above it. -/
lemma exists_slot? (h : a.Shows t σ parent arranged es ids views deep) :
    ∀ x ∈ views.map (·.node) ++ deep, ∃ slot at', t.slot? x = some slot ∧
      slot.attachment = some at' := by
  induction h with
  | nil => simp
  | container _ _ _ hslot _ _ ih ih' =>
    simp only [List.map_cons, List.map_append, List.cons_append, List.append_assoc,
      List.forall_mem_cons, List.forall_mem_append] at ih ih' ⊢
    exact ⟨⟨_, _, hslot, rfl⟩, ih.1, ih'.1, ih.2, ih'.2⟩
  | component _ _ _ hslot _ _ ih ih' =>
    simp only [List.map_cons, List.cons_append, List.append_assoc,
      List.forall_mem_cons, List.forall_mem_append] at ih ih' ⊢
    exact ⟨⟨_, _, hslot, rfl⟩, ih'.1, ih.1, ih.2, ih'.2⟩
  | leaf _ _ _ _ hslot _ ih' =>
    simp only [List.map_cons, List.cons_append, List.forall_mem_cons]
    exact ⟨⟨_, _, hslot, rfl⟩, ih'⟩

/-- A node that stands by itself is none of those listed. -/
lemma not_mem_of_isLoose (h : a.Shows t σ parent arranged es ids views deep) {x : NodeId}
    (hx : t.IsLoose x) : x ∉ views.map (·.node) ++ deep := by
  intro hm
  obtain ⟨slot, place, hs, hat⟩ := h.exists_slot? x hm
  have hp := hx.parent?
  rw [ViewTree.parent?_of_slot? hs, hat] at hp
  cases hp

/-- What holds of every node listed holds of those directly below the node, and of those directly
below the nodes listed. -/
lemma forall_children (h : a.Shows t σ parent arranged es ids views deep) {P : NodeId → Prop}
    (hP : ∀ x ∈ views.map (·.node) ++ deep, P x) :
    (∀ x ∈ ids, P x) ∧ ∀ x ∈ views.map (·.node) ++ deep, ∀ c ∈ t.children x, P c := by
  induction h with
  | nil => simp
  | container _ _ _ hslot _ _ ih ih' =>
    simp only [List.map_cons, List.map_append, List.cons_append, List.append_assoc,
      List.forall_mem_cons, List.forall_mem_append, ViewTree.children_of_slot? hslot]
      at hP ih ih' ⊢
    obtain ⟨hid, hv, hv', hd, hd'⟩ := hP
    obtain ⟨hin, cv, cd⟩ := ih ⟨hv, hd⟩
    obtain ⟨hids, cv', cd'⟩ := ih' ⟨hv', hd'⟩
    exact ⟨⟨hid, hids⟩, hin, cv, cv', cd, cd'⟩
  | component _ _ _ hslot _ _ ih ih' =>
    simp only [List.map_cons, List.cons_append, List.append_assoc, List.forall_mem_cons,
      List.forall_mem_append, ViewTree.children_of_slot? hslot] at hP ih ih' ⊢
    obtain ⟨hid, hv', hv, hd, hd'⟩ := hP
    obtain ⟨hin, cv, cd⟩ := ih ⟨hv, hd⟩
    obtain ⟨hids, cv', cd'⟩ := ih' ⟨hv', hd'⟩
    exact ⟨⟨hid, hids⟩, hin, cv', cv, cd, cd'⟩
  | leaf _ _ _ _ hslot _ ih' =>
    simp only [List.map_cons, List.cons_append, List.forall_mem_cons,
      ViewTree.children_of_slot? hslot] at hP ⊢
    obtain ⟨hids, hin⟩ := ih' hP.2
    exact ⟨⟨hP.1, hids⟩, List.forall_mem_nil _, hin⟩

/-- Every node listed is below the node. -/
lemma isBelow (h : a.Shows t σ parent arranged es ids views deep) :
    ∀ x ∈ views.map (·.node) ++ deep, t.IsBelow x parent := by
  induction h with
  | nil => simp
  | container _ _ _ hslot _ _ ih ih' =>
    have hp := ViewTree.parent?_of_slot? hslot
    simp only [List.map_cons, List.map_append, List.cons_append, List.append_assoc,
      List.forall_mem_cons, List.forall_mem_append] at ih ih' ⊢
    exact ⟨.single hp, fun x hx => (ih.1 x hx).tail hp, ih'.1, fun x hx => (ih.2 x hx).tail hp,
      ih'.2⟩
  | component _ _ _ hslot _ _ ih ih' =>
    have hp := ViewTree.parent?_of_slot? hslot
    simp only [List.map_cons, List.cons_append, List.append_assoc,
      List.forall_mem_cons, List.forall_mem_append] at ih ih' ⊢
    exact ⟨.single hp, ih'.1, fun x hx => (ih.1 x hx).tail hp, fun x hx => (ih.2 x hx).tail hp,
      ih'.2⟩
  | leaf _ _ _ _ hslot _ ih' =>
    simp only [List.map_cons, List.cons_append, List.forall_mem_cons]
    exact ⟨.single (ViewTree.parent?_of_slot? hslot), ih'⟩

/-- **Nothing else is below the node**: if the nodes directly below are those of the elements, the
nodes at any depth are those listed. -/
theorem isBelow_iff (h : a.Shows t σ parent arranged es ids views deep) (F : t.Forest)
    (hids : t.children parent = ids) (x : NodeId) :
    t.IsBelow x parent ↔ x ∈ views.map (·.node) ++ deep := by
  refine ⟨fun hb => ?_, h.isBelow x⟩
  obtain ⟨htop, hin⟩ := h.forall_children fun x hx => hx
  induction hb using Relation.TransGen.head_induction_on with
  | single hp => exact htop _ (hids ▸ (F.mem_children_iff _ _).2 hp)
  | head hp _ ih => exact hin _ ih _ ((F.mem_children_iff _ _).2 hp)

/-- The views of the scope are as their elements have them, and where their elements are. -/
lemma hangs (h : a.Shows t σ parent arranged es ids views deep) :
    ∀ v ∈ views, v.Hangs t parent arranged es views := by
  induction h with
  | nil => exact fun _ hv => (List.not_mem_nil hv).elim
  | @container _ _ _ e es _ _ _ _ _ views views' _ _ _ _ _ hslot _ _ ih ih' =>
    rw [List.forall_mem_cons, List.forall_mem_append]
    refine ⟨⟨_, hslot, rfl, .of_getD _ _, .of_getD _ _, .inl ⟨List.mem_cons_self, rfl⟩⟩,
      fun v hv => ?_, fun v hv => ?_⟩
    · exact (ih v hv).inside List.mem_cons_self
        (List.subset_cons_of_subset _ (List.subset_append_left views views'))
    · exact (ih' v hv).mono (List.subset_cons_self e es)
        (List.subset_cons_of_subset _ (List.subset_append_right views views'))
  | component _ _ _ hslot _ _ _ ih' =>
    rw [List.forall_mem_cons]
    exact ⟨⟨_, hslot, rfl, .of_getD _ _, .of_getD _ _, .inl ⟨List.mem_cons_self, rfl⟩⟩,
      fun v hv => (ih' v hv).mono (List.subset_cons_self _ _) (List.subset_cons_self _ _)⟩
  | leaf _ _ _ _ hslot _ ih' =>
    rw [List.forall_mem_cons]
    exact ⟨⟨_, hslot, rfl, .of_getD _ _, .of_getD _ _, .inl ⟨List.mem_cons_self, rfl⟩⟩,
      fun v hv => (ih' v hv).mono (List.subset_cons_self _ _) (List.subset_cons_self _ _)⟩

/-- The views are those of all elements of the scope. -/
lemma elements_eq (h : a.Shows t σ parent arranged es ids views deep)
    (hr : ∀ e ∈ Element.walkAll es, e.kind.acceptsChildren = false → e.children = []) :
    views.map (·.element) = Element.walkAll es := by
  induction h with
  | nil => rfl
  | container _ _ _ _ _ _ ih ih' =>
    rw [Element.walkAll_cons, List.forall_mem_cons, List.forall_mem_append] at hr
    rw [Element.walkAll_cons, List.map_cons, List.map_append, ih hr.2.1, ih' hr.2.2]
  | @component _ _ _ e _ _ _ _ _ _ _ _ _ _ nested hn _ _ _ _ _ _ ih' =>
    rw [Element.walkAll_cons, List.forall_mem_cons, List.forall_mem_append] at hr
    have hk : e.kind.acceptsChildren = false := by
      unfold nested? at hn
      split at hn
      · next hk => rw [hk]; rfl
      · cases hn
    rw [Element.walkAll_cons, List.map_cons, ih' hr.2.2, hr.1 hk]
    rfl
  | leaf hk _ _ _ _ _ ih' =>
    rw [Element.walkAll_cons, List.forall_mem_cons, List.forall_mem_append] at hr
    rw [Element.walkAll_cons, List.map_cons, ih' hr.2.2, hr.1 hk]
    rfl

end Shows

end Applier

end ViewMarkup
