import ViewMarkup.Proofs.View.Builtin
import ViewMarkup.Proofs.View.Exchanging
import ViewMarkup.Proofs.View.Targets

/-!
# Which elements the nodes were made for

With what is built in, a node that is made for an element holds a recording element of the element's
kind, or a wrapper of the type of its component. Setting properties does not change that. So the node
of an element after an application is of the kind of the element that it was made for. In the scopes
inside, and for elements that are no fields or whose field held nothing, that is the element itself. A
field that held a node keeps it: its node is still of the kind of the element by which the field got
it, whatever the definitions applied since have under the field.

## Main definitions

* `VisualElement.IsInstance` — a visual element is of the kind of an element.
* `Applier.Retains` — nodes have stayed what they were.
* `Applier.MadeFor` — the element by which a field got its node.
* `Applier.Instances` — the nodes of a scope are of the kinds of the elements they were made for.

## Main statements

* `Applier.invariant_retains` — an application never changes the kind of a node.
* `Applier.exists_madeFor` — what the fields of a component hold after a history.
* `Applier.instances_after_history` — the nodes after a successful application, whatever came before.
-/

namespace ViewMarkup

open ViewTree Element

variable {H : Type}

/-! ### Kinds of visual elements -/

namespace VisualElement

/-- The type and the kind of a recording element; none for a widget of the host. -/
def stamp? : VisualElement H → Option (String × Option Kind)
  | generic g => some (g.typeName, g.kind)
  | host _ => none

/-- **A visual element is an instance of an element**: it is a recording element of its kind, or a
wrapper of the type that it refers to. -/
def IsInstance (v : VisualElement H) (e : Element) : Prop :=
  ∃ g, v = .generic g ∧ g.typeName = (Applier.generic e).typeName ∧
    g.kind = (Applier.generic e).kind

/-- A view is an instance of an element if it is stamped with its type and kind. -/
lemma isInstance_iff {v : VisualElement H} {e : Element} :
    v.IsInstance e ↔ v.stamp? = some ((Applier.generic e).typeName, (Applier.generic e).kind) := by
  cases v with
  | generic g => simp [IsInstance, stamp?]
  | host w => simp [IsInstance, stamp?]

/-- Views with the same stamp are instances of the same elements. -/
lemma IsInstance.congr {v w : VisualElement H} {e : Element} (h : v.IsInstance e)
    (hs : w.stamp? = v.stamp?) : w.IsInstance e := by
  rw [isInstance_iff] at h ⊢
  rw [hs, h]

end VisualElement

namespace Capabilities

/-- A setter that is built in does not change the kind of an element. -/
lemma stamp?_of_set_builtin {kind : Kind} {v w : VisualElement H} {p : Property}
    (h : (builtin : Capabilities H).set kind v p = .applied w) : w.stamp? = v.stamp? := by
  rw [set] at h
  cases hsetter : (builtin : Capabilities H).setters.get? (kind, p.name) with
  | none =>
    rw [hsetter] at h
    cases h
  | some setter =>
    rw [hsetter] at h
    rw [setters_builtin] at hsetter
    obtain ⟨key, -, -, rfl⟩ | hnone := Table.exists_of_get?_foldl_insert hsetter
    · cases v with
      | generic g =>
        cases h
        rfl
      | host w => cases h
    · cases hnone

/-- Setting properties does not change the kind of an element. -/
lemma stamp?_setAll_builtin (kind : Kind) (ps : List Property) (v : VisualElement H) :
    ((builtin : Capabilities H).setAll kind ps v).stamp? = v.stamp? := by
  unfold setAll
  induction ps generalizing v with
  | nil => rfl
  | cons p ps ih =>
    rw [List.foldl_cons]
    cases h : (builtin : Capabilities H).set kind v p with
    | applied w => exact (ih w).trans (stamp?_of_set_builtin h)
    | unsupported => exact ih v
    | rejected message => exact ih v

/-- Nothing is made for a component without a type. -/
lemma createPrimitive?_builtin_component :
    (builtin : Capabilities H).createPrimitive? .component = none := by
  have hfactories : (builtin : Capabilities H).factories = {} := rfl
  have hbuiltins : (builtin : Capabilities H).builtins =
      (Kind.all.filter (· ≠ .component)).foldl
        (fun t kind => t.insert kind (.generic (.ofKind kind))) {} := rfl
  rw [createPrimitive?, create?, hfactories, Table.get?_empty, Option.none_or, hbuiltins]
  refine Option.eq_none_iff_forall_ne_some.2 fun v hv => ?_
  obtain ⟨kind, hkind, rfl, -⟩ | h := Table.exists_of_get?_foldl_insert hv
  · simp at hkind
  · cases h

end Capabilities

namespace Applier

variable {a : Applier H} {t t₀ : ViewTree H} {e : Element}

/-- What is made for an element is an instance of it. -/
lemma isInstance_of_create (ha : a.capabilities = .builtin) {v : VisualElement H}
    (h : a.create e = .ok v) : v.IsInstance e := by
  suffices v = .generic (generic e) from ⟨_, this, rfl, rfl⟩
  by_cases hk : e.kind = .component
  · cases hr : e.reference with
    | none =>
      unfold create at h
      simp only [hk, hr] at h
      rw [ha, Capabilities.createPrimitive?_builtin_component] at h
      cases h
    | some r =>
      have hgeneric : generic e = .wrapper r.typeName := by
        unfold generic
        rw [hk, hr]
      have hnone : a.capabilities.create? r.typeName = none := by rw [ha]; rfl
      unfold create at h
      simp only [hk, hr, hnone] at h
      rw [hgeneric]
      split at h
      · exact (Except.ok.inj h).symm
      · cases h
  · have hc := create_builtin ha (e := e) fun h => (hk h).elim
    exact Except.ok.inj (h.symm.trans hc)

/-- Dressing a visual element does not change its kind. -/
lemma stamp?_dress (ha : a.capabilities = .builtin) (d : Definition) (start : VisualElement H) :
    (a.dress d e start).element.stamp? = start.stamp? := by
  have h := Capabilities.stamp?_setAll_builtin e.kind (a.sheets.resolve d e).properties start
  rw [← ha] at h
  exact h

/-! ### Nodes stay what they are -/

/-- Nodes that were given out before are of the kind that they were, as long as they are alive. -/
structure Retains (t₀ t : ViewTree H) : Prop where
  size_le : t₀.slots.size ≤ t.slots.size
  stamp?_eq : ∀ x n, t₀.Issued x → t.get? x = some n →
    ∃ n₀, t₀.get? x = some n₀ ∧ n.element.stamp? = n₀.element.stamp?

namespace Retains

variable {t' : ViewTree H}

/-- A tree retains its own views. -/
lemma refl (t : ViewTree H) : Retains t t := ⟨Nat.le_refl _, fun _ n _ hn => ⟨n, hn, rfl⟩⟩

/-- What is retained first and what is retained then. -/
lemma trans (h : Retains t₀ t) (h' : Retains t t') : Retains t₀ t' where
  size_le := h.size_le.trans h'.size_le
  stamp?_eq x n hx hn := by
    obtain ⟨n₁, hn₁, hs₁⟩ := h'.stamp?_eq x n (hx.mono h.size_le) hn
    obtain ⟨n₀, hn₀, hs₀⟩ := h.stamp?_eq x n₁ hx hn₁
    exact ⟨n₀, hn₀, hs₁.trans hs₀⟩

/-- Changing what a node holds, but not its kind. -/
lemma modify (t : ViewTree H) (id : NodeId) {f : ViewNode H → ViewNode H}
    (hf : ∀ n, (f n).element.stamp? = n.element.stamp?) : Retains t (t.modify id f) where
  size_le := (size_slots_modifySlot _ _ _).ge
  stamp?_eq x n _ hn := by
    rw [get?_modify] at hn
    split at hn
    · obtain ⟨n₀, hn₀, rfl⟩ := Option.map_eq_some_iff.1 hn
      exact ⟨n₀, hn₀, hf n₀⟩
    · exact ⟨n, hn, rfl⟩

/-- Clearing a tree retains the views that it keeps. -/
lemma clear (t : ViewTree H) (root : NodeId) (keep : List NodeId) :
    Retains t (clear t root keep) where
  size_le := (size_slots_clear _ _ _).ge
  stamp?_eq _ n _ hn := ⟨n, get?_of_get?_clear hn, rfl⟩

end Retains

/-- Placing an element leaves all nodes what they were. -/
lemma Puts.retains (ha : a.capabilities = .builtin) {d : Definition} {parent id : NodeId}
    {arranged : Bool} {s s' : Run H} {start : VisualElement H}
    (P : a.Puts d parent arranged e s id start t s') : Retains s.tree s'.tree where
  size_le := P.size_le'
  stamp?_eq x n hx hn := by
    rw [P.get?_eq] at hn
    by_cases he : x = id
    · subst he
      cases P.get?_id.symm.trans hn
      obtain ⟨f, n₀, -, -, hn₀, rfl⟩ | ⟨hnew, -⟩ := P.source
      · exact ⟨n₀, hn₀, stamp?_dress ha d _⟩
      · exact absurd hnew (Nat.ne_of_lt hx)
    · exact ⟨n, (P.get?_of_ne x he).symm.trans hn, rfl⟩

/-- Constraining views retains them all. -/
lemma retains_constrain (typeName : String) (s : Run H) :
    Live.Meets s (constrain typeName)
      (fun _ s' => s'.fields = s.fields ∧ Retains s.tree s'.tree) (fun s' => s' = s) := by
  have modified : ∀ (changes : List (NodeId × List LiveConstraint)) (t : ViewTree H),
      Retains t (changes.foldl
        (fun t change => t.modify change.1 fun n => { n with constraints := change.2 }) t) := by
    intro changes
    induction changes with
    | nil => exact .refl
    | cons change changes ih =>
      exact fun t => .trans
        (.modify t change.1 (f := fun n => { n with constraints := change.2 }) fun _ => rfl) (ih _)
  unfold Live.Meets constrain
  cases allConstraints typeName s.placed with
  | error e => rfl
  | ok rebuilt => exact ⟨rfl, modified rebuilt s.tree⟩

variable [Widget H]

/-- Beginning a scope retains the views that are kept. -/
lemma retains_beginScope (ha : a.capabilities = .builtin) (root : ScopeRoot) (d : Definition)
    (s : Run H) : Live.Meets s (a.beginScope root d)
      (fun _ s' => s'.fields = s.fields ∧ Retains s.tree s'.tree) (fun s' => s' = s) := by
  refine (a.beginScope_clears root d s).imp ?_ fun _ h => h
  rintro _ s' ⟨-, hfields, -, htree⟩
  refine ⟨hfields, htree ▸ .trans (.clear _ _ _) (.modify _ _ fun n => ?_)⟩
  have h := Capabilities.stamp?_setAll_builtin .container (a.sheets.resolveRoot d).properties
    n.element
  rw [← ha] at h
  exact h

/-- **An application never changes the kind of a node.** -/
theorem invariant_retains (ha : a.capabilities = .builtin) (t₀ : ViewTree H) :
    Invariant a (fun s => Retains t₀ s.tree) (fun _ => True) (fun _ => True) where
  inline _ _ _ _ _ _ := trivial
  named _ _ _ := trivial
  enter _ h := h
  leave _ _ _ h := h
  warn _ _ _ _ h := h
  beginScope root d _ _ s h := (retains_beginScope ha root d s).imp (fun _ _ R => h.trans R.2)
    fun _ hs => hs ▸ h
  placeOne root d parent parentKind e _ _ _ s h :=
    (a.placeOne_puts root d parent parentKind e s).imp
      (fun _ _ ⟨_, _, P⟩ => ⟨h.trans (P.retains ha), trivial⟩) fun _ hs => hs ▸ h
  constrain typeName s h := (retains_constrain typeName s).imp (fun _ _ R => h.trans R.2)
    fun _ hs => hs ▸ h

/-- What is applied inside an element leaves the fields of the scope around, and all nodes what they
were. -/
lemma retains_applyReference (ha : a.capabilities = .builtin) (active : List String)
    (typeName element : String) (id : NodeId) (r : Option TypeReference) (s : Run H) :
    Live.Meets s (a.applyReference active typeName element id r)
      (fun _ s' => s'.fields = s.fields ∧ Retains s.tree s'.tree)
      (fun s' => s'.fields = s.fields ∧ Retains s.tree s'.tree) := by
  obtain ⟨nested, -, h⟩ | ⟨-, h | ⟨w, h⟩⟩ := a.applyReference_cases active typeName element id r
  · rw [h]
    refine meets_inNewScope (Live.Meets.bind ?_)
    exact ((invariant_retains ha s.tree).applyScope _ ⟨id, nested.typeName, true⟩ nested trivial
      trivial { s with fields := {}, placed := [] } (.refl _)).imp (fun _ _ R => ⟨rfl, R⟩)
      fun _ R => ⟨rfl, R⟩
  · rw [h]
    exact ⟨rfl, .refl _⟩
  · rw [h]
    exact ⟨rfl, .refl _⟩

/-! ### What the fields of a component get -/

/-- A run whose fields hold what they held before, or nodes that were made for elements of the
definition. -/
def Fills (b : Binding) (d : Definition) (s : Run H) : Prop :=
  ∀ f id, s.fields.get? f = some id → b.fields.get? f = some id ∨
    ∃ e ∈ d.elements, e.field = some f ∧ s.tree.Issued id ∧
      ∀ n, s.tree.get? id = some n → n.element.IsInstance e

variable {b : Binding} {d : Definition}

omit [Widget H] in
/-- Fields that are filled stay filled if their views are retained. -/
lemma Fills.of_retains {s s' : Run H} (h : Fills b d s) (hfields : s'.fields = s.fields)
    (R : Retains s.tree s'.tree) : Fills b d s' := by
  intro f id hid
  refine (h f id (hfields ▸ hid)).imp_right fun ⟨e, he, hf, hissued, hinstance⟩ =>
    ⟨e, he, hf, hissued.mono R.size_le, fun n hn => ?_⟩
  obtain ⟨n₀, hn₀, hs⟩ := R.stamp?_eq id n hissued hn
  exact (hinstance n₀ hn₀).congr hs

omit [Widget H] in
/-- The field of a placed element gets a node that was made for the element. -/
lemma Fills.puts {s s' : Run H} (h : Fills b d s) (ha : a.capabilities = .builtin)
    (he : e ∈ d.elements) {parent id : NodeId} {arranged : Bool} {start : VisualElement H}
    (P : a.Puts d parent arranged e s id start t s') : Fills b d s' := by
  have kept : Fills b d { s' with fields := s.fields } := h.of_retains rfl (P.retains ha)
  intro f x hx
  by_cases hf : e.field = some f
  · cases (P.get?_field f hf).symm.trans hx
    obtain ⟨f', n, hf', hid, -⟩ | ⟨-, hc, -⟩ := P.source
    · cases hf.symm.trans hf'
      exact kept f id hid
    · have hid : s'.tree.get? id = some (a.dress d e start) := (P.get?_eq id).trans P.get?_id
      refine .inr ⟨e, he, hf, issued_of_contains ?_, fun n hn => ?_⟩
      · rw [← isSome_get?, hid]
        rfl
      · cases hid.symm.trans hn
        exact (isInstance_of_create ha hc).congr (stamp?_dress ha d start)
  · rw [P.get?_of_field_ne f hf] at hx
    exact kept f x hx

section Induction

variable (a b)

/-- What is to be shown of placing elements of the component's own scope. -/
def AllFill (active : List String) (root : ScopeRoot) (d : Definition) (parent : NodeId)
    (parentKind : Kind) (es : List Element) : Prop :=
  walkAll es ⊆ d.elements →
    Live.Maintains (Fills b d) (a.placeAll active root d parent parentKind es)

/-- What is to be shown of placing an element of that scope. -/
def OneFills (active : List String) (root : ScopeRoot) (d : Definition) (parent : NodeId)
    (parentKind : Kind) (e : Element) : Prop :=
  walkAll [e] ⊆ d.elements →
    Live.Maintains (Fills b d) (a.place active root d parent parentKind e)

/-- **The fields of the scope hold what they held or get nodes of its elements**, however far the
application comes.

**Proof sketch.** Induction over the application. Only the cases of this scope count: what is applied
inside an element has fields of its own. -/
theorem placeAll_fills (ha : a.capabilities = .builtin) (active : List String) (root : ScopeRoot)
    (d : Definition) (parent : NodeId) (parentKind : Kind) (es : List Element) :
    AllFill a b active root d parent parentKind es := by
  refine (applyScope.mutual_induct a (fun _ _ _ => True) (AllFill a b) (OneFills a b)
    (fun _ _ _ _ _ => True) ?scope ?nil ?cons ?one ?none ?inlineActive ?inline ?unknown ?namedActive
    ?named).2.1 active root d parent parentKind es
  case nil =>
    intro active root d parent parentKind _
    rw [placeAll]
    exact .pure ()
  case cons =>
    intro active root d parent parentKind e es ih ih' hs
    rw [placeAll]
    exact (ih (List.Subset.trans (walkAll_singleton_subset e es) hs)).bind fun _ =>
      ih' (List.Subset.trans (walkAll_subset_cons e es) hs)
  case one =>
    intro active root d parent parentKind e _ hc hs
    have he : e ∈ d.elements := hs (by rw [walkAll_cons]; exact List.mem_cons_self)
    have hchildren := List.Subset.trans (walkAll_children_subset e []) hs
    have placed : Live.Maintains (Fills b d) (a.placeOne root d parent parentKind e) := by
      intro s h
      refine (a.placeOne_puts root d parent parentKind e s).imp ?_ fun _ hs => hs ▸ h
      rintro id s' ⟨start, ready, P⟩
      exact h.puts ha he P
    rw [place]
    refine placed.bind fun id => ?_
    have reference : Live.Maintains (Fills b d) (if e.kind = .component then
        a.applyReference active d.typeName e.name id e.reference else pure ()) := by
      split
      · intro s h
        refine (retains_applyReference ha active d.typeName e.name id e.reference s).imp ?_ ?_
        · rintro _ s' ⟨hfields, R⟩
          exact h.of_retains hfields R
        · rintro s' ⟨hfields, R⟩
          exact h.of_retains hfields R
      · exact .pure ()
    simp only
    split
    · exact (hc id hchildren).bind fun _ => reference
    · exact reference
  all_goals intros; trivial

end Induction

/-- **What an application does to the nodes of fields**: a field holds what it held, or a node that was
made for an element of the definition; and all nodes stay what they were. -/
theorem apply_fills (ha : a.capabilities = .builtin) (t : ViewTree H) (b : Binding)
    (d : Definition) :
    (∀ f id, (a.apply t b d).2.2.fields.get? f = some id → b.fields.get? f = some id ∨
      ∃ e ∈ d.elements, e.field = some f ∧
        ∀ n, (a.apply t b d).2.1.get? id = some n → n.element.IsInstance e) ∧
    Retains t (a.apply t b d).2.1 := by
  have fills : Live.Maintains (Fills b d)
      (a.applyScope [d.typeName] ⟨b.node, b.typeName, b.adopts⟩ d) := by
    rw [applyScope]
    refine Live.Maintains.bind (fun s h => (retains_beginScope ha _ d s).imp
      (fun _ _ R => h.of_retains R.1 R.2) fun _ hs => hs ▸ h) fun _ => ?_
    exact (placeAll_fills a b ha _ _ d _ _ _ (List.Subset.refl _)).bind fun _ s h =>
      (retains_constrain d.typeName s).imp (fun _ _ R => h.of_retains R.1 R.2) fun _ hs => hs ▸ h
  have filled := fills { tree := t, fields := b.fields } fun _ _ h => .inl h
  have retained := (invariant_retains ha t).applyScope [d.typeName] ⟨b.node, b.typeName, b.adopts⟩ d
    trivial trivial { tree := t, fields := b.fields } (.refl t)
  have result : ∀ s' : Run H, Fills b d s' → Retains t s'.tree →
      (∀ f id, s'.fields.get? f = some id → b.fields.get? f = some id ∨
        ∃ e ∈ d.elements, e.field = some f ∧
          ∀ n, s'.tree.get? id = some n → n.element.IsInstance e) ∧ Retains t s'.tree := by
    intro s' h R
    refine ⟨fun f id hid => (h f id hid).imp_right ?_, R⟩
    rintro ⟨e, he, hf, -, hn⟩
    exact ⟨e, he, hf, hn⟩
  unfold Live.Meets at filled retained
  unfold apply
  split <;> rename_i hs <;> rw [hs] at filled retained <;> exact result _ filled retained

/-! ### Any history -/

/-- A field keeps its node, whether the application succeeds or fails. -/
lemma fields_mono_apply (hk : a.KnowsParsed) (hd : d.IsParsed) (h : Holds b.node t b.fields)
    {f : String} {id : NodeId} (hf : b.fields.get? f = some id) :
    (a.apply t b d).2.2.fields.get? f = some id := by
  obtain ⟨s', -, hfields, K⟩ := keeps_apply hk hd h
  exact hfields ▸ K.fields_mono f id hf

/-- **The element by which a field got its node**: in the history of a component there was an
application before which the field held nothing and after which it held a node, and the definition that
was applied has the element under the field. -/
def MadeFor (t : ViewTree H) (b : Binding) (steps : List (Applier H × Definition)) (f : String)
    (e : Element) : Prop :=
  ∃ before a d after, steps = before ++ (a, d) :: after ∧
    (applyEach t b before).2.fields.get? f = none ∧
    (applyEach t b (before ++ [(a, d)])).2.fields.get? f ≠ none ∧ e ∈ d.elements ∧ e.field = some f

/-- Applying one definition more. -/
lemma applyEach_concat (t : ViewTree H) (b : Binding) (steps : List (Applier H × Definition))
    (a : Applier H) (d : Definition) : applyEach t b (steps ++ [(a, d)]) =
      (a.apply (applyEach t b steps).1 (applyEach t b steps).2 d).2 := by
  rw [applyEach, List.foldl_append]
  rfl

/-- A field that was made for an element was made for it at any later time. -/
lemma MadeFor.concat {steps : List (Applier H × Definition)} {f : String}
    (h : MadeFor t b steps f e) (step : Applier H × Definition) :
    MadeFor t b (steps ++ [step]) f e := by
  obtain ⟨before, a, d, after, rfl, h⟩ := h
  exact ⟨before, a, d, after ++ [step], by rw [List.append_assoc, List.cons_append], h⟩

/-- **What the fields hold after a history**: nodes that were made for the elements by which the fields
got them.

**Proof sketch.** Induction on the history. A field that held a node keeps it, and the node stays what
it is; one that held nothing gets a node that is made for an element of the definition
(`apply_fills`). -/
theorem exists_madeFor (steps : List (Applier H × Definition))
    (hsteps : ∀ step ∈ steps, step.1.KnowsParsed ∧ step.2.IsParsed ∧
      step.1.capabilities = .builtin)
    (h : Holds b.node t b.fields) (hempty : ∀ f, b.fields.get? f = none) {f : String} {id : NodeId}
    (hf : (applyEach t b steps).2.fields.get? f = some id) :
    ∃ e, MadeFor t b steps f e ∧
      ∀ n, (applyEach t b steps).1.get? id = some n → n.element.IsInstance e := by
  induction steps using List.reverseRecOn generalizing f id with
  | nil =>
    rw [show (applyEach t b []).2 = b from rfl, hempty] at hf
    cases hf
  | append_singleton steps step ih =>
    obtain ⟨a, d⟩ := step
    rw [List.forall_mem_append, List.forall_mem_singleton] at hsteps
    obtain ⟨hbefore, hk, hd, ha⟩ := hsteps
    obtain ⟨hnode, held⟩ := holds_applyEach (b := b) steps
      (fun step hs => ⟨(hbefore step hs).1, (hbefore step hs).2.1⟩) h
    obtain ⟨fills, retains⟩ := apply_fills ha (applyEach t b steps).1 (applyEach t b steps).2 d
    have hf' := hf
    rw [applyEach_concat] at hf ⊢
    cases hbound : (applyEach t b steps).2.fields.get? f with
    | some old =>
      cases hf.symm.trans (fields_mono_apply hk hd (hnode ▸ held) hbound)
      obtain ⟨e, hmade, hinstance⟩ := ih hbefore hbound
      have halive : (applyEach t b steps).1.contains id = true := by
        obtain ⟨-, hloose | hbelow⟩ := held.held f id hbound
        · exact hloose.contains
        · exact hbelow.contains
      refine ⟨e, hmade.concat _, fun n hn => ?_⟩
      obtain ⟨n₀, hn₀, hs⟩ := retains.stamp?_eq id n (issued_of_contains halive) hn
      exact (hinstance n₀ hn₀).congr hs
    | none =>
      obtain hold | ⟨e, he, hfield, hinstance⟩ := fills f id hf
      · rw [hbound] at hold
        cases hold
      · exact ⟨e, ⟨steps, a, d, [], rfl, hbound, by rw [hf']; exact Option.some_ne_none _, he, hfield⟩,
          hinstance⟩

/-! ### The nodes of a scope -/

/-- **The nodes of a scope are instances of the elements that they were made for**, which are given in
the scope itself, and in the scopes that are entered from its components are the elements of the views.
There is a view for every element, and each is where its element is. -/
inductive Instances (a : Applier H) (t : ViewTree H) : (PlacedView → Element → Prop) →
    List String → Definition → NodeId → List PlacedView → Prop where
  | scope {made : PlacedView → Element → Prop} {active : List String} {d : Definition}
      {root : NodeId} {views : List PlacedView} (inner : PlacedView → List PlacedView) :
      views.map (·.element) = d.elements →
      (∀ v ∈ views, v.Hangs t root false d.children views) →
      (∀ v ∈ views, ∃ e n, made v e ∧ t.get? v.node = some n ∧ n.element.IsInstance e) →
      (∀ v ∈ views, ∀ nested, a.nested? active v.element = some nested →
        Instances a t (fun v e => e = v.element) (nested.typeName :: active) nested v.node
          (inner v)) →
      Instances a t made active d root views

section Shown

variable {σ : Scene H} {parent : NodeId} {arranged : Bool} {es : List Element} {ids deep : List NodeId}
  {views : List PlacedView}

omit [Widget H] in
/-- The node of a view is of the kind of the visual element that it began with. -/
lemma Shows.exists_starts (ha : a.capabilities = .builtin)
    (h : a.Shows t σ parent arranged es ids views deep) :
    ∀ v ∈ views, ∃ start n, a.Starts σ v.element start ∧ t.get? v.node = some n ∧
      n.element.stamp? = start.stamp? := by
  induction h with
  | nil => exact fun _ hv => (List.not_mem_nil hv).elim
  | container _ hst _ hslot _ _ ih ih' =>
    rw [List.forall_mem_cons, List.forall_mem_append]
    exact ⟨⟨_, _, hst, get?_of_slot? hslot, stamp?_dress ha _ _⟩, ih, ih'⟩
  | @component σ _ _ e _ _ _ _ start _ _ _ _ _ nested _ hst _ hslot _ _ _ ih' =>
    rw [List.forall_mem_cons]
    have hroot := Capabilities.stamp?_setAll_builtin .container
      (a.sheets.resolveRoot nested).properties (a.dress σ.definition e start).element
    rw [← ha] at hroot
    exact ⟨⟨_, _, hst, get?_of_slot? hslot, hroot.trans (stamp?_dress ha _ start)⟩, ih'⟩
  | leaf _ _ hst _ hslot _ ih' =>
    rw [List.forall_mem_cons]
    exact ⟨⟨_, _, hst, get?_of_slot? hslot, stamp?_dress ha _ _⟩, ih'⟩

omit [Widget H] in
/-- A scope that is shown has instances, if those inside it have. -/
lemma Instances.of_shows {active : List String} {root : NodeId}
    {old : String → Option (VisualElement H)} {made : PlacedView → Element → Prop} (hd : d.IsParsed)
    (h : a.Shows t ⟨active, d, old, Tied d.typeName views⟩ root false d.children ids views deep)
    (hmade : ∀ v ∈ views, ∃ e n, made v e ∧ t.get? v.node = some n ∧ n.element.IsInstance e)
    (hinner : ∀ v ∈ views, ∃ inner, ∀ nested, a.nested? active v.element = some nested →
      a.Instances t (fun v e => e = v.element) (nested.typeName :: active) nested v.node inner) :
    a.Instances t made active d root views := by
  choose! inner hinner using hinner
  exact .scope inner (h.elements_eq hd.areSound.children_eq_nil) h.hangs hmade hinner

omit [Widget H] in
/-- **In the scopes inside all nodes are instances of their own elements**, for they are made anew.

**Proof sketch.** Induction on what is shown. A component whose definition is applied shows a scope of
its own, whose fields held nothing before. -/
theorem Shows.instances (ha : a.capabilities = .builtin) (hk : a.KnowsParsed)
    (h : a.Shows t σ parent arranged es ids views deep) (hd : σ.definition.IsParsed)
    (hes : walkAll es ⊆ σ.definition.elements) :
    ∀ v ∈ views, ∃ inner, ∀ nested, a.nested? σ.active v.element = some nested →
      a.Instances t (fun v e => e = v.element) (nested.typeName :: σ.active) nested v.node inner := by
  induction h with
  | nil => exact fun _ hv => (List.not_mem_nil hv).elim
  | @container σ _ _ e _ _ _ _ _ _ _ _ _ _ haccepts _ _ _ _ _ ih ih' =>
    rw [walkAll_cons, List.cons_subset, List.append_subset] at hes
    rw [List.forall_mem_cons, List.forall_mem_append]
    refine ⟨⟨[], fun nested hn => ?_⟩, ih hd hes.2.1, ih' hd hes.2.2⟩
    rw [nested?_of_acceptsChildren haccepts] at hn
    cases hn
  | @component σ _ _ e _ _ _ _ _ _ views _ _ _ nested hn _ _ _ hin _ ih ih' =>
    rw [walkAll_cons, List.cons_subset, List.append_subset] at hes
    rw [List.forall_mem_cons]
    refine ⟨⟨views, fun nested' hn' => ?_⟩, ih' hd hes.2.2⟩
    cases hn.symm.trans hn'
    have hd' := isParsed_of_nested? hk hd hes.1 hn
    refine .of_shows hd' hin (fun v hv => ?_) (ih hd' (List.Subset.refl _))
    obtain ⟨start, n, hst, hn, hs⟩ := hin.exists_starts ha v hv
    have hcreate : a.create v.element = .ok start := by
      unfold Starts at hst
      cases hf : v.element.field <;> rw [hf] at hst <;> exact hst
    exact ⟨v.element, n, rfl, hn, (isInstance_of_create ha hcreate).congr hs⟩
  | leaf _ hn _ _ _ _ ih' =>
    rw [walkAll_cons, List.cons_subset, List.append_subset] at hes
    rw [List.forall_mem_cons]
    refine ⟨⟨[], fun nested hn' => ?_⟩, ih' hd hes.2.2⟩
    rw [hn] at hn'
    cases hn'

end Shown

/-- The element that the node of a view was made for, when one more definition has been applied to a
component with a history: the view's own, unless its field held a node before. -/
inductive Origin (t : ViewTree H) (b : Binding) (steps : List (Applier H × Definition))
    (v : PlacedView) : Element → Prop where
  /-- The element is no field, or its field held nothing. -/
  | own : (∀ f, v.element.field = some f → (applyEach t b steps).2.fields.get? f = none) →
      Origin t b steps v v.element
  /-- The field held the node. -/
  | field {f : String} {e : Element} : v.element.field = some f →
      (applyEach t b steps).2.fields.get? f = some v.node → MadeFor t b steps f e →
      Origin t b steps v e

/-- **Which elements the nodes are instances of, whatever came before.** A component that creates its
fields begins without any on a living node of a tree whose links fit together. It undergoes any
applications of definitions that come from documents, with what is built in and any styles and
libraries, each of which may fail. If one more application succeeds, then in every scope that it enters
each node is an instance of the element that it was made for. That is its own element, except in the
component's own scope where the field of the element held a node before; that node is still an instance
of the element by which the field got it.

**Proof sketch.** A node begins with a visual element that is made for its element, or with the one
that it had when its field held it (`Shows.exists_starts`). In the second case the node has been what
it is since the field got it (`exists_madeFor`). Properties do not change what a node is. -/
theorem instances_after_history {node : NodeId} (typeName : String) (F : t.Forest)
    (hnode : t.contains node = true) (steps : List (Applier H × Definition))
    (hsteps : ∀ step ∈ steps, step.1.KnowsParsed ∧ step.2.IsParsed ∧
      step.1.capabilities = .builtin)
    (hk : a.KnowsParsed) (ha : a.capabilities = .builtin) (hd : d.IsParsed) {t₁ t' : ViewTree H}
    {b₁ b' : Binding} (h₁ : applyEach t (.adopting node typeName) steps = (t₁, b₁))
    {report : ApplyReport} (hr : a.apply t₁ b₁ d = (.ok report, t', b')) :
    ∃ views, report.named.entries = views.map (fun v => (v.element.name, v.node)) ∧
      a.Instances t' (Origin t (.adopting node typeName) steps) [d.typeName] d node views := by
  have start : Holds node t (Binding.adopting node typeName).fields := .start F hnode
  have held := holds_applyEach (b := .adopting node typeName) steps
    (fun step hs => ⟨(hsteps step hs).1, (hsteps step hs).2.1⟩) start
  have made := fun (f : String) (id : NodeId)
    (hf : (applyEach t (.adopting node typeName) steps).2.fields.get? f = some id) =>
      exists_madeFor steps hsteps start (fun f => rfl) hf
  rw [h₁] at held made
  obtain ⟨rfl, held⟩ : b₁.node = node ∧ Holds node t₁ b₁.fields := held
  obtain ⟨views, deep, R⟩ := reflects_apply hk hd held hr
  refine ⟨views, R.named_eq, .of_shows hd R.shows (fun v hv => ?_)
    (R.shows.instances ha hk hd (List.Subset.refl _))⟩
  obtain ⟨visual, n, hst, hn, hs⟩ := R.shows.exists_starts ha v hv
  have own : a.create v.element = .ok visual →
      (∀ f, v.element.field = some f → b₁.fields.get? f = none) →
      ∃ e n, Origin t (.adopting b₁.node typeName) steps v e ∧ t'.get? v.node = some n ∧
        n.element.IsInstance e := fun hcreate hf =>
    ⟨_, n, .own (h₁ ▸ hf), hn, (isInstance_of_create ha hcreate).congr hs⟩
  unfold Starts at hst
  cases hf : v.element.field with
  | none =>
    rw [hf] at hst
    exact own hst fun f h => by rw [hf] at h; cases h
  | some f =>
    rw [hf, Option.bind_some] at hst
    cases hb : b₁.fields.get? f with
    | none =>
      simp only [hb, Option.bind_none] at hst
      exact own hst fun f' h => by rw [hf] at h; cases h; exact hb
    | some id =>
      have hid := R.kept v hv f id hf hb
      have halive : t₁.contains id = true := by
        obtain ⟨-, hloose | hbelow⟩ := held.held f id hb
        · exact hloose.contains
        · exact hbelow.contains
      obtain ⟨slot, hslot⟩ := contains_iff.1 halive
      simp only [hb, Option.bind_some, get?_of_slot? hslot, Option.map_some] at hst
      cases hst
      obtain ⟨e, hmade, hinstance⟩ := made f id hb
      refine ⟨e, n, .field hf ?_ hmade, hn, (hinstance _ (get?_of_slot? hslot)).congr hs⟩
      rw [h₁, hb, hid]

/-- A host with a recording element for every kind, and with any setters. -/
def recordingHost (setters : Table (Kind × String) (Setter Empty)) : Applier Empty where
  capabilities :=
    { setters
      builtins := (Kind.all.filter (· ≠ .component)).foldl
        (fun t kind => t.insert kind (.generic (.ofKind kind))) {} }
  sheets := {}

/-- A host with what is built in. -/
def standardHost : Applier Empty := recordingHost Capabilities.builtin.setters

/-- A button under the name of a field. -/
def buttonField : Element := ⟨.button, some "a", {}, [], [], [], none, "a"⟩

/-- The component whose label has become a button. -/
def buttoned : Definition := ⟨"A", false, false, [], [], [buttonField]⟩

/-- The component when its label has been applied to it. -/
def recordedOnce (a : Applier Empty) : ViewTree Empty × Binding :=
  applyEach (({} : ViewTree Empty).insert { element := .generic (.wrapper "A") }).2
    (.adopting ⟨0⟩ "A") [(a, labelled)]

/-- The definitions that the standard host knows were parsed. -/
lemma knowsParsed_standardHost : standardHost.KnowsParsed := fun _ _ hn => nomatch hn

/-- The document with a button was parsed. -/
lemma isParsed_buttoned : buttoned.IsParsed := by
  have read : Definition.ofText "<Component type=\"A\"><Button field=\"a\"/></Component>" =
      .ok buttoned := by
    rw [Definition.ofText_ofList]
    cbv
  exact (Definition.isParsed_of_ofText read).1

/-- The label of an earlier document stands for the button. -/
lemma apply_buttoned : ∃ report t' b' n,
    standardHost.apply (recordedOnce standardHost).1 (recordedOnce standardHost).2 buttoned =
      (.ok report, t', b') ∧ report.named.get? "a" = some ⟨1⟩ ∧ t'.get? ⟨1⟩ = some n ∧
    n.element = .generic (.ofKind .label) := by
  -- the setters do not come into it
  have named : ∀ setters, ((recordingHost setters).apply (recordedOnce (recordingHost setters)).1
      (recordedOnce (recordingHost setters)).2 buttoned).1.toOption.map (·.named.get? "a") =
        some (some ⟨1⟩) := fun setters => by cbv
  have kept : ∀ setters, (((recordingHost setters).apply (recordedOnce (recordingHost setters)).1
      (recordedOnce (recordingHost setters)).2 buttoned).2.1.get? ⟨1⟩).map (·.element) =
        some (.generic (.ofKind .label)) := fun setters => by cbv
  obtain ⟨report, hreport, hnamed⟩ := Option.map_eq_some_iff.1 (named Capabilities.builtin.setters)
  obtain ⟨n, hn, helement⟩ := Option.map_eq_some_iff.1 (kept Capabilities.builtin.setters)
  exact ⟨report, _, _, n, Prod.ext (Except.toOption_eq_some.1 hreport) rfl, hnamed, hn, helement⟩

/-- **A node need not be an instance of its own element**: where the tag of a field was a label before
and is a button now, the application succeeds and the node still is a label. -/
theorem not_isInstance_buttonField :
    standardHost.capabilities = .builtin ∧ standardHost.KnowsParsed ∧ labelled.IsParsed ∧
      buttoned.IsParsed ∧ ∃ report t' b' n,
        standardHost.apply (recordedOnce standardHost).1 (recordedOnce standardHost).2 buttoned =
          (.ok report, t', b') ∧
        report.named.get? "a" = some ⟨1⟩ ∧ t'.get? ⟨1⟩ = some n ∧
        ¬ n.element.IsInstance buttonField := by
  obtain ⟨report, t', b', n, happly, hnamed, hn, helement⟩ := apply_buttoned
  refine ⟨rfl, knowsParsed_standardHost, isParsed_labelled, isParsed_buttoned, report, t', b', n,
    happly, hnamed, hn, ?_⟩
  rintro ⟨g, hg, -, hkind⟩
  cases helement.symm.trans hg
  cases hkind

/-- What the node of the button is an instance of is the label by which its field got it. -/
theorem instances_buttoned : ∃ report t' b' views,
    standardHost.apply (recordedOnce standardHost).1 (recordedOnce standardHost).2 buttoned =
      (.ok report, t', b') ∧
    report.named.entries = views.map (fun v => (v.element.name, v.node)) ∧
    standardHost.Instances t'
      (Origin (({} : ViewTree Empty).insert { element := .generic (.wrapper "A") }).2
        (.adopting ⟨0⟩ "A") [(standardHost, labelled)]) ["A"] buttoned ⟨0⟩ views := by
  obtain ⟨report, t', b', n, happly, -⟩ := apply_buttoned
  have steps : ∀ step ∈ [(standardHost, labelled)], step.1.KnowsParsed ∧ step.2.IsParsed ∧
      step.1.capabilities = .builtin := by
    rw [List.forall_mem_singleton]
    exact ⟨knowsParsed_standardHost, isParsed_labelled, rfl⟩
  obtain ⟨views, hv⟩ := instances_after_history "A" (ViewTree.Forest.empty.insert _) rfl
    [(standardHost, labelled)] steps knowsParsed_standardHost rfl isParsed_buttoned rfl happly
  exact ⟨report, t', b', views, happly, hv⟩

end Applier

end ViewMarkup
