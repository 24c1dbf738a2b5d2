import ViewMarkup.Proofs.View.Library
import ViewMarkup.Proofs.View.Mirror
import ViewMarkup.Proofs.View.Resetting

/-!
# A second application goes as the first one

Two applications of a definition, from two states, are followed side by side. If the first one
succeeds the second one does too, with the same warnings and the same definitions applied, provided
that wherever the first one finds a visual element the second one finds one of its sort. The nodes
that they give to the elements have nothing to do with each other.

Success, warnings and applied definitions are the business here; what the two leave in their trees
follows for each of them alone from what every application leaves (`Applier.application_meets`).

## Main definitions

* `Live.Echoes` — a second step succeeds if a first one does.
* `Run.Alike` — two runs have the same warnings, the same definitions and the same elements placed.
* `Applier.Revisits` — a scene offers an element of the same sort wherever another one offers one.
* `Applier.SortsAlike` — the nodes that a definition is applied to hold elements of the same sort.

## Main statements

* `Applier.placeOne_echoes` — placing an element for the second time.
* `Applier.applyScope_echoes` — applying a definition for the second time.
-/

namespace ViewMarkup

open Element

variable {H : Type}

/-! ### Two runs side by side -/

/-- If a first step succeeds, so does a second one from another state, and their results are
related. -/
def Live.Echoes {α : Type} (s : Run H) (x : Live H α) (r : Run H) (y : Live H α)
    (rel : α → Run H → α → Run H → Prop) : Prop :=
  ∀ v s', x s = .ok v s' → ∃ w r', y r = .ok w r' ∧ rel v s' w r'

namespace Live

variable {α β : Type} {s r : Run H} {x y : Live H α} {rel : α → Run H → α → Run H → Prop}

/-- A step that succeeds meets what is said of success. -/
lemma Meets.of_ok {ok : α → Run H → Prop} {fail : Run H → Prop} (h : Meets s x ok fail) {v : α}
    {s' : Run H} (hx : x s = .ok v s') : ok v s' := by
  unfold Meets at h
  rw [hx] at h
  exact h

/-- One step after the other succeeds if both do. -/
lemma bind_eq_ok {f : α → Live H β} {w : β} {s'' : Run H} :
    (x >>= f) s = .ok w s'' ↔ ∃ v s', x s = .ok v s' ∧ f v s' = .ok w s'' := by
  simp only [Bind.bind, EStateM.bind]
  cases hx : x s with
  | ok v s' =>
    refine ⟨fun h => ⟨v, s', rfl, h⟩, ?_⟩
    rintro ⟨_, _, ⟨⟩, h⟩
    exact h
  | error e s' => exact ⟨fun h => (nomatch h), fun ⟨_, _, h, _⟩ => (nomatch h)⟩

/-- One step after the other. -/
lemma Echoes.bind {f g : α → Live H β} {rel' : β → Run H → β → Run H → Prop}
    (h : Echoes s x r y rel)
    (h' : ∀ v s' w r', x s = .ok v s' → y r = .ok w r' → rel v s' w r' →
      Echoes s' (f v) r' (g w) rel') : Echoes s (x >>= f) r (y >>= g) rel' := by
  intro u s'' hu
  obtain ⟨v, s', hx, hf⟩ := bind_eq_ok.1 hu
  obtain ⟨w, r', hy, hrel⟩ := h v s' hx
  obtain ⟨u', r'', hg, hrel'⟩ := h' v s' w r' hx hy hrel u s'' hf
  exact ⟨u', r'', bind_eq_ok.2 ⟨w, r', hy, hg⟩, hrel'⟩

end Live

/-- Two runs have the same warnings, have applied the same definitions and have placed the same
elements. -/
structure Run.Alike (s r : Run H) : Prop where
  warnings_eq : r.warnings = s.warnings
  definitions_eq : r.definitions = s.definitions
  elements_eq : r.placed.map (·.element) = s.placed.map (·.element)

namespace Applier

variable {a : Applier H} {σ τ : Scene H} {parent parent' : NodeId} {arranged : Bool} {e : Element}
  {es : List Element} {s r s₁ r₁ s' r' : Run H} {d : Definition}

/-- A scene offers a visual element of the same sort wherever another one offers one. -/
def Revisits (a : Applier H) (σ τ : Scene H) (es : List Element) : Prop :=
  ∀ e ∈ walkAll es, ∀ v, a.Starts σ e v → ∃ w, a.Starts τ e w ∧ v.SameSort w

/-- What is said of revisiting elements holds of fewer. -/
lemma Revisits.mono {es' : List Element} (h : a.Revisits σ τ es)
    (hes : walkAll es' ⊆ walkAll es) : a.Revisits σ τ es' :=
  fun e he => h e (hes he)

/-! ### Placing an element -/

/-- A view that could be created is put in as a new node. -/
lemma insertNew_of_create {v : VisualElement H} (h : a.create e = .ok v) (s : Run H) :
    a.insertNew e s = .ok (s.tree.insert { element := v }).1
      { s with tree := (s.tree.insert { element := v }).2 } := by
  rw [insertNew, h]

/-- An element that has a visual element to begin with gets its node. -/
lemma nodeFor_of_starts {root : ScopeRoot} (hroot : root.adopts = true)
    (R : Ready σ parent [e] s) {v : VisualElement H} (h : a.Starts σ e v) :
    ∃ id s₁, a.nodeFor root e s = .ok id s₁ ∧ a.Supplies e s id v s₁ := by
  unfold Starts at h
  cases hf : e.field with
  | none =>
    rw [hf, Option.bind_none] at h
    have new := Supplies.new (s := s) (e := e) (fun f h => by rw [hf] at h; cases h) h
    refine ⟨_, _, ?_, new⟩
    simp only [nodeFor, hf, insertNew_of_create h]
  | some f =>
    have hm : f ∈ fieldsOf [e] := by
      rw [fieldsOf_singleton, hf]
      exact List.mem_cons_self
    rw [hf, Option.bind_some, R.old_eq f hm] at h
    cases hg : s.fields.get? f with
    | some id =>
      obtain ⟨n, hn⟩ := (R.isLoose f hm id hg).1
      rw [hg, Option.bind_some, ViewTree.get?_of_slot? hn] at h
      cases h
      refine ⟨id, s, ?_, .kept hf hg hn⟩
      have hc : s.tree.contains id = true := ViewTree.contains_iff.2 ⟨_, hn⟩
      simp only [nodeFor, hf]
      refine Live.bind_eq_ok.2 ⟨s, s, rfl, ?_⟩
      rw [hg, Option.filter_some, if_pos hc]
      rfl
    | none =>
      rw [hg, Option.bind_none] at h
      have new := Supplies.new (s := s) (e := e) (fun f' h' => by
        rw [hf] at h'
        cases h'
        exact hg) h
      refine ⟨_, _, ?_, new⟩
      simp only [nodeFor, hf]
      refine Live.bind_eq_ok.2 ⟨s, s, rfl, ?_⟩
      rw [hg, Option.filter_none, hroot, if_pos rfl]
      exact Live.bind_eq_ok.2 ⟨_, _, insertNew_of_create h s, rfl⟩

section Widget

variable [Widget H]

/-- Once an element has its node it is placed, and the warnings are those about its properties. -/
lemma placeOne_of_supplies {root : ScopeRoot} {id : NodeId} {v : VisualElement H}
    (h : a.nodeFor root e s = .ok id s₁) (hs : a.Supplies e s id v s₁) (d : Definition)
    (parent : NodeId) (parentKind : Kind) :
    ∃ s', a.placeOne root d parent parentKind e s = .ok id s' ∧
      s'.warnings = s.warnings ++ a.noted e.kind d.typeName e.name (a.sheets.resolve d e) v ∧
      s'.definitions = s.definitions := by
  obtain ⟨n, hn, hslot⟩ := hs.slot?_eq
  have hget : (s₁.tree.modify id (prepare e)).get? id = some (prepare e n) := by
    rw [ViewTree.get?, ViewTree.slot?_modify, if_pos rfl, hslot]
    rfl
  have hassign := a.assign_of_get? (s := { s₁ with tree := s₁.tree.modify id (prepare e) }) hget
    e.kind d.typeName e.name (a.sheets.resolve d e)
  have hsame : s₁.warnings = s.warnings ∧ s₁.definitions = s.definitions := by
    cases hs <;> exact ⟨rfl, rfl⟩
  refine ⟨_, Live.bind_eq_ok.2 ⟨id, s₁, h, Live.bind_eq_ok.2 ⟨(), _, rfl,
    Live.bind_eq_ok.2 ⟨(), _, hassign, Live.bind_eq_ok.2 ⟨(), _, rfl, rfl⟩⟩⟩⟩, ?_, hsame.2⟩
  change s₁.warnings ++ a.noted e.kind d.typeName e.name (a.sheets.resolve d e) n.element = _
  rw [hsame.1, hn]

/-- An element that could be placed got a node. -/
lemma exists_nodeFor_of_placeOne {root : ScopeRoot} {parentKind : Kind} {id : NodeId}
    (h : a.placeOne root d parent parentKind e s = .ok id s') :
    ∃ s₁, a.nodeFor root e s = .ok id s₁ := by
  obtain ⟨id', s₁, hnode, h⟩ := Live.bind_eq_ok.1 h
  obtain ⟨_, s₂, _, h⟩ := Live.bind_eq_ok.1 h
  obtain ⟨_, s₃, _, h⟩ := Live.bind_eq_ok.1 h
  obtain ⟨_, s₄, _, h⟩ := Live.bind_eq_ok.1 h
  cases h
  exact ⟨s₁, hnode⟩

/-- **Placing an element for the second time** goes as for the first time. The visual elements that
the two nodes begin with are of one sort. -/
theorem placeOne_echoes (ha : a.capabilities = .builtin) {root root' : ScopeRoot}
    (hroot' : root'.adopts = true) (R : Ready σ parent [e] s) (R' : Ready τ parent' [e] r)
    (hσ : σ.definition = d) (hτ : τ.definition = d) (hrev : a.Revisits σ τ [e])
    (hA : s.Alike r) (parentKind : Kind) :
    Live.Echoes s (a.placeOne root d parent parentKind e) r
      (a.placeOne root' d parent' parentKind e) fun id s₁ id' r₁ =>
        s₁.Alike r₁ ∧ ∃ v w, v.SameSort w ∧
          a.Places d parent parentKind.arrangesChildren e s id v s₁ ∧
          a.Places d parent' parentKind.arrangesChildren e r id' w r₁ := by
  subst hσ
  have loose : ∀ {ρ : Scene H} {top : NodeId} {t : Run H}, Ready ρ top [e] t → ∀ f id,
      e.field = some f → t.fields.get? f = some id → t.tree.IsLoose id ∧ id ≠ top :=
    fun R f id he hg => R.isLoose f (by rw [fieldsOf_singleton, he]; exact List.mem_cons_self) id hg
  intro id s₁ hs
  obtain ⟨v, P⟩ :=
    (a.placeOne_meets root σ.definition parentKind R.forest R.contains (loose R)).of_ok hs
  obtain ⟨s₀, hnode⟩ := exists_nodeFor_of_placeOne hs
  obtain ⟨v₀, hsup⟩ :=
    (a.nodeFor_meets root e s fun f id he hg => (loose R f id he hg).1).of_ok hnode
  have hv := Lays.starts R P
  obtain rfl := hv.unique (starts_of_source R hsup.source)
  obtain ⟨w, hw, hvw⟩ := hrev e (by rw [walkAll_cons]; exact List.mem_cons_self) v₀ hv
  obtain ⟨id', r₀, hnode', hsup'⟩ := nodeFor_of_starts hroot' R' hw
  obtain ⟨s₂, hs₂, hwarn, hdefs⟩ := placeOne_of_supplies hnode hsup σ.definition parent parentKind
  obtain ⟨r₁, hr, hwarn', hdefs'⟩ :=
    placeOne_of_supplies hnode' hsup' σ.definition parent' parentKind
  cases hs.symm.trans hs₂
  obtain ⟨w', P'⟩ :=
    (a.placeOne_meets root' σ.definition parentKind R'.forest R'.contains (loose R')).of_ok hr
  obtain rfl := hw.unique (starts_of_source R' P'.source)
  refine ⟨id', r₁, hr, ⟨?_, ?_, ?_⟩, v₀, w', hvw, P, P'⟩
  · rw [hwarn, hwarn', hA.warnings_eq, noted_congr ha hvw]
  · rw [hdefs, hdefs', hA.definitions_eq]
  · rw [P.placed_eq, P'.placed_eq, List.map_append, List.map_append, hA.elements_eq]
    rfl

/-! ### Around the elements of a scope -/

/-- The node that a definition is applied to for the second time has a visual element of the same
sort as the one of the first time. -/
def SortsAlike (id id' : NodeId) (s r : Run H) : Prop :=
  ∀ n, s.tree.get? id = some n → ∃ n', r.tree.get? id' = some n' ∧ n.element.SameSort n'.element

/-- A scope begins at a living node, and the warnings are those about the properties of its root. -/
lemma exists_beginScope (root : ScopeRoot) {n : ViewNode H} (F : s.tree.Forest)
    (hn : s.tree.get? root.node = some n) (d : Definition) :
    ∃ s₁, a.beginScope root d s = .ok () s₁ ∧ s₁.placed = s.placed ∧
      s₁.warnings = s.warnings ++
        a.noted .container d.typeName "self" (a.sheets.resolveRoot d) n.element ∧
      s₁.definitions = s.definitions ++ [d.typeName] := by
  obtain ⟨slot, hslot, rfl⟩ := Option.map_eq_some_iff.1 hn
  have hroot : root.node ∉ s.tree.descendants root.node := fun hm =>
    F.acyclic _ (F.mem_descendants_iff.1 hm)
  have hget : (clear s.tree root.node s.fields.values).get? root.node = some slot.node := by
    rw [ViewTree.get?, slot?_clear _ _ F, if_neg hroot, if_pos rfl, hslot]
    rfl
  have hassign := a.assign_of_get?
    (s := { s with
      tree := clear s.tree root.node s.fields.values
      definitions := s.definitions ++ [d.typeName] })
    hget .container d.typeName "self" (a.sheets.resolveRoot d)
  have hbegin : a.beginScope root d s = a.assign root.node .container d.typeName "self"
      (a.sheets.resolveRoot d)
      { s with
        tree := clear s.tree root.node s.fields.values
        definitions := s.definitions ++ [d.typeName] } := by
    have hc : s.tree.contains root.node = true := ViewTree.contains_iff.2 ⟨slot, hslot⟩
    change (if s.tree.contains root.node = true then _ else _ : Live H Unit) s = _
    rw [if_pos hc]
    rfl
  exact ⟨_, hbegin.trans hassign, rfl, rfl, rfl⟩

/-- The beginning of a scope echoes, since the fields that it keeps are the same. -/
lemma beginScope_echoes (ha : a.capabilities = .builtin) {root root' : ScopeRoot}
    (h : Holds root.node s.tree s.fields) (h' : Holds root'.node r.tree r.fields)
    (hsort : SortsAlike root.node root'.node s r) (hA : s.Alike r) :
    Live.Echoes s (a.beginScope root d) r (a.beginScope root' d) (fun _ s₁ _ r₁ =>
      s₁.Alike r₁ ∧ a.Begins d root.node s s₁ ∧ a.Begins d root'.node r r₁) := by
  obtain ⟨slot, hslot⟩ := ViewTree.contains_iff.1 h.contains
  obtain ⟨n', hn', hsame⟩ := hsort _ (ViewTree.get?_of_slot? hslot)
  obtain ⟨s₂, hs₂, hplaced, hwarn, hdefs⟩ :=
    a.exists_beginScope root h.forest (ViewTree.get?_of_slot? hslot) d
  obtain ⟨r₁, hr, hplaced', hwarn', hdefs'⟩ :=
    a.exists_beginScope root' h'.forest hn' d
  intro _ s₁ hs
  cases hs.symm.trans hs₂
  refine ⟨(), r₁, hr, ⟨?_, ?_, ?_⟩, (a.beginScope_meets d h).of_ok hs,
    (a.beginScope_meets d h').of_ok hr⟩
  · rw [hwarn, hwarn', hA.warnings_eq, noted_congr ha hsame]
  · rw [hdefs, hdefs', hA.definitions_eq]
  · rw [hplaced, hplaced', hA.elements_eq]

omit [Widget H] in
/-- Whether all targets are found depends on the elements alone. -/
lemma constrain_echoes (hA : s.Alike r) (typeName : String) :
    Live.Echoes s (constrain typeName) r (constrain typeName)
      (fun _ s' _ r' => s'.Alike r') := by
  intro _ s' hs
  unfold constrain at hs ⊢
  cases hx : allConstraints typeName s.placed with
  | error e =>
    rw [hx] at hs
    cases hs
  | ok rebuilt =>
    rw [hx] at hs
    cases hs
    cases hy : allConstraints typeName r.placed with
    | ok rebuilt' => exact ⟨_, _, rfl, hA.warnings_eq, hA.definitions_eq, hA.elements_eq⟩
    | error e =>
      obtain ⟨p, hp, c, hc, hf⟩ := exists_of_allConstraints hy
      obtain ⟨q, hq, he⟩ := List.mem_map.1 (hA.elements_eq ▸ List.mem_map_of_mem hp)
      obtain ⟨cs, hcs, -⟩ := (allConstraints_spec hx).2 q hq
      rw [hA.elements_eq] at hf
      exact absurd (isFound_of_liveConstraints hcs c (by rw [he]; exact hc)) hf

omit [Widget H] in
/-- A scope of its own does not disturb what the scopes around it have in common. -/
lemma inNewScope_echoes {x y : Live H Unit} (hA : s.Alike r)
    (h : Live.Echoes { s with fields := {}, placed := [] } x { r with fields := {}, placed := [] } y
      fun _ s' _ r' => s'.Alike r') :
    Live.Echoes s (inNewScope x) r (inNewScope y) fun _ s' _ r' => s'.Alike r' := by
  intro _ s' hs
  unfold inNewScope at hs ⊢
  cases hx : x { s with fields := {}, placed := [] } with
  | error e s₁ =>
    rw [hx] at hs
    cases hs
  | ok v s₁ =>
    rw [hx] at hs
    cases hs
    obtain ⟨w, r₁, hy, hA₁⟩ := h _ s₁ hx
    rw [hy]
    exact ⟨_, _, rfl, hA₁.warnings_eq, hA₁.definitions_eq, hA.elements_eq⟩

omit [Widget H] in
/-- Nothing echoes nothing. -/
lemma pure_echoes (hA : s.Alike r) :
    Live.Echoes s (pure () : Live H Unit) r (pure ()) fun _ s' _ r' => s'.Alike r' := by
  intro _ _ hx
  cases hx
  exact ⟨_, _, rfl, hA⟩

omit [Widget H] in
/-- A warning echoes a warning. -/
lemma warn_echoes (hA : s.Alike r) (w : ApplyWarning) :
    Live.Echoes s (warn w) r (warn w) fun _ s' _ r' => s'.Alike r' := by
  intro _ _ hx
  cases hx
  exact ⟨_, _, rfl, congrArg (· ++ [w]) hA.warnings_eq, hA.definitions_eq, hA.elements_eq⟩

/-! ### The induction over the application -/

section Induction

variable (a)

/-- What is to be shown of applying a definition for the second time. -/
def ScopeEchoes (active : List String) (root : ScopeRoot) (d : Definition) : Prop :=
  ∀ (root' : ScopeRoot) (s r : Run H), root'.adopts = true → AreSound d.children →
    Holds root.node s.tree s.fields → Holds root'.node r.tree r.fields →
    SortsAlike root.node root'.node s r →
    a.Revisits (.untied active d s) (.untied active d r) d.children → s.Alike r →
    Live.Echoes s (a.applyScope active root d) r (a.applyScope active root' d)
      fun _ s' _ r' => s'.Alike r'

/-- What is to be shown of placing elements for the second time. The states in which the two scopes
begin are given. -/
def AllEcho (active : List String) (root : ScopeRoot) (d : Definition) (parent : NodeId)
    (parentKind : Kind) (es : List Element) : Prop :=
  ∀ (s₀ r₀ : Run H) (root' : ScopeRoot) (parent' : NodeId) (s r : Run H), root'.adopts = true →
    AreSound es → walkAll es ⊆ d.elements → Ready (.untied active d s₀) parent es s →
    Ready (.untied active d r₀) parent' es r →
    a.Revisits (.untied active d s₀) (.untied active d r₀) es → s.Alike r →
    Live.Echoes s (a.placeAll active root d parent parentKind es) r
      (a.placeAll active root' d parent' parentKind es) fun _ s' _ r' => s'.Alike r'

/-- What is to be shown of placing an element for the second time. -/
def OneEchoes (active : List String) (root : ScopeRoot) (d : Definition) (parent : NodeId)
    (parentKind : Kind) (e : Element) : Prop :=
  ∀ (s₀ r₀ : Run H) (root' : ScopeRoot) (parent' : NodeId) (s r : Run H), root'.adopts = true →
    AreSound [e] → walkAll [e] ⊆ d.elements → Ready (.untied active d s₀) parent [e] s →
    Ready (.untied active d r₀) parent' [e] r →
    a.Revisits (.untied active d s₀) (.untied active d r₀) [e] → s.Alike r →
    Live.Echoes s (a.place active root d parent parentKind e) r
      (a.place active root' d parent' parentKind e) fun _ s' _ r' => s'.Alike r'

/-- What is to be shown of applying the definition of a component for the second time. -/
def ReferenceEchoes (active : List String) (typeName element : String) (id : NodeId)
    (ref : Option TypeReference) : Prop :=
  ∀ (id' : NodeId) (s r : Run H), (∀ d, ref = some (.inline d) → AreSound d.children) →
    Holds id s.tree {} → Holds id' r.tree {} → SortsAlike id id' s r → s.Alike r →
    Live.Echoes s (a.applyReference active typeName element id ref) r
      (a.applyReference active typeName element id' ref) fun _ s' _ r' => s'.Alike r'

variable {a}

/-- A scope echoes if its elements do. -/
lemma scopeEchoes (ha : a.capabilities = .builtin) {active : List String} {root : ScopeRoot}
    (h : a.AllEcho active root d root.node .container d.children) :
    a.ScopeEchoes active root d := by
  intro root' s r hadopts S hs hr hsort hrev hA
  rw [applyScope, applyScope]
  refine (beginScope_echoes ha hs hr hsort hA).bind ?_
  rintro _ s₁ _ r₁ - - ⟨hA₁, B, B'⟩
  exact (h s r root' root'.node s₁ r₁ hadopts S (List.Subset.refl _) (B.ready hs) (B'.ready hr) hrev
    hA₁).bind fun _ _ _ _ _ _ hA₂ => constrain_echoes hA₂ d.typeName

/-- Elements echo if the first one does, and the others. -/
lemma allEcho_cons (hlib : ∀ name d, a.library.get? name = some d → AreSound d.children)
    {active : List String} {root : ScopeRoot} {parentKind : Kind}
    (h : a.OneEchoes active root d parent parentKind e)
    (h' : a.AllEcho active root d parent parentKind es) :
    a.AllEcho active root d parent parentKind (e :: es) := by
  intro s₀ r₀ root' parent' s r hadopts S hes R R' hrev hA
  have hhead := walkAll_singleton_subset e es
  have htail := walkAll_subset_cons e es
  have hes' := List.Subset.trans hhead hes
  have meets := (a.application_meets hlib).2.2.1
  rw [placeAll, placeAll]
  refine (h s₀ r₀ root' parent' s r hadopts S.head hes' R.head R'.head (hrev.mono hhead) hA).bind
    fun _ s₁ _ r₁ hs hr hA₁ => ?_
  obtain ⟨_, _, _, L⟩ := (meets active root d parent parentKind e _ s rfl rfl (fun _ => rfl) S.head
    hes' R.head).of_ok hs
  obtain ⟨_, _, _, L'⟩ := (meets active root' d parent' parentKind e _ r rfl rfl (fun _ => rfl)
    S.head hes' R'.head).of_ok hr
  exact h' s₀ r₀ root' parent' s₁ r₁ hadopts S.tail (List.Subset.trans htail hes) (R.tail S L.grows)
    (R'.tail S L'.grows) (hrev.mono htail) hA₁

/-- The step of the induction: an element echoes if its reference does, and the elements inside it. -/
lemma oneEchoes (ha : a.capabilities = .builtin) {active : List String} {root : ScopeRoot}
    {parentKind : Kind}
    (href : ∀ id, a.ReferenceEchoes active d.typeName e.name id e.reference)
    (hc : ∀ id, a.AllEcho active root d id e.kind e.children) :
    a.OneEchoes active root d parent parentKind e := by
  intro s₀ r₀ root' parent' s r hadopts S hes R R' hrev hA
  have hchildren := walkAll_children_subset e []
  rw [place, place]
  refine (placeOne_echoes ha hadopts R R' rfl rfl hrev hA parentKind).bind ?_
  rintro id s₁ id' r₁ - - ⟨hA₁, v, w, hvw, P, P'⟩
  have reference : Live.Echoes s₁ (a.applyReference active d.typeName e.name id e.reference) r₁
      (a.applyReference active d.typeName e.name id' e.reference) fun _ s' _ r' => s'.Alike r' := by
    have hid := P.slot?_id
    have hid' := P'.slot?_id
    refine href id id' s₁ r₁ (fun d' hd' => Definition.areSound_inline S hd')
      (.start P.forest (ViewTree.contains_iff.2 ⟨_, hid⟩))
      (.start P'.forest (ViewTree.contains_iff.2 ⟨_, hid'⟩)) (fun n hn => ?_) hA₁
    cases (ViewTree.get?_of_slot? hid).symm.trans hn
    have same := hvw.setAll e.kind (a.sheets.resolve d e).properties
    rw [← ha] at same
    exact ⟨_, ViewTree.get?_of_slot? hid', same⟩
  simp only
  by_cases hk : e.kind.acceptsChildren = true
  · have hcomp : e.kind ≠ .component := by
      intro h
      rw [h] at hk
      cases hk
    rw [if_pos hk, if_pos hk, if_neg hcomp, if_neg hcomp]
    refine (hc id s₀ r₀ root' id' s₁ r₁ hadopts S.children (List.Subset.trans hchildren hes)
      (R.inside S P) (R'.inside S P') (hrev.mono hchildren) hA₁).bind fun _ _ _ _ _ _ hA₂ => ?_
    exact pure_echoes hA₂
  · rw [if_neg hk, if_neg hk]
    by_cases hcomp : e.kind = .component
    · rw [if_pos hcomp, if_pos hcomp]
      exact reference
    · rw [if_neg hcomp, if_neg hcomp]
      exact pure_echoes hA₁

/-- A scope of its own begins without fields, so that it finds no element that was there. -/
lemma entered_echoes {active : List String} {id id' : NodeId} {nested : Definition}
    (S : AreSound nested.children)
    (h : a.ScopeEchoes (nested.typeName :: active) ⟨id, nested.typeName, true⟩ nested)
    (hs : Holds id s.tree {}) (hr : Holds id' r.tree {}) (hsort : SortsAlike id id' s r)
    (hA : s.Alike r) :
    Live.Echoes s
      (inNewScope do
        let _ ← a.applyScope (nested.typeName :: active) ⟨id, nested.typeName, true⟩ nested)
      r
      (inNewScope do
        let _ ← a.applyScope (nested.typeName :: active) ⟨id', nested.typeName, true⟩ nested)
      fun _ s' _ r' => s'.Alike r' := by
  refine inNewScope_echoes hA ?_
  refine (h ⟨id', nested.typeName, true⟩ { s with fields := {}, placed := [] }
    { r with fields := {}, placed := [] } rfl S hs hr hsort (fun _ _ v hv => ⟨v, hv, .refl v⟩)
    ⟨hA.warnings_eq, hA.definitions_eq, rfl⟩).bind fun _ _ _ _ _ _ hA₁ => ?_
  exact pure_echoes hA₁

variable (a)

/-- **Applying a definition for the second time** succeeds if it did the first time, with the same
warnings and the same definitions applied, wherever the two find visual elements of the same sort.

**Proof sketch.** Induction over the application, with one case for each of its functions; the two
runs are in the same case, since the elements are the same. What each run has done to its own tree
is known from what every application does (`application_meets`), so that only what the two have in
common is carried along. -/
theorem applyScope_echoes (ha : a.capabilities = .builtin)
    (hlib : ∀ name d, a.library.get? name = some d → AreSound d.children) (active : List String)
    (root : ScopeRoot) (d : Definition) : a.ScopeEchoes active root d := by
  refine (applyScope.mutual_induct a a.ScopeEchoes a.AllEcho a.OneEchoes a.ReferenceEchoes
    ?scope ?nil ?cons ?one ?none ?inlineActive ?inline ?unknown ?namedActive ?named).1 active root d
  case scope => exact fun _ _ _ h => scopeEchoes ha h
  case nil =>
    intro active root d parent parentKind s₀ r₀ root' parent' s r _ _ _ _ _ _ hA
    rw [placeAll, placeAll]
    exact pure_echoes hA
  case cons => exact fun _ _ _ _ _ _ _ h h' => allEcho_cons hlib h h'
  case one => exact fun _ _ _ _ _ _ hr hc => oneEchoes ha hr hc
  case none =>
    intro active typeName element id id' s r _ _ _ _ hA
    rw [applyReference, applyReference]
    exact pure_echoes hA
  case inlineActive =>
    intro active typeName element id nested hn id' s r _ _ _ _ hA
    rw [applyReference, applyReference, if_pos hn, if_pos hn]
    exact warn_echoes hA _
  case inline =>
    intro active typeName element id nested hn h id' s r S hs hr hsort hA
    rw [applyReference, applyReference, if_neg hn, if_neg hn]
    exact entered_echoes (S nested rfl) h hs hr hsort hA
  case unknown =>
    intro active typeName element id name hname id' s r _ _ _ _ hA
    rw [applyReference_named, applyReference_named, hname]
    exact pure_echoes hA
  case namedActive =>
    intro active typeName element id name nested hname hn id' s r _ _ _ _ hA
    rw [applyReference_named, applyReference_named, hname]
    simp only [if_pos hn]
    exact warn_echoes hA _
  case named =>
    intro active typeName element id name nested hname hn h id' s r _ hs hr hsort hA
    rw [applyReference_named, applyReference_named, hname]
    simp only [if_neg hn]
    exact entered_echoes (hlib name nested hname) h hs hr hsort hA

end Induction

end Widget

end Applier

end ViewMarkup
