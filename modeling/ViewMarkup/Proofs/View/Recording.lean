import ViewMarkup.Proofs.Document.Declaring
import ViewMarkup.Proofs.View.Invariants
import ViewMarkup.Proofs.View.Reserve
import ViewMarkup.Proofs.View.Resetting

/-!
# Applications to nodes that record

With what is built in, every node that an application makes is one that records its properties, and
such a node takes every property of the catalogue. The cascade gives no others. So there is no
warning about a property, as long as the nodes that were there before record, too: the node of the
component, and those that its fields hold. A widget of the host takes no property that is built in.

Nothing is asked of the tree, not even that its links fit together, and nothing of where the nodes
of the fields are.

## Main definitions

* `ViewTree.Records` — a node, if it is alive, records its properties.
* `Applier.Recording` — a run of an application that has warned of no property.

## Main statements

* `Applier.invariant_recording` — every step warns of no property.
* `Applier.property_eq_none_of_apply` — neither does an application.
-/

namespace ViewMarkup

variable {H : Type} {t t' t₀ : ViewTree H}

/-! ### Nodes that record -/

namespace ViewTree

/-- A node, if it is alive, records its properties. -/
def Records (t : ViewTree H) (id : NodeId) : Prop :=
  ∀ n, t.get? id = some n → ∃ g, n.element = .generic g

namespace Records

variable {id : NodeId}

/-- A node that is as it was, or gone. -/
lemma mono (h : t.Records id) (hs : ∀ n, t'.get? id = some n → t.get? id = some n) :
    t'.Records id := fun n hn => h n (hs n hn)

/-- What records its properties does so when views are changed that stay generic. -/
lemma modify (h : t.Records id) {id' : NodeId} {f : ViewNode H → ViewNode H}
    (hf : ∀ n g, n.element = .generic g → ∃ g', (f n).element = .generic g') :
    (t.modify id' f).Records id := by
  intro n hn
  rw [get?_modify] at hn
  split at hn
  · obtain ⟨n', hn', rfl⟩ := Option.map_eq_some_iff.1 hn
    obtain ⟨g, hg⟩ := h n' hn'
    exact hf n' g hg
  · exact h n hn

/-- It does so when a generic view is put in. -/
lemma insert (h : t.Records id) (g : GenericElement) :
    (t.insert { element := .generic g }).2.Records id := by
  intro n hn
  rw [get?, slot?_insert] at hn
  split at hn
  · cases hn
    exact ⟨g, rfl⟩
  · exact h n hn

end Records

/-- Removing a node leaves the views of the others. -/
lemma get?_of_get?_remove {id x : NodeId} {n : ViewNode H}
    (h : (t.remove id).2.get? x = some n) : t.get? x = some n := by
  unfold remove at h
  split at h
  · obtain ⟨s, hs, rfl⟩ := Option.map_eq_some_iff.1 h
    rw [← get?_detach t id x]
    exact get?_of_slot? (slot?_of_slot?_removeQueue hs)
  · exact h

end ViewTree

/-- What is left below a node, and outside, is as it was. -/
lemma Applier.get?_of_get?_clear {root id : NodeId} {keep : List NodeId} {n : ViewNode H}
    (h : (clear t root keep).get? id = some n) : t.get? id = some n := by
  have detached : ∀ (ids : List NodeId) (t : ViewTree H),
      (ids.foldl ViewTree.detach t).get? id = t.get? id := fun ids => by
    induction ids with
    | nil => exact fun _ => rfl
    | cons x ids ih => exact fun t => (ih _).trans (ViewTree.get?_detach t x id)
  have removed : ∀ (ids : List NodeId) (t : ViewTree H),
      (ids.foldl (fun t id => (t.remove id).2) t).get? id = some n → t.get? id = some n :=
    fun ids => by
      induction ids with
      | nil => exact fun _ h => h
      | cons x ids ih => exact fun t h => ViewTree.get?_of_get?_remove (ih _ h)
  have := removed _ _ h
  rwa [detached] at this

/-! ### What is built in -/

namespace Capabilities

/-- What is made for a kind records. -/
lemma exists_generic_of_createPrimitive? {kind : Kind} {v : VisualElement H}
    (h : (builtin : Capabilities H).createPrimitive? kind = some v) : ∃ g, v = .generic g := by
  have hfactories : (builtin : Capabilities H).factories = {} := rfl
  have hbuiltins : (builtin : Capabilities H).builtins =
      (Kind.all.filter (· ≠ .component)).foldl
        (fun t kind => t.insert kind (.generic (.ofKind kind))) {} := rfl
  rw [createPrimitive?, create?, hfactories, Table.get?_empty, Option.none_or, hbuiltins] at h
  obtain ⟨kind', -, -, rfl⟩ | h := Table.exists_of_get?_foldl_insert h
  · exact ⟨_, rfl⟩
  · cases h

end Capabilities

namespace Applier

variable {a : Applier H} {kind : Kind} {ps : List Property}

/-- What is made for an element records. -/
lemma exists_generic_of_create (ha : a.capabilities = .builtin) {e : Element}
    {v : VisualElement H} (h : a.create e = .ok v) : ∃ g, v = .generic g := by
  unfold create at h
  split at h
  · next r _ _ =>
    have hnone : a.capabilities.create? r.typeName = none := by rw [ha]; rfl
    simp only [hnone] at h
    split at h
    · cases h
      exact ⟨_, rfl⟩
    · cases h
  · split at h
    · next created hc =>
      cases h
      rw [ha] at hc
      exact Capabilities.exists_generic_of_createPrimitive? hc
    · cases h

/-- A node that records takes all properties of the catalogue without a warning. -/
lemma foldl_setOne_generic [Widget H] (ha : a.capabilities = .builtin)
    (h : ∀ p ∈ ps, p.IsOf kind) (typeName element : String) (g : GenericElement)
    (warnings : List ApplyWarning) : ∃ g', ps.foldl (a.setOne kind typeName element)
      (.generic g, warnings) = (.generic g', warnings) := by
  induction ps generalizing g with
  | nil => exact ⟨g, rfl⟩
  | cons p ps ih =>
    rw [List.forall_mem_cons] at h
    rw [List.foldl_cons, setOne, ha, Capabilities.set_builtin h.1]
    exact ih h.2 _

/-- A widget of the host takes none, and there is a warning about each. -/
lemma foldl_setOne_host [Widget H] (ha : a.capabilities = .builtin) (typeName element : String)
    (ps : List Property) (w : H) (warnings : List ApplyWarning) :
    ps.foldl (a.setOne kind typeName element) (.host w, warnings) =
      (.host w, warnings ++ ps.map fun p =>
        ⟨typeName, element, some p.name, "unsupported on " ++ Widget.typeName w⟩) := by
  induction ps generalizing warnings with
  | nil => rw [List.foldl_nil, List.map_nil, List.append_nil]
  | cons p ps ih =>
    rw [List.foldl_cons, setOne, ha, Capabilities.set_builtin_host]
    refine (ih _).trans ?_
    rw [List.append_assoc]
    rfl

/-! ### The steps of an application -/

/-- **A run that has warned of no property so far.** Nodes that recorded still do, those that the
fields hold are among them, and a slot that was not there is taken by a node that records. -/
structure Recording (t₀ : ViewTree H) (s : Run H) : Prop where
  /-- No slot is taken back. -/
  size_le : t₀.slots.size ≤ s.tree.slots.size
  /-- Nodes that recorded still do. -/
  records : ∀ id, t₀.Records id → s.tree.Records id
  /-- The fields hold such nodes. -/
  fields : ∀ f id, s.fields.get? f = some id → t₀.Records id
  /-- No warning is about a property. -/
  warnings : ∀ w ∈ s.warnings, w.property = none

namespace Recording

variable {s : Run H}

/-- A change of the tree. -/
lemma withTree (R : Recording t₀ s) {t : ViewTree H} (hsize : s.tree.slots.size ≤ t.slots.size)
    (h : ∀ id, s.tree.Records id → t.Records id) : Recording t₀ { s with tree := t } where
  size_le := R.size_le.trans hsize
  records id hid := h id (R.records id hid)
  fields := R.fields
  warnings := R.warnings

/-- A change of a node that leaves it one that records. -/
lemma modify (R : Recording t₀ s) (id : NodeId) {f : ViewNode H → ViewNode H}
    (hf : ∀ n g, n.element = .generic g → ∃ g', (f n).element = .generic g') :
    Recording t₀ { s with tree := s.tree.modify id f } :=
  R.withTree (by simp [ViewTree.modify]) fun _ hx => hx.modify hf

/-- Warnings that are about no property. -/
lemma warn (R : Recording t₀ s) {ws : List ApplyWarning} (h : ∀ w ∈ ws, w.property = none) :
    Recording t₀ { s with warnings := s.warnings ++ ws } where
  size_le := R.size_le
  records := R.records
  fields := R.fields
  warnings := List.forall_mem_append.2 ⟨R.warnings, h⟩

/-- A new node has a slot that was not there. -/
lemma records_fst_insert (R : Recording t₀ s) (node : ViewNode H) :
    t₀.Records (s.tree.insert node).1 := by
  intro n hn
  obtain ⟨slot, hslot, -⟩ := Option.map_eq_some_iff.1 hn
  have hlt := ViewTree.index_lt_of_contains (ViewTree.contains_iff.2 ⟨slot, hslot⟩)
  have := R.size_le
  simp only [ViewTree.insert] at hlt
  omega

end Recording

open Live

/-- A new node records its properties. -/
lemma insertNew_meets (ha : a.capabilities = .builtin) (e : Element) {s : Run H}
    (R : Recording t₀ s) :
    Meets s (a.insertNew e) (fun id s' => Recording t₀ s' ∧ t₀.Records id) (Recording t₀) := by
  unfold Meets insertNew
  cases hc : a.create e with
  | error error => exact R
  | ok element =>
    obtain ⟨g, rfl⟩ := exists_generic_of_create ha hc
    refine ⟨R.withTree ?_ fun id h => h.insert g, R.records_fst_insert { element := .generic g }⟩
    simp

/-- The node of an element is one that its field holds, or a new one. -/
lemma nodeFor_meets_recording (ha : a.capabilities = .builtin) (root : ScopeRoot) (e : Element)
    {s : Run H} (R : Recording t₀ s) :
    Meets s (a.nodeFor root e) (fun id s' => Recording t₀ s' ∧ t₀.Records id) (Recording t₀) := by
  unfold nodeFor
  split
  · exact insertNew_meets ha e R
  · rename_i field _
    refine Meets.bind ?_
    rw [meets_get]
    split
    · rename_i id hid
      exact ⟨R, R.fields field id (Option.filter_eq_some_iff.1 hid).1⟩
    · split
      · refine Meets.bind ((insertNew_meets ha e R).imp (fun id s' h => ?_) fun _ h => h)
        refine Meets.bind ?_
        rw [meets_modify]
        refine ⟨⟨h.1.size_le, h.1.records, fun f x hx => ?_, h.1.warnings⟩, h.2⟩
        rw [Table.get?_insert] at hx
        split at hx
        · cases hx
          exact h.2
        · exact h.1.fields f x hx
      · exact R

variable [Widget H]

omit [Widget H] in
/-- A warning about a style that is skipped is about no property. -/
lemma property_eq_none_of_mem_skippedWarnings (typeName element : String) (r : Resolved) :
    ∀ w ∈ skippedWarnings typeName element r, w.property = none := by
  intro w hw
  obtain ⟨_, -, rfl⟩ := List.mem_map.1 hw
  rfl

/-- **A node that records takes what the catalogue has** without a warning about a property. -/
theorem assign_maintains (ha : a.capabilities = .builtin) {id : NodeId} (hid : t₀.Records id)
    {r : Resolved} (hr : ∀ p ∈ r.properties, p.IsOf kind) (typeName element : String) :
    Maintains (Recording t₀) (a.assign id kind typeName element r) := by
  refine Maintains.modify fun s R => ?_
  have R' := R.warn (property_eq_none_of_mem_skippedWarnings typeName element r)
  simp only
  cases hn : s.tree.get? id with
  | none => exact R'
  | some n =>
    obtain ⟨g, hg⟩ := R.records id hid n hn
    obtain ⟨g', hset⟩ := foldl_setOne_generic ha hr typeName element g []
    simp only [hg, hset, List.append_nil]
    exact R'.modify id fun _ _ _ => ⟨g', rfl⟩

/-- A node that is a widget of the host takes nothing that is built in. -/
lemma assign_meets_host (ha : a.capabilities = .builtin) {id : NodeId} {s : Run H}
    {n : ViewNode H} {w : H} (hn : s.tree.get? id = some n) (hw : n.element = .host w)
    (typeName element : String) (r : Resolved) :
    Meets s (a.assign id kind typeName element r)
      (fun _ s' => s'.placed = s.placed ∧ ∀ p ∈ r.properties,
        ⟨typeName, element, some p.name, "unsupported on " ++ Widget.typeName w⟩ ∈ s'.warnings)
      fun _ => False := by
  unfold assign
  rw [meets_modify]
  simp only [hn, hw, foldl_setOne_host ha, List.nil_append, List.mem_append, List.mem_map, true_and]
  exact fun p hp => .inr ⟨p, hp, rfl⟩

/-- An element that is placed records its properties. -/
lemma placeOne_meets_recording (ha : a.capabilities = .builtin) (root : ScopeRoot)
    (d : Definition) (parent : NodeId) (parentKind : Kind) {e : Element} (hd : d.IsParsed)
    (he : e ∈ d.elements) {s : Run H} (R : Recording t₀ s) :
    Meets s (a.placeOne root d parent parentKind e)
      (fun id s' => Recording t₀ s' ∧ t₀.Records id) (Recording t₀) := by
  have known : ∀ p ∈ (a.sheets.resolve d e).properties, p.IsOf e.kind := fun p hp =>
    (hd.conforms_resolve a.sheets he p hp).isOf
  unfold placeOne
  refine Meets.bind ((nodeFor_meets_recording ha root e R).imp (fun id s₁ h => ?_) fun _ h => h)
  obtain ⟨R₁, hid⟩ := h
  refine Meets.bind ?_
  rw [meets_modify]
  have R₂ := R₁.modify id (f := prepare e) fun n g hg => ⟨g, hg⟩
  refine Meets.bind ((assign_maintains ha hid known d.typeName e.name _ R₂).imp (fun _ s₃ R₃ => ?_)
    fun _ h => h)
  refine Meets.bind ?_
  rw [meets_modify]
  cases h : s₃.tree.attach? id parent parentKind.arrangesChildren with
  | none => exact ⟨⟨R₃.size_le, R₃.records, R₃.fields, R₃.warnings⟩, hid⟩
  | some t' =>
    have R₄ := R₃.withTree (ViewTree.size_slots_attach? h).ge fun x hx =>
      hx.mono fun n hn => (ViewTree.get?_attach? h x).symm.trans hn
    exact ⟨⟨R₄.size_le, R₄.records, R₄.fields, R₄.warnings⟩, hid⟩

/-- The beginning of a scope leaves recording as it is. -/
lemma beginScope_maintains (ha : a.capabilities = .builtin) {root : ScopeRoot} {d : Definition}
    (hd : d.IsParsed) (hroot : t₀.Records root.node) :
    Maintains (Recording t₀) (a.beginScope root d) := by
  intro s R
  unfold beginScope
  refine Meets.bind ?_
  rw [meets_get]
  split
  · refine Meets.bind ?_
    rw [meets_set]
    have R' := R.withTree (size_slots_clear s.tree root.node s.fields.values).ge
      fun id h => h.mono fun n => get?_of_get?_clear
    refine assign_maintains ha hroot (fun p hp => (hd.conforms_resolveRoot a.sheets p hp).isOf) _ _ _
      ⟨R'.size_le, R'.records, R'.fields, R'.warnings⟩
  · exact R

omit [Widget H] in
/-- So do constraints. -/
lemma constrain_maintains (typeName : String) :
    Maintains (Recording t₀) (constrain typeName : Live H _) := by
  have changed : ∀ (changes : List (NodeId × List LiveConstraint)) (s : Run H), Recording t₀ s →
      Recording t₀ { s with
        tree := changes.foldl
          (fun t change => t.modify change.1 fun n => { n with constraints := change.2 }) s.tree } := by
    intro changes
    induction changes with
    | nil => exact fun _ R => R
    | cons change changes ih =>
      intro s R
      exact ih { s with
        tree := s.tree.modify change.1 fun n => { n with constraints := change.2 } }
        (R.modify change.1 fun n g hg => ⟨g, hg⟩)
  intro s R
  unfold Meets constrain
  cases allConstraints typeName s.placed with
  | error e => exact R
  | ok rebuilt => exact changed rebuilt s R

/-! ### Whole applications -/

/-- **Every step of an application warns of no property**, at nodes that record and for definitions
that come from documents. -/
theorem invariant_recording (ha : a.capabilities = .builtin) (hk : a.KnowsParsed) :
    Invariant a (Recording t₀) Definition.IsParsed t₀.Records where
  inline _ _ _ hd he hr := hd.of_mem_definitions
    (Definition.mem_definitions_iff.2 (.inr (Element.mem_definitionsAll hr _ he)))
  named := hk
  enter _ R := ⟨R.size_le, R.records, fun _ _ h => (nomatch h), R.warnings⟩
  leave _ _ R R' := ⟨R'.size_le, R'.records, R.fields, R'.warnings⟩
  warn _ _ _ := .modify fun _ R => R.warn (List.forall_mem_singleton.2 rfl)
  beginScope _ _ hd hroot := beginScope_maintains ha hd hroot
  placeOne root d parent parentKind _ hd he _ _ R :=
    placeOne_meets_recording ha root d parent parentKind hd he R
  constrain := constrain_maintains

/-- **An application warns of no property**, if the node of the component and those that its fields
hold record their properties, or are gone. -/
theorem property_eq_none_of_apply (ha : a.capabilities = .builtin) (hk : a.KnowsParsed)
    {d : Definition} (hd : d.IsParsed) {b b' : Binding} (hroot : t.Records b.node)
    (hfields : ∀ f id, b.fields.get? f = some id → t.Records id) {report : ApplyReport}
    (h : a.apply t b d = (.ok report, t', b')) : ∀ w ∈ report.warnings, w.property = none := by
  have R : Recording t { tree := t, fields := b.fields } :=
    ⟨Nat.le_refl _, fun _ h => h, hfields, fun _ h => (List.not_mem_nil h).elim⟩
  have R' := (invariant_recording ha hk).applyScope [d.typeName] ⟨b.node, b.typeName, b.adopts⟩ d
    hd hroot _ R
  rcases apply_of_meets R' with ⟨report', b'', s, hok, hwarnings, R''⟩ | ⟨_, _, _, herror, -⟩
  · rw [h] at hok
    cases hok
    rw [hwarnings]
    exact R''.warnings
  · rw [h] at herror
    cases herror

end Applier

end ViewMarkup
