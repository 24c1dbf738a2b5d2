import Mathlib
import ViewMarkup.Proofs.View.Mirror

/-!
# A component with a history

Definitions are applied to a component again and again: one edit of its document follows the other,
and an application may fail and leave the tree as far as it came. Whatever has happened before, after
one that succeeds the tree below the component's node mirrors the definition, and elements that are
fields of the component still have the nodes that they had.

## Main definitions

* `Applier.KnowsParsed` — all that an application finds by name comes from documents.
* `Applier.applyEach` — one application after the other.
* `Applier.Reflects` — the tree mirrors the definition that was applied.

## Main statements

* `Applier.holds_apply` — every application keeps the invariant of the component.
* `Applier.reflects_after_history` — what a successful application leaves, whatever came before.
-/

namespace ViewMarkup.Applier

variable {H : Type}

/-- All definitions that references by name find come from documents. -/
def KnowsParsed (a : Applier H) : Prop :=
  ∀ name d, a.library.get? name = some d → d.IsParsed

/-- The tree and the binding of a component after applications, one after the other, each of which
may have failed. -/
def applyEach [Widget H] (t : ViewTree H) (b : Binding) (steps : List (Applier H × Definition)) :
    ViewTree H × Binding :=
  steps.foldl (fun (t, b) (a, d) => (a.apply t b d).2) (t, b)

/-- **The tree mirrors the definition** that was applied to a component. The views are those of the
component's own scope, in document order; then there are nodes of the scopes nested in it. -/
structure Reflects (a : Applier H) (d : Definition) (b : Binding) (t t' : ViewTree H)
    (report : ApplyReport) (views : List PlacedView) (deep : List NodeId) : Prop where
  /-- The nodes below the component's node show the elements of the definition. -/
  shows : a.Shows t'
    ⟨[d.typeName], d, fun f => (b.fields.get? f).bind fun id => (t.get? id).map (·.element),
      Tied d.typeName views⟩
    b.node false d.children (t'.children b.node) views deep
  /-- The component's node has the properties of the definition's root. -/
  slot?_node : t'.slot? b.node = (t.slot? b.node).map fun slot =>
    { slot with
      node := a.capabilities.setOn .container (a.sheets.resolveRoot d).properties slot.node
      children := t'.children b.node }
  /-- No other nodes are below it. -/
  isBelow_iff : ∀ x, t'.IsBelow x b.node ↔ x ∈ views.map (·.node) ++ deep
  /-- All elements of the definition have views. -/
  elements_eq : views.map (·.element) = d.elements
  /-- All these nodes are different. -/
  nodup : (views.map (·.node) ++ deep).Nodup
  /-- The views are as their elements have them, and where their elements are. -/
  hangs : ∀ v ∈ views, v.Hangs t' b.node false d.children views
  /-- The nodes are reported under the names of the elements. -/
  named_eq : report.named.entries = views.map fun v => (v.element.name, v.node)
  /-- The names are different. -/
  nodup_names : report.named.keys.Nodup
  /-- An element that is a field has the node that the binding held for it. -/
  kept : ∀ v ∈ views, ∀ f id, v.element.field = some f → b.fields.get? f = some id → v.node = id

variable [Widget H]

/-! ### One application -/

variable {a : Applier H} {t : ViewTree H} {b : Binding} {d : Definition}

/-- What an application of a parsed definition leaves, failed or not. -/
lemma apply_cases (ha : a.KnowsParsed) (hd : d.IsParsed) (h : Holds b.node t b.fields) :
    (∃ (e : ApplyError) (s' : Run H), a.apply t b d =
        (.error e, s'.tree, { b with fields := s'.fields }) ∧
      Holds b.node s'.tree s'.fields ∧ a.Obstructed b.adopts [d.typeName] d) ∨
    ∃ (captured : Table String ConstraintHandle) (s' : Run H), a.apply t b d =
        (.ok ⟨s'.placed.foldl (fun t p => t.insert p.element.name p.node) {}, s'.warnings,
          s'.definitions⟩, s'.tree, { b with fields := s'.fields, captured }) ∧
      Holds b.node s'.tree s'.fields ∧
      (∀ f id, b.fields.get? f = some id → s'.fields.get? f = some id) ∧
      ∃ ids views deep, a.Mirrors [d.typeName] d b.node ids views deep ⟨t, b.fields, [], [], []⟩ s' := by
  have spec := a.applyScope_meets [d.typeName] ⟨b.node, b.typeName, b.adopts⟩ d
    (fun name d' hn => (ha name d' hn).areSound) { tree := t, fields := b.fields } hd.areSound rfl h
  unfold Live.Meets at spec
  unfold apply
  split at spec
  · next captured s' hs =>
    rw [hs]
    exact .inr ⟨captured, s', rfl, spec.1.holds, spec.1.fields_mono, spec.2⟩
  · next e s' hs =>
    rw [hs]
    exact .inl ⟨e, s', rfl, spec.1.holds, spec.2⟩

/-- An application that may have failed leaves the tree outside as it was. -/
lemma keeps_apply (ha : a.KnowsParsed) (hd : d.IsParsed) (h : Holds b.node t b.fields) :
    ∃ s' : Run H, s'.tree = (a.apply t b d).2.1 ∧ s'.fields = (a.apply t b d).2.2.fields ∧
      Keeps b.node (Element.fieldsOf d.children) ⟨t, b.fields, [], [], []⟩ s' := by
  have spec := a.applyScope_meets [d.typeName] ⟨b.node, b.typeName, b.adopts⟩ d
    (fun name d' hn => (ha name d' hn).areSound) { tree := t, fields := b.fields } hd.areSound rfl h
  unfold Live.Meets at spec
  unfold apply
  split at spec <;> next s' hs => rw [hs]; exact ⟨s', rfl, rfl, spec.1⟩

/-- **Every application keeps the invariant** of the component, also one that fails. -/
theorem holds_apply (ha : a.KnowsParsed) (hd : d.IsParsed) (h : Holds b.node t b.fields) :
    (a.apply t b d).2.2.node = b.node ∧
      Holds b.node (a.apply t b d).2.1 (a.apply t b d).2.2.fields := by
  obtain ⟨e, s', hs, hh, -⟩ | ⟨captured, s', hs, hh, -, -⟩ := apply_cases ha hd h
  · rw [hs]
    exact ⟨rfl, hh⟩
  · rw [hs]
    exact ⟨rfl, hh⟩

/-- An application fails for nothing but an obstruction in the definition. -/
lemma obstructed_of_apply (ha : a.KnowsParsed) (hd : d.IsParsed) (h : Holds b.node t b.fields)
    {e : ApplyError} {t' : ViewTree H} {b' : Binding} (hr : a.apply t b d = (.error e, t', b')) :
    a.Obstructed b.adopts [d.typeName] d := by
  obtain ⟨e, s', hs, -, hobstructed⟩ | ⟨captured, s', hs, -⟩ := apply_cases ha hd h
  · exact hobstructed
  · rw [hs] at hr
    cases hr

omit [Widget H] in
/-- What an application leaves in the tree is what its report says. -/
lemma Mirrors.reflects {s' : Run H} {ids deep : List NodeId} {views : List PlacedView}
    (M : a.Mirrors [d.typeName] d b.node ids views deep ⟨t, b.fields, [], [], []⟩ s')
    (hd : d.IsParsed) (h : Holds b.node t b.fields) (hh : Holds b.node s'.tree s'.fields)
    (hmono : ∀ f id, b.fields.get? f = some id → s'.fields.get? f = some id) :
    a.Reflects d b t s'.tree
      ⟨s'.placed.foldl (fun t p => t.insert p.element.name p.node) {}, s'.warnings, s'.definitions⟩
      views deep := by
  have hids : s'.tree.children b.node = ids := by
    obtain ⟨slot, hslot⟩ := ViewTree.contains_iff.1 h.contains
    exact ViewTree.children_of_slot? (M.slot?_root.trans (congrArg _ hslot))
  subst hids
  have helements : views.map (·.element) = d.elements :=
    M.shows.elements_eq hd.areSound.children_eq_nil
  have hnames : (views.map fun v => v.element.name).Nodup := by
    have := hd.nodup_names
    rwa [← helements, List.map_map] at this
  have hentries := Table.entries_foldl_insert (t := {}) (fun v : PlacedView => v.element.name)
    (·.node) views hnames
  rw [M.placed_eq]
  exact
    { shows := M.shows
      slot?_node := M.slot?_root
      isBelow_iff := M.shows.isBelow_iff hh.forest rfl
      elements_eq := helements
      nodup := M.nodup
      hangs := M.shows.hangs
      named_eq := hentries
      nodup_names := by
        rw [Table.keys, hentries, List.map_append, List.map_map]
        exact hnames
      kept := fun v hv f id hf hg =>
        Option.some.inj ((M.get?_field v hv f hf).symm.trans (hmono f id hg)) }

/-- **The tree mirrors the definition** after an application that succeeds. -/
theorem reflects_apply (ha : a.KnowsParsed) (hd : d.IsParsed) (h : Holds b.node t b.fields)
    {report : ApplyReport} {t' : ViewTree H} {b' : Binding}
    (hr : a.apply t b d = (.ok report, t', b')) :
    ∃ views deep, a.Reflects d b t t' report views deep := by
  obtain ⟨e, s', hs, -⟩ | ⟨captured, s', hs, hh, hmono, ids, views, deep, M⟩ := apply_cases ha hd h
  · rw [hs] at hr
    cases hr
  · rw [hs] at hr
    cases hr
    exact ⟨views, deep, M.reflects hd h hh hmono⟩

/-! ### Any history -/

/-- The invariant of a component holds after any applications. -/
lemma holds_applyEach (steps : List (Applier H × Definition))
    (hsteps : ∀ step ∈ steps, step.1.KnowsParsed ∧ step.2.IsParsed)
    (h : Holds b.node t b.fields) :
    (applyEach t b steps).2.node = b.node ∧
      Holds b.node (applyEach t b steps).1 (applyEach t b steps).2.fields := by
  induction steps generalizing t b with
  | nil => exact ⟨rfl, h⟩
  | cons step steps ih =>
    rw [List.forall_mem_cons] at hsteps
    obtain ⟨hnode, h₁⟩ := holds_apply hsteps.1.1 hsteps.1.2 h
    have := ih hsteps.2 (hnode ▸ h₁)
    rw [hnode] at this
    exact this

/-- **What a successful application leaves, whatever came before.** A component that creates its
fields begins without any on a living node of a tree whose links fit together. It undergoes any
applications of definitions that come from documents, with any hosts, styles and libraries, each of
which may fail. If one more application succeeds, the tree below the node mirrors its definition and
every element that is a field has the node that the component held for it.

**Proof sketch.** Every application keeps the invariant that nodes held by fields stand by themselves
or are below the component's node, however far it comes (`holds_apply`). So the next one finds each
of them by itself when it has taken apart what is below, and no node is refused its place
(`applyScope_meets`). -/
theorem reflects_after_history {node : NodeId} (typeName : String) (F : t.Forest)
    (hnode : t.contains node = true) (steps : List (Applier H × Definition))
    (hsteps : ∀ step ∈ steps, step.1.KnowsParsed ∧ step.2.IsParsed)
    (ha : a.KnowsParsed) (hd : d.IsParsed) {t₁ t' : ViewTree H} {b₁ b' : Binding}
    (h₁ : applyEach t (.adopting node typeName) steps = (t₁, b₁)) {report : ApplyReport}
    (hr : a.apply t₁ b₁ d = (.ok report, t', b')) :
    b₁.node = node ∧ ∃ views deep, a.Reflects d b₁ t₁ t' report views deep := by
  have h := holds_applyEach (b := .adopting node typeName) steps hsteps (.start F hnode)
  rw [h₁] at h
  exact ⟨h.1, reflects_apply ha hd (h.1 ▸ h.2) hr⟩

/-- A host that knows labels alone. -/
def labelHost : Applier Empty where
  capabilities := ({} : Capabilities Empty).addBuiltin .label (.generic (.ofKind .label))
  sheets := {}

/-- A component with a label that it holds. -/
def labelled : Definition where
  typeName := "A"
  isRoot := false
  isAnonymous := false
  styles := []
  properties := []
  children :=
    [{ kind := .label, field := some "a", layout := {}, properties := [], styles := [],
       children := [], reference := none, name := "a" }]

/-- The document with a label was parsed. -/
lemma isParsed_labelled : labelled.IsParsed := by
  refine ⟨"<Component type=\"A\"><Label field=\"a\"/></Component>", labelled, ?_, ?_⟩
  · rw [Definition.ofText_ofList]
    cbv
  · rw [labelled, Definition.definitions]
    exact List.mem_cons_self

/-- The component when its label has been applied to it. -/
def labelledOnce : ViewTree Empty × Binding :=
  applyEach (({} : ViewTree Empty).insert { element := .generic (.wrapper "A") }).2
    (.adopting ⟨0⟩ "A") [(labelHost, labelled)]

/-- A host that knows stacks as well. -/
def rowHost : Applier Empty :=
  { labelHost with
    capabilities := labelHost.capabilities.addBuiltin .stackView (.generic (.ofKind .stackView)) }

/-- The label inside a stack, with a priority declared for one axis of each kind. -/
def row : Definition where
  typeName := "A"
  isRoot := false
  isAnonymous := false
  styles := []
  properties := []
  children :=
    [{ kind := .stackView, field := none, layout := { id := some "row" }, properties := [],
       styles := [], reference := none, name := "row",
       children :=
        [{ kind := .label, field := some "a",
           layout :=
            { compression := { horizontal := some .low }
              hugging := { vertical := some .required } },
           properties := [], styles := [], children := [], reference := none, name := "a" }] }]

/-- The text of the component. -/
def rowText : String :=
  "<Component type=\"A\"><StackView layout:id=\"row\"><Label field=\"a\" layout:horizontalCompressionPriority=\"low\" layout:verticalHuggingPriority=\"required\"/></StackView></Component>"

/-- The document with a row was parsed. -/
lemma isParsed_row : row.IsParsed := by
  refine ⟨rowText, row, ?_, ?_⟩
  · rw [rowText, Definition.ofText_ofList]
    cbv
  · rw [row, Definition.definitions]
    exact List.mem_cons_self

/-- The label gets another place and priorities of its own: it has the node that it got first, now
lined up by the stack. Along the axis for which nothing is declared it resists compression with high
and hugs its content with low priority, as before. -/
theorem reflects_row :
    labelledOnce.2.fields.get? "a" = some ⟨1⟩ ∧
      ∃ report t' b' views deep,
        rowHost.apply labelledOnce.1 labelledOnce.2 row = (.ok report, t', b') ∧
        rowHost.Reflects row labelledOnce.2 labelledOnce.1 t' report views deep ∧
        t'.isArranged ⟨1⟩ = true ∧
        (t'.get? ⟨1⟩).map (·.compression) = some ⟨.low, .high⟩ ∧
        (t'.get? ⟨1⟩).map (·.hugging) = some ⟨.low, .required⟩ := by
  have known : labelHost.KnowsParsed := fun name d hn => by cases hn
  have known' : rowHost.KnowsParsed := fun name d hn => by cases hn
  have again : (rowHost.apply labelledOnce.1 labelledOnce.2 row).1.toOption.isSome = true := by cbv
  have found : (rowHost.apply labelledOnce.1 labelledOnce.2 row).2.1.isArranged ⟨1⟩ = true ∧
      ((rowHost.apply labelledOnce.1 labelledOnce.2 row).2.1.get? ⟨1⟩).map (·.compression) =
        some ⟨.low, .high⟩ ∧
      ((rowHost.apply labelledOnce.1 labelledOnce.2 row).2.1.get? ⟨1⟩).map (·.hugging) =
        some ⟨.low, .required⟩ := ⟨by cbv, by cbv, by cbv⟩
  refine ⟨by cbv, ?_⟩
  rcases hr : rowHost.apply labelledOnce.1 labelledOnce.2 row with ⟨error | report, t', b'⟩
  · rw [hr] at again
    cases again
  · rw [hr] at found
    obtain ⟨-, views, deep, h⟩ := reflects_after_history "A" (ViewTree.Forest.empty.insert _) rfl
      [(labelHost, labelled)] (by simp [isParsed_labelled, known]) known' isParsed_row rfl hr
    exact ⟨report, t', b', views, deep, rfl, h, found⟩

end ViewMarkup.Applier
