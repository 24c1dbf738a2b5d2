import ViewMarkup.Document.Resolve
import ViewMarkup.Proofs.Document.InPlace

/-!
# What the elements of a document declare

All that an element of a document has by itself comes from the attributes of one tag, and a
definition in place has no properties of its own. So whatever can be said of attributes can be said
of elements at any depth; here, that each property has the type which the catalogue declares for it,
in the element and after the cascade.

## Main definitions

* `Element.IsDeclared`, `Definition.IsDeclared` — the attributes of a tag declare it.
* `Element.AreParsed` — elements come from a document.

## Main statements

* `Element.areDeclared_of_ofNodes` — reading tags gives elements that are declared, at any depth.
* `Definition.IsParsed.conforms_resolve`, `Definition.IsParsed.conforms_resolveRoot` — the properties
  of elements and roots have the declared types, whatever styles they come from.
-/

namespace ViewMarkup

/-! ### Declared elements -/

/-- The attributes of a tag declare what an element has by itself. -/
def Element.IsDeclared (e : Element) : Prop :=
  ∃ tag attributes d, Declared.ofAttributes e.kind tag attributes = .ok d ∧ e.field = d.field ∧
    e.layout = d.layout ∧ e.properties = d.properties ∧ e.styles = d.styles

/-- The elements of a definition are declared, and its properties are among the attributes of a
root. -/
structure Definition.IsDeclared (d : Definition) : Prop where
  /-- The elements of its scope are declared. -/
  elements : ∀ e ∈ d.elements, e.IsDeclared
  /-- Its properties are those of a root. -/
  properties : ∃ attributes, d.properties = rootProperties attributes

namespace Element

/-- Elements are declared, with all that is inside them. -/
structure AreDeclared (es : List Element) : Prop where
  /-- The elements and those inside them, in the same scope. -/
  elements : ∀ e ∈ walkAll es, e.IsDeclared
  /-- The definitions in place. -/
  inPlace : ∀ d ∈ definitionsAll es, d.IsDeclared

namespace AreDeclared

variable {e : Element} {es : List Element}

/-- Nothing needs to be declared. -/
lemma nil : AreDeclared [] :=
  ⟨fun _ h => (List.not_mem_nil h).elim, fun _ h => (List.not_mem_nil h).elim⟩

/-- One element is declared and then others. -/
lemma cons (h : AreDeclared [e]) (h' : AreDeclared es) : AreDeclared (e :: es) where
  elements := by
    rw [walkAll, List.forall_mem_append]
    have := h.elements
    rw [walkAll, walkAll, List.append_nil] at this
    exact ⟨this, h'.elements⟩
  inPlace := by
    rw [definitionsAll, List.forall_mem_append]
    have := h.inPlace
    rw [definitionsAll, definitionsAll, List.append_nil] at this
    exact ⟨this, h'.inPlace⟩

/-- An element with what is inside it. -/
lemma inside (he : e.IsDeclared) (h : AreDeclared e.children)
    (hi : ∀ d, e.reference = some (.inline d) → ∀ d' ∈ d.definitions, d'.IsDeclared) :
    AreDeclared [e] where
  elements := by
    rw [walkAll_cons, walkAll, List.append_nil]
    exact List.forall_mem_cons.2 ⟨he, h.elements⟩
  inPlace d hd := by
    rw [definitionsAll_cons, definitionsAll, List.append_nil, List.mem_append] at hd
    rcases hd with hd | hd
    · cases hr : e.inline? with
      | none =>
        rw [hr] at hd
        cases hd
      | some d' =>
        obtain ⟨r, href, hd'⟩ := Option.bind_eq_some_iff.1 hr
        cases r with
        | named _ => cases hd'
        | inline nested =>
          cases hd'
          rw [hr] at hd
          exact hi _ href d hd
    · exact h.inPlace d hd

/-- The definition in place that elements make up, with those inside it. -/
lemma inline (h : AreDeclared es) {around : Surroundings} {written : Option String}
    {name : String} {d : Definition} (hd : around.reference written name es = some (.inline d)) :
    ∀ d' ∈ d.definitions, d'.IsDeclared := by
  cases es with
  | nil =>
    rw [Surroundings.reference] at hd
    cases written <;> cases hd
  | cons e es =>
    cases hd
    intro d' hd'
    rcases Definition.mem_definitions_iff.1 hd' with rfl | hd'
    · exact ⟨h.elements, [], rfl⟩
    · exact h.inPlace d' hd'

end AreDeclared

mutual

/-- Reading a tag gives an element that the tag declares, and so is all that is inside it. -/
lemma areDeclared_of_ofNode (around : Surroundings) (names : Names) {e : Element}
    {names' : Names} : (n : Xml.Node) → ofNode around names n = .ok (e, names') → AreDeclared [e]
  | ⟨tag, attributes, children⟩, h => by
    rw [ofNode] at h
    split at h
    · cases h
    · next kind _ =>
      obtain ⟨d, hd, h⟩ := Except.bind_eq_ok.1 h
      obtain ⟨⟨name, names₁⟩, -, h⟩ := Except.bind_eq_ok.1 h
      -- Whatever is put into the element, the tag declares it.
      have single : ∀ reference : Option TypeReference,
          (∀ d', reference = some (.inline d') → ∀ d'' ∈ d'.definitions, d''.IsDeclared) →
          AreDeclared [⟨kind, d.field, d.layout, d.properties, d.styles, [], reference, name⟩] :=
        fun _ hi => .inside ⟨tag, attributes, d, hd, rfl, rfl, rfl, rfl⟩ .nil hi
      simp only at h
      split at h
      · obtain ⟨⟨inner, names₂⟩, hinner, h⟩ := Except.bind_eq_ok.1 h
        cases h
        exact .inside ⟨tag, attributes, d, hd, rfl, rfl, rfl, rfl⟩
          (areDeclared_of_ofNodes around names₁ children hinner) fun _ h => nomatch h
      · split at h
        · -- a component
          obtain ⟨⟨inner, names₂⟩, hinner, h⟩ := Except.bind_eq_ok.1 h
          have inside := areDeclared_of_ofNodes _ {} children hinner
          simp only at h
          split at h
          · next r hr =>
            cases h
            exact single (some r) fun d' hd' => inside.inline (hr.trans hd')
          · cases h
        · -- a list without a row
          cases h
          refine single _ fun d' hd' => ?_
          obtain ⟨_, _, he⟩ := Option.map_eq_some_iff.1 hd'
          cases he
        · -- a list with one element inside
          split at h
          · obtain ⟨⟨inner, names₂⟩, hinner, h⟩ := Except.bind_eq_ok.1 h
            have inside := areDeclared_of_ofNodes _ {} _ hinner
            cases h
            exact single _ fun d' hd' => inside.inline hd'
          · cases h
        · cases h
          exact single none fun _ h => nomatch h
        · cases h
termination_by n => sizeOf n
decreasing_by all_goals (subst_vars; simp +arith)

/-- **Reading tags** gives elements that the tags declare, at any depth. -/
theorem areDeclared_of_ofNodes (around : Surroundings) (names : Names) {es : List Element}
    {names' : Names} :
    (ns : List Xml.Node) → ofNodes around names ns = .ok (es, names') → AreDeclared es
  | [], h => by
    rw [ofNodes] at h
    cases h
    exact .nil
  | n :: ns, h => by
    rw [ofNodes] at h
    obtain ⟨⟨e, names₁⟩, he, h⟩ := Except.bind_eq_ok.1 h
    obtain ⟨⟨es, names₂⟩, hes, h⟩ := Except.bind_eq_ok.1 h
    cases h
    exact (areDeclared_of_ofNode around names n he).cons (areDeclared_of_ofNodes around names₁ ns hes)
termination_by ns => sizeOf ns
decreasing_by all_goals simp +arith

end

/-- The properties of a declared element have the declared types. -/
lemma IsDeclared.conforms {e : Element} (h : e.IsDeclared) :
    ∀ p ∈ e.properties, p.Conforms e.kind := by
  obtain ⟨tag, attributes, d, hd, -, -, hproperties, -⟩ := h
  intro p hp
  rw [hproperties] at hp
  obtain ⟨_, _, hread⟩ := Declared.exists_read_of_ofAttributes hd p hp
  exact Catalogue.conforms_of_read hread

end Element

namespace Definition

/-- The properties of a declared definition have the types that are declared for a plain view. -/
lemma IsDeclared.conforms {d : Definition} (h : d.IsDeclared) :
    ∀ p ∈ d.properties, p.Conforms .container := by
  obtain ⟨attributes, hproperties⟩ := h.properties
  intro p hp
  rw [hproperties] at hp
  obtain ⟨_, _, hread⟩ := exists_read_of_mem_rootProperties p hp
  exact Catalogue.conforms_of_read hread

namespace IsParsed

variable {d : Definition} {e : Element}

/-- What comes from a document is declared. -/
lemma isDeclared (h : d.IsParsed) : d.IsDeclared := by
  obtain ⟨text, root, hr, hd⟩ := h
  obtain ⟨node, _, hr⟩ := Except.bind_eq_ok.1 hr
  rw [ofRoot] at hr
  split at hr
  · cases hr
  · obtain ⟨typeName, _, hr⟩ := Except.bind_eq_ok.1 hr
    obtain ⟨styles, _, hr⟩ := Except.bind_eq_ok.1 hr
    obtain ⟨⟨es, names⟩, hes, hr⟩ := Except.bind_eq_ok.1 hr
    have declared := Element.areDeclared_of_ofNodes _ _ _ hes
    cases hr
    rcases mem_definitions_iff.1 hd with rfl | hd
    · exact ⟨declared.elements, node.attributes, rfl⟩
    · exact declared.inPlace d hd

/-- **The properties of an element have the declared types**, whatever styles they come from. -/
theorem conforms_resolve (h : d.IsParsed) (sheets : StyleSheets) (he : e ∈ d.elements) :
    ∀ p ∈ (sheets.resolve d e).properties, p.Conforms e.kind :=
  sheets.forall_mem_cascade (fun _ _ _ => Catalogue.conforms_of_read)
    (h.isDeclared.elements e he).conforms e.styles d.styles

/-- **The properties of a definition's root** have the types that are declared for a plain view. -/
theorem conforms_resolveRoot (h : d.IsParsed) (sheets : StyleSheets) :
    ∀ p ∈ (sheets.resolveRoot d).properties, p.Conforms .container :=
  sheets.forall_mem_cascade (fun _ _ _ => Catalogue.conforms_of_read) h.isDeclared.conforms []
    d.styles

end IsParsed

end Definition

/-! ### Elements of a document -/

namespace Element

/-- Elements are among those of a definition that comes from a document, with all that is inside
them. -/
def AreParsed (es : List Element) : Prop := ∃ d : Definition, d.IsParsed ∧ walkAll es ⊆ d.elements

namespace AreParsed

variable {e : Element} {es : List Element}

/-- The elements of a definition that was read are read. -/
lemma of_isParsed {d : Definition} (h : d.IsParsed) : AreParsed d.children :=
  ⟨d, h, List.Subset.refl _⟩

/-- So are those behind the first. -/
lemma tail (h : AreParsed (e :: es)) : AreParsed es := by
  obtain ⟨d, hd, hs⟩ := h
  exact ⟨d, hd, List.Subset.trans (walkAll_subset_cons e es) hs⟩

/-- So are those inside the first. -/
lemma children (h : AreParsed (e :: es)) : AreParsed e.children := by
  obtain ⟨d, hd, hs⟩ := h
  exact ⟨d, hd, List.Subset.trans (walkAll_children_subset e es) hs⟩

/-- The definition in place of an element comes from the document, too. -/
lemma inline (h : AreParsed (e :: es)) {nested : Definition}
    (hr : e.reference = some (.inline nested)) : nested.IsParsed := by
  obtain ⟨d, hd, hs⟩ := h
  refine hd.of_mem_definitions (Definition.mem_definitions_iff.2 (.inr ?_))
  exact mem_definitionsAll hr _ (hs AreInPlace.mem_head)

/-- Elements that were read are declared. -/
lemma isDeclared (h : AreParsed (e :: es)) : e.IsDeclared := by
  obtain ⟨d, hd, hs⟩ := h
  exact hd.isDeclared.elements e (hs AreInPlace.mem_head)

end AreParsed

end Element

end ViewMarkup
