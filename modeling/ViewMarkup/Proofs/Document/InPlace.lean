import ViewMarkup.Proofs.Document.Scopes

/-!
# Definitions with all components in place

A definition whose components are all anonymous and in place says everything about itself. The types
of the components inside it have longer and longer names, so that none of them contains itself.

## Main definitions

* `Definition.IsInPlace` — all components inside are anonymous and in place.
* `Element.AreInPlace` — what holds of the elements of such a definition at any depth.

## Main statements

* `Element.induction_inside` — induction over elements with all that is inside them.
* `Definition.areInPlace`, `Element.AreInPlace.inline` — the elements of a parsed definition, and those
  of the components inside.
-/

namespace ViewMarkup

/-- A component is anonymous and in place, and the rows of a list are not in place. -/
def Element.IsInPlace (e : Element) : Prop :=
  if e.kind = .component then ∃ d, e.reference = some (.inline d) ∧ d.isAnonymous = true
  else ∀ d, e.reference ≠ some (.inline d)

/-- All components inside a definition are anonymous and in place, and no rows of a list are. -/
def Definition.IsInPlace (d : Definition) : Prop :=
  ∀ d' ∈ d.definitions, ∀ e ∈ d'.elements, e.IsInPlace

/-- Whether an element is in place is seen from the definition that its reference holds. -/
lemma Element.isInPlace_iff (e : Element) :
    e.IsInPlace ↔ (if e.kind = .component then e.inline?.any (·.isAnonymous)
      else e.inline?.isNone) = true := by
  unfold IsInPlace inline?
  split <;> rcases e.reference with _ | _ | d <;> simp [TypeReference.definition?]

instance : DecidablePred Element.IsInPlace := fun e => decidable_of_iff _ e.isInPlace_iff.symm

instance : DecidablePred Definition.IsInPlace := fun d =>
  inferInstanceAs (Decidable (∀ d' ∈ d.definitions, ∀ e ∈ d'.elements, e.IsInPlace))

namespace Element

/-- What holds of the elements of a type's scope, and of those inside them at any depth, if all
components are in place. -/
structure AreInPlace (typeName : String) (es : List Element) : Prop where
  /-- They are regular. -/
  regular : ∀ e ∈ walkAll es, e.IsRegular
  /-- What the definitions in place have from the type. -/
  encloses : ∀ e ∈ walkAll es, e.Encloses typeName
  /-- Their components are in place. -/
  isInPlace : ∀ e ∈ walkAll es, e.IsInPlace
  /-- The components inside are scopes with all components in place. -/
  nested : ∀ d ∈ definitionsAll es, d.IsScope ∧ ∀ e ∈ d.elements, e.IsInPlace

/-- The definition in an element that has one in place. -/
lemma inline?_eq_some {e : Element} {d : Definition} (h : e.reference = some (.inline d)) :
    e.inline? = some d := by
  rw [inline?, h]
  rfl

/-- An element without one has none. -/
lemma inline?_eq_none {e : Element} (h : ∀ d, e.reference ≠ some (.inline d)) :
    e.inline? = none := by
  unfold inline?
  match hr : e.reference with
  | none => rfl
  | some (.named _) => rfl
  | some (.inline d) => exact (h d hr).elim

/-- An element with a definition in place refers to it. -/
lemma reference_of_inline? {e : Element} {d : Definition} (h : e.inline? = some d) :
    e.reference = some (.inline d) := by
  obtain ⟨r, hr, hd⟩ := Option.bind_eq_some_iff.1 h
  cases r with
  | named _ => cases hd
  | inline _ =>
    cases hd
    exact hr

/-- The definition in place is smaller than its element. -/
lemma sizeOf_lt_of_inline? {e : Element} {d : Definition} (h : e.inline? = some d) :
    sizeOf d < sizeOf e := by
  have := e.sizeOf_reference_lt
  rw [reference_of_inline? h, Option.some.sizeOf_spec, TypeReference.inline.sizeOf_spec] at this
  omega

/-- **Induction over elements with what is inside them**, in their own scope and in definitions in place. -/
@[elab_as_elim]
theorem induction_inside {P : List Element → Prop} (nil : P [])
    (cons : ∀ e es, (∀ d, e.inline? = some d → P d.children) → P e.children → P es → P (e :: es))
    (es : List Element) : P es := by
  induction hsize : sizeOf es using Nat.strongRecOn generalizing es with
  | ind size ih =>
    subst hsize
    cases es with
    | nil => exact nil
    | cons e es =>
      refine cons e es (fun d hd => ih _ ?_ _ rfl) (ih _ ?_ _ rfl) (ih _ ?_ _ rfl)
      · have := d.sizeOf_children_lt
        have := sizeOf_lt_of_inline? hd
        simp only [List.cons.sizeOf_spec]
        omega
      · have := e.sizeOf_children_lt
        simp only [List.cons.sizeOf_spec]
        omega
      · simp only [List.cons.sizeOf_spec]
        omega

/-- The definitions in elements: of the first, of those inside it, and of the others. -/
lemma definitionsAll_cons (e : Element) (es : List Element) :
    definitionsAll (e :: es) =
      ((e.inline?.map (·.definitions)).getD [] ++ definitionsAll e.children) ++
        definitionsAll es := by
  obtain ⟨kind, field, layout, properties, styles, children, reference, name⟩ := e
  rw [definitionsAll, definitions.eq_def]
  match reference with
  | none => rfl
  | some (.named _) => rfl
  | some (.inline _) => rfl

namespace AreInPlace

variable {typeName : String} {e : Element} {es : List Element}

/-- An element is among those that are walked through from it. -/
lemma mem_head : e ∈ walkAll (e :: es) := by
  rw [walkAll_cons]
  exact List.mem_cons_self

/-- The elements behind the first are in place. -/
lemma tail (h : AreInPlace typeName (e :: es)) : AreInPlace typeName es := by
  have sub : walkAll es ⊆ walkAll (e :: es) := by
    rw [walkAll_cons]
    exact List.subset_cons_of_subset _ (List.subset_append_right _ _)
  refine ⟨fun x hx => h.regular x (sub hx), fun x hx => h.encloses x (sub hx),
    fun x hx => h.isInPlace x (sub hx), fun d hd => h.nested d ?_⟩
  rw [definitionsAll_cons]
  exact List.mem_append_right _ hd

/-- The elements inside the first are in place. -/
lemma children (h : AreInPlace typeName (e :: es)) : AreInPlace typeName e.children := by
  have sub : walkAll e.children ⊆ walkAll (e :: es) := by
    rw [walkAll_cons]
    exact List.subset_cons_of_subset _ (List.subset_append_left _ _)
  refine ⟨fun x hx => h.regular x (sub hx), fun x hx => h.encloses x (sub hx),
    fun x hx => h.isInPlace x (sub hx), fun d hd => h.nested d ?_⟩
  rw [definitionsAll_cons]
  exact List.mem_append_left _ (List.mem_append_right _ hd)

end AreInPlace

end Element

namespace Definition

/-- The definitions of a document are its own and those in its elements. -/
lemma mem_definitions_iff {d d' : Definition} :
    d' ∈ d.definitions ↔ d' = d ∨ d' ∈ Element.definitionsAll d.children := by
  obtain ⟨typeName, isRoot, isAnonymous, styles, properties, children⟩ := d
  rw [definitions, List.mem_cons]

/-- The elements of a definition, if it and all definitions in place inside it are scopes. -/
theorem areInPlace {d : Definition}
    (h : ∀ d' ∈ d.definitions, d'.IsScope ∧ ∀ e ∈ d'.elements, e.IsInPlace) :
    Element.AreInPlace d.typeName d.children := by
  obtain ⟨hscope, hplace⟩ := h d (mem_definitions_iff.2 (.inl rfl))
  have hnested := fun d' hd' => h d' (mem_definitions_iff.2 (.inr hd'))
  exact ⟨hscope.regular, hscope.encloses, hplace, hnested⟩

end Definition

/-- The elements of a component in place. -/
theorem Element.AreInPlace.inline {typeName : String} {e : Element} {es : List Element}
    {d : Definition} (h : AreInPlace typeName (e :: es)) (hd : e.reference = some (.inline d)) :
    AreInPlace d.typeName d.children := by
  refine Definition.areInPlace fun d' hd' => h.nested d' ?_
  rw [definitionsAll_cons, inline?_eq_some hd]
  exact List.mem_append_left _ (List.mem_append_left _ hd')

namespace Element

/-- The definition of a component in place is one of those inside the elements around it. -/
lemma mem_definitionsAll {e : Element} {d : Definition} (hd : e.reference = some (.inline d)) :
    (es : List Element) → e ∈ walkAll es → d ∈ definitionsAll es
  | [], he => (List.not_mem_nil he).elim
  | ⟨kind, field, layout, properties, styles, children, reference, name⟩ :: es, he => by
    rw [walkAll_cons, List.mem_cons, List.mem_append] at he
    rw [definitionsAll_cons, List.mem_append, List.mem_append]
    rcases he with rfl | he | he
    · rw [inline?_eq_some hd]
      exact .inl (.inl (Definition.mem_definitions_iff.2 (.inl rfl)))
    · exact .inl (.inr (mem_definitionsAll hd children he))
    · exact .inr (mem_definitionsAll hd es he)

/-- All definitions inside elements with all components in place are anonymous. -/
lemma AreInPlace.isAnonymous {typeName : String} {d : Definition} : (es : List Element) →
    AreInPlace typeName es → d ∈ definitionsAll es → d.isAnonymous = true
  | [], _, hd => (List.not_mem_nil hd).elim
  | e :: es, h, hd => by
    rw [definitionsAll_cons, List.mem_append, List.mem_append] at hd
    rcases hd with (hd | hd) | hd
    · have hplace := h.isInPlace e AreInPlace.mem_head
      match hr : e.reference with
      | none =>
        rw [inline?, hr] at hd
        cases hd
      | some (.named name) =>
        rw [inline?, hr] at hd
        cases hd
      | some (.inline nested) =>
        rw [inline?_eq_some hr] at hd
        rcases Definition.mem_definitions_iff.1 hd with rfl | hd
        · unfold IsInPlace at hplace
          split at hplace
          · obtain ⟨d, hd, ha⟩ := hplace
            rw [hr] at hd
            cases hd
            exact ha
          · exact (hplace _ hr).elim
        · have hchildren := nested.sizeOf_children_lt
          have hnested : sizeOf nested < sizeOf e := by
            have := e.sizeOf_reference_lt
            rw [hr, Option.some.sizeOf_spec, TypeReference.inline.sizeOf_spec] at this
            omega
          exact AreInPlace.isAnonymous nested.children (h.inline hr) hd
    · exact AreInPlace.isAnonymous e.children h.children hd
    · exact AreInPlace.isAnonymous es h.tail hd
termination_by es => sizeOf es
decreasing_by
  · simp only [List.cons.sizeOf_spec]
    omega
  · have := e.sizeOf_children_lt
    simp only [List.cons.sizeOf_spec]
    omega
  · simp only [List.cons.sizeOf_spec]
    omega

end Element

namespace Definition

/-- The elements of a parsed definition with all components in place. -/
theorem IsParsed.areInPlace {d : Definition} (h : d.IsParsed) (hp : d.IsInPlace) :
    Element.AreInPlace d.typeName d.children :=
  Definition.areInPlace fun d' hd' => ⟨(h.of_mem_definitions hd').isScope, hp d' hd'⟩

/-- A definition that a document declares is its own. -/
lemma isParsed_of_ofText {text : String} {d : Definition} (h : ofText text = .ok d) :
    d.IsParsed ∧ d.isAnonymous = false := by
  refine ⟨⟨text, d, h, mem_definitions_iff.2 (.inl rfl)⟩, ?_⟩
  obtain ⟨node, _, h⟩ := Except.bind_eq_ok.1 h
  rw [ofRoot] at h
  split at h
  · cases h
  · obtain ⟨_, _, h⟩ := Except.bind_eq_ok.1 h
    obtain ⟨_, _, h⟩ := Except.bind_eq_ok.1 h
    obtain ⟨_, _, h⟩ := Except.bind_eq_ok.1 h
    cases h
    rfl

/-- With all components in place, the only declared type is that of the definition. -/
lemma filter_isAnonymous {d : Definition} (h : Element.AreInPlace d.typeName d.children)
    (hd : d.isAnonymous = false) : (d.definitions.filter fun d => !d.isAnonymous) = [d] := by
  have hnested : (Element.definitionsAll d.children).filter (fun d => !d.isAnonymous) = [] :=
    List.filter_eq_nil_iff.2 fun d' hd' => by simp [h.isAnonymous _ hd']
  obtain ⟨typeName, isRoot, isAnonymous, styles, properties, children⟩ := d
  rw [definitions, List.filter_cons_of_pos (by simpa using hd), hnested]

end Definition

end ViewMarkup
