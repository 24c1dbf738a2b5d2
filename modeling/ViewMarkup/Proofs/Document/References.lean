import ViewMarkup.Proofs.Document.Scopes
import ViewMarkup.Proofs.View.Library

/-!
# What a definition refers to

The types that a definition refers to are those of the components and of the rows of lists in its own
scope, and those that the definitions in place there refer to in turn.

## Main definitions

* `Definition.Mentions` — a definition refers to a type, at any depth.
* `Element.ownReferences` — what an element itself brings to the references of a definition.

## Main statements

* `Definition.references_eq_flatMap` — the references of a definition, element by element.
* `Definition.induction_nested` — induction over definitions in place.
* `Definition.mem_referencedTypes_iff` — the types listed are those that are referred to.
-/

namespace ViewMarkup

/-- A definition refers to a type: an element of its scope, a component or a list, refers to it, or a
definition in place at such an element does. -/
inductive Definition.Mentions : Definition → String → Prop where
  /-- An element of the scope refers to the type. -/
  | here {d : Definition} {e : Element} {r : TypeReference} :
      e ∈ d.elements → e.reference = some r → Mentions d r.typeName
  /-- A definition in place refers to it. -/
  | inside {d nested : Definition} {e : Element} {name : String} :
      e ∈ d.elements → e.reference = some (.inline nested) → Mentions nested name → Mentions d name

namespace Element

/-- What an element itself brings to the references of a definition: the type that it refers to, and
what the definition in place refers to. -/
def ownReferences (e : Element) : List String :=
  match e.reference with
  | some (.inline d) => d.typeName :: d.references
  | some (.named typeName) => [typeName]
  | none => []

/-- The references of an element are its own and those of the elements inside it. -/
lemma references_eq (e : Element) :
    e.references = e.ownReferences ++ referencesAll e.children := by
  cases e
  rw [references.eq_def]
  rfl

/-- The references of elements are those of all elements in their walks. -/
lemma referencesAll_eq_flatMap (es : List Element) :
    referencesAll es = (walkAll es).flatMap ownReferences := by
  match es with
  | [] => rfl
  | e :: es =>
    rw [referencesAll, references_eq, referencesAll_eq_flatMap e.children,
      referencesAll_eq_flatMap es, walkAll_cons, List.flatMap_cons, List.flatMap_append,
      List.append_assoc]
termination_by sizeOf es
decreasing_by
  · have := e.sizeOf_children_lt
    simp only [List.cons.sizeOf_spec]
    omega
  · simp only [List.cons.sizeOf_spec]
    omega

/-- An element refers to the type that it names, and to what its definition in place refers to. -/
lemma mem_ownReferences_iff {e : Element} {name : String} :
    name ∈ e.ownReferences ↔ ∃ r, e.reference = some r ∧
      (r.typeName = name ∨ ∃ d, r = .inline d ∧ name ∈ d.references) := by
  unfold ownReferences
  match hr : e.reference with
  | none => simp
  | some (.named typeName) => simp [TypeReference.typeName, eq_comm]
  | some (.inline d) => simp [TypeReference.typeName, eq_comm]

/-- An element in a walk is no larger than what is walked through. -/
lemma sizeOf_lt_of_mem_walkAll {e : Element} {es : List Element} (h : e ∈ walkAll es) :
    sizeOf e < sizeOf es := by
  match es with
  | [] => cases h
  | e' :: es =>
    rw [walkAll_cons, List.mem_cons, List.mem_append] at h
    simp only [List.cons.sizeOf_spec]
    rcases h with rfl | h | h
    · omega
    · have := sizeOf_lt_of_mem_walkAll h
      have := e'.sizeOf_children_lt
      omega
    · have := sizeOf_lt_of_mem_walkAll h
      omega
termination_by sizeOf es
decreasing_by
  · have := e'.sizeOf_children_lt
    simp only [List.cons.sizeOf_spec]
    omega
  · simp only [List.cons.sizeOf_spec]
    omega

end Element

namespace Definition

/-- The references of a definition are those of its elements. -/
theorem references_eq_flatMap (d : Definition) :
    d.references = d.elements.flatMap Element.ownReferences :=
  (references_eq d).trans (Element.referencesAll_eq_flatMap d.children)

/-- A definition in place is smaller than the one around it. -/
lemma sizeOf_lt_of_inline {d nested : Definition} {e : Element} (he : e ∈ d.elements)
    (hr : e.reference = some (.inline nested)) : sizeOf nested < sizeOf d := by
  have h₁ := Element.sizeOf_lt_of_mem_walkAll he
  have h₂ := d.sizeOf_children_lt
  have h₃ := e.sizeOf_reference_lt
  rw [hr, Option.some.sizeOf_spec, TypeReference.inline.sizeOf_spec] at h₃
  omega

/-- **Induction over definitions with those in place in their scopes.** -/
@[elab_as_elim]
theorem induction_nested {P : Definition → Prop}
    (step : ∀ d, (∀ e nested, e ∈ d.elements → e.reference = some (.inline nested) → P nested) → P d)
    (d : Definition) : P d := by
  induction hsize : sizeOf d using Nat.strongRecOn generalizing d with
  | ind size ih =>
    subst hsize
    exact step d fun _ _ he hr => ih _ (sizeOf_lt_of_inline he hr) _ rfl

/-- The references of a definition are those that it makes at any depth.

**Proof sketch.** Each is made by an element of the scope. If it is not the type of the element's own
reference, it is among the references of the definition in place there, which is smaller. -/
lemma mem_references_iff {d : Definition} {name : String} :
    name ∈ d.references ↔ d.Mentions name := by
  constructor
  · induction d using induction_nested with
    | step d ih =>
      rw [references_eq_flatMap, List.mem_flatMap]
      rintro ⟨e, he, hname⟩
      obtain ⟨r, hr, rfl | ⟨nested, rfl, hn⟩⟩ := Element.mem_ownReferences_iff.1 hname
      · exact .here he hr
      · exact .inside he hr (ih e nested he hr hn)
  · intro h
    induction h with
    | here he hr =>
      rw [references_eq_flatMap, List.mem_flatMap]
      exact ⟨_, he, Element.mem_ownReferences_iff.2 ⟨_, hr, .inl rfl⟩⟩
    | inside he hr _ ih =>
      rw [references_eq_flatMap, List.mem_flatMap]
      exact ⟨_, he, Element.mem_ownReferences_iff.2 ⟨_, hr, .inr ⟨_, rfl, ih⟩⟩⟩

/-- The types listed are those that are referred to. -/
theorem mem_referencedTypes_iff {d : Definition} {name : String} :
    name ∈ d.referencedTypes ↔ d.Mentions name := by
  rw [referencedTypes, List.mem_eraseDups, mem_references_iff]

end Definition

end ViewMarkup
