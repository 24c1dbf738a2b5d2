import Mathlib.Data.List.Nodup
import ViewMarkup.Document.Parse
import ViewMarkup.Proofs.Element.Typing

/-!
# The scopes of parsed definitions

In a definition that was read from a document, and in every definition in place inside it, each
element takes names of its own: its field and its layout id, or a name that is made up. No two
elements of a scope take the same name, whatever numbers are made up in between.

## Main definitions

* `Names.Takes` — names were free and are taken now.
* `Element.takenNames` — the names that an element takes in its scope.
* `Definition.IsScope` — what holds of the elements of every scope.
* `Definition.IsParsed` — a definition comes from a document.

## Main statements

* `Element.ofNodes_spec` — reading tags gives elements that take names of their own.
* `Definition.IsParsed.isScope`, `Definition.IsParsed.nodup_names` — the scope of a parsed
  definition.
-/

namespace ViewMarkup

/-! ### Taking names -/

namespace Names

/-- The given names, all different, were free and are taken now, and no others are. -/
structure Takes (names : Names) (new : List String) (names' : Names) : Prop where
  /-- The names are different. -/
  nodup : new.Nodup
  /-- They were free. -/
  fresh : ∀ x ∈ new, x ∉ names.taken
  /-- They are taken now. -/
  mem_taken_iff : ∀ x, x ∈ names'.taken ↔ x ∈ new ∨ x ∈ names.taken

/-- Nothing is taken. -/
lemma Takes.nil (names : Names) : names.Takes [] names :=
  ⟨List.nodup_nil, fun _ h => (List.not_mem_nil h).elim, fun _ => by simp⟩

/-- Names are taken one after the other. -/
lemma Takes.append {names names' names'' : Names} {xs ys : List String}
    (h : names.Takes xs names') (h' : names'.Takes ys names'') :
    names.Takes (xs ++ ys) names'' where
  nodup := List.nodup_append'.2 ⟨h.nodup, h'.nodup, fun x hx hy =>
    h'.fresh x hy ((h.mem_taken_iff x).2 (.inl hx))⟩
  fresh x hx := by
    rcases List.mem_append.1 hx with hx | hx
    · exact h.fresh x hx
    · exact fun hm => h'.fresh x hx ((h.mem_taken_iff x).2 (.inr hm))
  mem_taken_iff x := by
    rw [h'.mem_taken_iff, h.mem_taken_iff, List.mem_append]
    tauto

/-- A declared name is taken. -/
lemma takes_of_declare? {names names' : Names} {name : String}
    (h : names.declare? name = some names') : names.Takes [name] names' := by
  unfold declare? at h
  split at h
  · cases h
  · next hn =>
    cases h
    exact
      { nodup := List.nodup_singleton name
        fresh := fun x hx => by rwa [List.mem_singleton.1 hx]
        mem_taken_iff := fun x => by simp }

/-- Different numbers make up different names. -/
lemma madeUp_injective (tag : String) (i j : Nat) (h : madeUp tag i = madeUp tag j) : i = j := by
  have hr : i.repr = j.repr := String.append_right_inj _ |>.1 h
  have digits := congrArg (fun text => Nat.ofDigitChars 10 text.toList 0) hr
  simpa using digits

/-- A name that is made up is taken. -/
lemma takes_makeUp (names : Names) (tag : String) :
    names.Takes [(names.makeUp tag).1] (names.makeUp tag).2 where
  nodup := List.nodup_singleton _
  fresh x hx := by
    rw [List.mem_singleton.1 hx]
    exact firstFree_not_mem (madeUp_injective _) _ _
  mem_taken_iff x := by simp [makeUp]

end Names

/-- Elements are walked one after the other, each before those inside it. -/
lemma Element.walkAll_cons (e : Element) (es : List Element) :
    walkAll (e :: es) = e :: (walkAll e.children ++ walkAll es) := by
  cases e
  rw [walkAll, walk, List.cons_append]

/-- The first element is walked through with all. -/
lemma Element.walkAll_singleton_subset (e : Element) (es : List Element) :
    walkAll [e] ⊆ walkAll (e :: es) := by
  rw [walkAll_cons, walkAll_cons e es, walkAll, List.append_nil, ← List.cons_append]
  exact List.subset_append_left _ _

/-- The elements behind the first are walked through with all. -/
lemma Element.walkAll_subset_cons (e : Element) (es : List Element) :
    walkAll es ⊆ walkAll (e :: es) := by
  rw [walkAll_cons]
  exact List.subset_cons_of_subset _ (List.subset_append_right _ _)

/-- The elements inside the first are walked through with all. -/
lemma Element.walkAll_children_subset (e : Element) (es : List Element) :
    walkAll e.children ⊆ walkAll (e :: es) := by
  rw [walkAll_cons]
  exact List.subset_cons_of_subset _ (List.subset_append_left _ _)

/-- The names that an element takes in its scope: its name, and its layout id if that is another
one. -/
def Element.takenNames (e : Element) : List String :=
  e.name :: (e.layout.id.filter (· ≠ e.name)).toList

/-- The catalogue of a kind has a property. -/
def Property.IsOf (kind : Kind) (p : Property) : Prop :=
  (Catalogue.lookup? kind p.name).isSome = true

/-- What holds of every element of a document by itself. -/
structure Element.IsRegular (e : Element) : Prop where
  /-- An element that is held as a field is named so. -/
  name_of_field : ∀ field, e.field = some field → e.name = field
  /-- Elements are inside those that may have some. -/
  children_eq_nil : e.kind.acceptsChildren = false → e.children = []
  /-- Its properties are in the catalogue of its kind. -/
  known : ∀ p ∈ e.properties, p.IsOf e.kind

/-- A definition in place inside an element of a type: its root has no properties, and if its type
is not written it is made up from the type around it and the name of the element. -/
def Element.Encloses (typeName : String) (e : Element) : Prop :=
  ∀ d, e.reference = some (.inline d) →
    d.properties = [] ∧ (d.isAnonymous = true → d.typeName = typeName ++ "_" ++ e.name)

/-- What holds of the elements of every scope of a document. -/
structure Definition.IsScope (d : Definition) : Prop where
  /-- Each element takes names of its own. -/
  nodup : (d.elements.flatMap Element.takenNames).Nodup
  /-- Each element is regular. -/
  regular : ∀ e ∈ d.elements, e.IsRegular
  /-- What the definitions in place have from the one around them. -/
  encloses : ∀ e ∈ d.elements, e.Encloses d.typeName
  /-- The properties of the root are those of a plain view. -/
  known : ∀ p ∈ d.properties, p.IsOf .container

/-! ### What the attributes of an element declare -/

/-- A property that conforms to an element belongs to it. -/
lemma Property.Conforms.isOf {kind : Kind} {p : Property} (h : p.Conforms kind) : p.IsOf kind :=
  Option.isSome_iff_exists.2 ⟨_, h⟩

/-- A property that is read for an element belongs to it. -/
lemma Catalogue.isOf_of_read {kind : Kind} {name text : String} {p : Property}
    (h : Catalogue.read kind name text = .ok p) : p.IsOf kind :=
  (conforms_of_read h).isOf

namespace Declared

variable {d : Declared} {typeName tag name : String} {names names' : Names}

/-- The properties that are declared were read from the attributes. -/
lemma exists_read_of_ofAttributes {kind : Kind} {attributes : List Xml.Attribute}
    (h : ofAttributes kind tag attributes = .ok d) :
    ∀ p ∈ d.properties, ∃ name text, Catalogue.read kind name text = .ok p := by
  have read : ∀ (attributes : List Xml.Attribute) (d₀ d : Declared),
      (∀ p ∈ d₀.properties, ∃ name text, Catalogue.read kind name text = .ok p) →
      attributes.foldlM (add kind tag) d₀ = .ok d →
      ∀ p ∈ d.properties, ∃ name text, Catalogue.read kind name text = .ok p := by
    intro attributes
    induction attributes with
    | nil =>
      intro d₀ d h₀ h
      cases h
      exact h₀
    | cons entry attributes ih =>
      intro d₀ d h₀ h
      rw [List.foldlM_cons] at h
      obtain ⟨d₁, h₁, h⟩ := Except.bind_eq_ok.1 h
      refine ih d₁ d ?_ h
      unfold add at h₁
      split at h₁
      · split at h₁
        · cases h₁
          exact h₀
        · cases h₁
      · cases h₁
        exact h₀
      · cases h₁
        exact h₀
      · cases h₁
        exact h₀
      · split at h₁
        · next p hp =>
          cases h₁
          exact List.forall_mem_append.2 ⟨h₀, List.forall_mem_singleton.2 ⟨_, _, hp⟩⟩
        · cases h₁
          exact h₀
  exact read attributes {} d (fun _ h => (List.not_mem_nil h).elim) h

/-- They are in the catalogue. -/
lemma known_of_ofAttributes {kind : Kind} {attributes : List Xml.Attribute}
    (h : ofAttributes kind tag attributes = .ok d) : ∀ p ∈ d.properties, p.IsOf kind :=
  fun p hp => by
    obtain ⟨_, _, hread⟩ := exists_read_of_ofAttributes h p hp
    exact Catalogue.isOf_of_read hread

/-- A name that is declared without an error is taken. -/
lemma takes_of_declare (h : declare typeName names name = .ok names') :
    names.Takes [name] names' := by
  unfold declare at h
  split at h
  · next hd =>
    cases h
    exact Names.takes_of_declare? hd
  · cases h

/-- Of a field and a layout id each is taken, but only once if they are equal. -/
lemma takes_of_takeNames (h : d.takeNames typeName names = .ok names') :
    names.Takes (d.field.toList ++ (d.layout.id.filter (some · ≠ d.field)).toList) names' := by
  cases hf : d.field with
  | none =>
    cases hi : d.layout.id with
    | none =>
      rw [takeNames, hf, hi] at h
      cases h
      exact .nil names
    | some id =>
      rw [takeNames, hf, hi] at h
      exact takes_of_declare h
  | some field =>
    cases hi : d.layout.id with
    | none =>
      rw [takeNames, hf, hi] at h
      obtain ⟨names₁, hd, h⟩ := Except.bind_eq_ok.1 h
      cases h
      exact takes_of_declare hd
    | some id =>
      rw [takeNames, hf, hi] at h
      obtain ⟨names₁, hd, h⟩ := Except.bind_eq_ok.1 h
      simp only at h
      refine (takes_of_declare hd).append ?_
      by_cases heq : field = id
      · rw [if_pos (congrArg some heq)] at h
        cases h
        simpa [heq, Option.filter_some] using Names.Takes.nil names'
      · have hne : id ≠ field := Ne.symm heq
        rw [if_neg fun he => heq (Option.some.inj he)] at h
        simpa [Option.filter_some, hne] using takes_of_declare h

/-- An element takes a name, and a layout id of another name with it. -/
lemma takes_of_name (h : d.name typeName tag names = .ok (name, names')) :
    names.Takes (name :: (d.layout.id.filter (· ≠ name)).toList) names' ∧
      ∀ field, d.field = some field → name = field := by
  rw [Declared.name] at h
  obtain ⟨names₁, ht, h⟩ := Except.bind_eq_ok.1 h
  have taken := takes_of_takeNames ht
  cases hf : d.field with
  | some field =>
    rw [hf] at h taken
    cases h
    refine ⟨?_, fun _ h => Option.some.inj h⟩
    simpa using taken
  | none =>
    refine ⟨?_, fun _ h => by cases h⟩
    rw [hf] at h taken
    cases hi : d.layout.id with
    | some id =>
      rw [hi] at h taken
      cases h
      simpa [Option.filter_some] using taken
    | none =>
      rw [hi] at h taken
      have made := names₁.takes_makeUp tag
      rw [Except.ok.inj h] at made
      exact taken.append made

end Declared

/-! ### Reading the elements of a scope -/

namespace Element

/-- What reading the elements of a type grants, from the names taken before and after. -/
structure Reads (typeName : String) (names : Names) (es : List Element) (names' : Names) : Prop where
  /-- The elements, and those inside them, take names of their own. -/
  takes : names.Takes ((walkAll es).flatMap takenNames) names'
  /-- They are regular. -/
  regular : ∀ e ∈ walkAll es, e.IsRegular
  /-- What the definitions in place have from the type. -/
  encloses : ∀ e ∈ walkAll es, e.Encloses typeName
  /-- The definitions in place are scopes. -/
  isScope : ∀ d ∈ definitionsAll es, d.IsScope

/-- No elements are read. -/
lemma Reads.nil (typeName : String) (names : Names) : Reads typeName names [] names :=
  ⟨.nil names, fun _ h => (List.not_mem_nil h).elim, fun _ h => (List.not_mem_nil h).elim,
    fun _ h => (List.not_mem_nil h).elim⟩

section Reads

variable {typeName : String} {names names' names'' : Names} {e : Element} {es : List Element}

/-- One element is read and then others. -/
lemma Reads.cons (h : Reads typeName names [e] names') (h' : Reads typeName names' es names'') :
    Reads typeName names (e :: es) names'' := by
  have hw : walkAll (e :: es) = walkAll [e] ++ walkAll es := by simp [walkAll]
  have hd : definitionsAll (e :: es) = definitionsAll [e] ++ definitionsAll es := by
    simp [definitionsAll]
  refine ⟨?_, fun x hx => ?_, fun x hx => ?_, fun d hx => ?_⟩
  · rw [hw, List.flatMap_append]
    exact h.takes.append h'.takes
  · rw [hw] at hx
    exact (List.mem_append.1 hx).elim (h.regular x) (h'.regular x)
  · rw [hw] at hx
    exact (List.mem_append.1 hx).elim (h.encloses x) (h'.encloses x)
  · rw [hd] at hx
    exact (List.mem_append.1 hx).elim (h.isScope d) (h'.isScope d)

/-- An element with what is inside it. -/
lemma Reads.inside (he : names.Takes e.takenNames names') (hr : e.IsRegular)
    (h : Reads typeName names' e.children names'') (henc : e.Encloses typeName)
    (hi : ∀ d, e.reference = some (.inline d) → ∀ d' ∈ d.definitions, d'.IsScope) :
    Reads typeName names [e] names'' := by
  have hw : walkAll [e] = e :: walkAll e.children := by
    rw [walkAll_cons, walkAll, List.append_nil]
  refine ⟨?_, fun x hx => ?_, fun x hx => ?_, fun d hd => ?_⟩
  · rw [hw, List.flatMap_cons]
    exact he.append h.takes
  · rw [hw] at hx
    rcases List.mem_cons.1 hx with rfl | hx
    · exact hr
    · exact h.regular x hx
  · rw [hw] at hx
    rcases List.mem_cons.1 hx with rfl | hx
    · exact henc
    · exact h.encloses x hx
  · obtain ⟨kind, field, layout, properties, styles, children, reference, name⟩ := e
    rw [definitionsAll, definitionsAll, List.append_nil, definitions.eq_def, List.mem_append] at hd
    rcases hd with hd | hd
    · split at hd
      · next d' => exact hi d' rfl d hd
      · cases hd
    · exact h.isScope d hd

/-- The definition in place that elements make up is a scope, and so are those inside it. -/
lemma Reads.inline {around : Surroundings} {written : Option String} {name : String}
    (h : Reads (around.inside written name).typeName {} es names) {d : Definition}
    (hd : around.reference written name es = some (.inline d)) :
    (∀ d' ∈ d.definitions, d'.IsScope) ∧ d.properties = [] ∧
      (d.isAnonymous = true → d.typeName = around.typeName ++ "_" ++ name) := by
  cases es with
  | nil =>
    rw [Surroundings.reference] at hd
    cases written <;> cases hd
  | cons e es =>
    cases hd
    refine ⟨fun d' hd' => ?_, rfl, fun ha => ?_⟩
    · rw [Surroundings.inline, Definition.definitions] at hd'
      rcases List.mem_cons.1 hd' with rfl | hd'
      · exact ⟨h.takes.nodup, h.regular, h.encloses, fun _ h => (List.not_mem_nil h).elim⟩
      · exact h.isScope d' hd'
    · rw [Surroundings.inline, Option.isNone_iff_eq_none] at ha
      rw [Surroundings.inline, ha, Option.getD_none]

end Reads

mutual

/-- **Reading a tag** gives an element which, with all that is inside it, takes names that were free
before. -/
theorem ofNode_spec (around : Surroundings) (names : Names) {e : Element} {names' : Names} :
    (n : Xml.Node) → ofNode around names n = .ok (e, names') →
      Reads around.typeName names [e] names'
  | ⟨tag, attributes, children⟩, h => by
    rw [ofNode] at h
    split at h
    · cases h
    · next kind _ =>
      obtain ⟨d, hd, h⟩ := Except.bind_eq_ok.1 h
      obtain ⟨⟨name, names₁⟩, hname, h⟩ := Except.bind_eq_ok.1 h
      obtain ⟨taken, named⟩ := Declared.takes_of_name hname
      have known := Declared.known_of_ofAttributes hd
      -- Whatever is put into the element, it has this name and this layout id.
      have single : ∀ reference : Option TypeReference,
          (∀ d', reference = some (.inline d') → (∀ d'' ∈ d'.definitions, d''.IsScope) ∧
            d'.properties = [] ∧
            (d'.isAnonymous = true → d'.typeName = around.typeName ++ "_" ++ name)) →
          Reads around.typeName names
            [⟨kind, d.field, d.layout, d.properties, d.styles, [], reference, name⟩] names₁ :=
        fun reference hi => .inside taken ⟨named, fun _ => rfl, known⟩ (.nil _ names₁)
          (fun d' hd' => (hi d' hd').2) fun d' hd' => (hi d' hd').1
      simp only at h
      split at h
      · next hk =>
        obtain ⟨⟨inner, names₂⟩, hinner, h⟩ := Except.bind_eq_ok.1 h
        cases h
        have inside := ofNodes_spec around names₁ children hinner
        exact .inside taken
          ⟨named, fun hk' => (Bool.false_ne_true (hk'.symm.trans hk)).elim, known⟩ inside
          (fun _ h => nomatch h) fun _ h => nomatch h
      · split at h
        · -- a component
          obtain ⟨⟨inner, names₂⟩, hinner, h⟩ := Except.bind_eq_ok.1 h
          have inside := ofNodes_spec _ {} children hinner
          simp only at h
          split at h
          · next r hr =>
            cases h
            exact single (some r) fun d' hd' => inside.inline (hr.trans hd')
          · cases h
        · -- a list without a row
          cases h
          refine single _ fun d' hd' => ?_
          obtain ⟨_, _, he⟩ := Option.map_eq_some_iff.1 hd'
          cases he
        · -- a list with one element inside
          split at h
          · obtain ⟨⟨inner, names₂⟩, hinner, h⟩ := Except.bind_eq_ok.1 h
            have inside := ofNodes_spec _ {} _ hinner
            cases h
            exact single _ fun d' hd' => inside.inline hd'
          · cases h
        · cases h
          exact single none fun _ h => nomatch h
        · cases h

termination_by n => sizeOf n
decreasing_by all_goals (subst_vars; simp +arith)

/-- **Reading tags** gives elements that take names of their own. -/
theorem ofNodes_spec (around : Surroundings) (names : Names) {es : List Element} {names' : Names} :
    (ns : List Xml.Node) → ofNodes around names ns = .ok (es, names') →
      Reads around.typeName names es names'
  | [], h => by
    rw [ofNodes] at h
    cases h
    exact .nil _ names
  | n :: ns, h => by
    rw [ofNodes] at h
    obtain ⟨⟨e, names₁⟩, he, h⟩ := Except.bind_eq_ok.1 h
    obtain ⟨⟨es, names₂⟩, hes, h⟩ := Except.bind_eq_ok.1 h
    cases h
    exact (ofNode_spec around names n he).cons (ofNodes_spec around names₁ ns hes)
termination_by ns => sizeOf ns
decreasing_by all_goals simp +arith

end

end Element

/-! ### Parsed definitions -/

mutual

/-- What is in place inside a definition that is in place inside an element is so inside the
element. -/
lemma Element.definitions_subset {d : Definition} : (e : Element) → d ∈ e.definitions →
    d.definitions ⊆ e.definitions
  | ⟨_, _, _, _, _, children, none, _⟩, hd => Element.definitionsAll_subset children hd
  | ⟨_, _, _, _, _, children, some (.named _), _⟩, hd => Element.definitionsAll_subset children hd
  | ⟨_, _, _, _, _, children, some (.inline d'), _⟩, hd => by
    rw [Element.definitions.eq_def] at hd ⊢
    rcases List.mem_append.1 hd with hd | hd
    · exact List.subset_append_of_subset_left _ (Definition.definitions_subset d' hd)
    · exact List.subset_append_of_subset_right _ (Element.definitionsAll_subset children hd)

/-- The definitions of a definition in an element are definitions in that element. -/
lemma Element.definitionsAll_subset {d : Definition} : (es : List Element) →
    d ∈ Element.definitionsAll es → d.definitions ⊆ Element.definitionsAll es
  | e :: es, hd => by
    rw [Element.definitionsAll] at hd ⊢
    rcases List.mem_append.1 hd with hd | hd
    · exact List.subset_append_of_subset_left _ (Element.definitions_subset e hd)
    · exact List.subset_append_of_subset_right _ (Element.definitionsAll_subset es hd)

/-- The definitions of a definition in a document are definitions in that document. -/
lemma Definition.definitions_subset {d : Definition} : (d' : Definition) → d ∈ d'.definitions →
    d.definitions ⊆ d'.definitions
  | ⟨typeName, isRoot, isAnonymous, styles, properties, children⟩, hd => by
    rw [Definition.definitions] at hd
    rcases List.mem_cons.1 hd with rfl | hd
    · exact List.Subset.refl _
    · rw [Definition.definitions]
      exact List.subset_cons_of_subset _ (Element.definitionsAll_subset children hd)

end

namespace Definition

/-- A definition comes from a document: it is the one that the document declares, or one in place
inside it. -/
def IsParsed (d : Definition) : Prop :=
  ∃ text root, ofText text = .ok root ∧ d ∈ root.definitions

/-- The definitions in place inside a parsed one are parsed. -/
lemma IsParsed.of_mem_definitions {d d' : Definition} (h : d.IsParsed) (hd : d' ∈ d.definitions) :
    d'.IsParsed := by
  obtain ⟨text, root, hr, hm⟩ := h
  exact ⟨text, root, hr, definitions_subset root hm hd⟩

/-- The properties of the root were read from the attributes. -/
lemma exists_read_of_mem_rootProperties {attributes : List Xml.Attribute} :
    ∀ p ∈ rootProperties attributes,
      ∃ name text, Catalogue.read .container name text = .ok p := by
  intro p hp
  obtain ⟨⟨key, value⟩, -, he⟩ := List.mem_filterMap.1 hp
  simp only at he
  split at he
  · cases hr : Catalogue.read .container key value with
    | error e =>
      rw [hr] at he
      cases he
    | ok q =>
      rw [hr] at he
      cases he
      exact ⟨key, value, hr⟩
  · cases he

/-- The properties of the root tag belong to containers. -/
lemma known_rootProperties (attributes : List Xml.Attribute) :
    ∀ p ∈ rootProperties attributes, p.IsOf .container := fun p hp => by
  obtain ⟨_, _, hread⟩ := exists_read_of_mem_rootProperties p hp
  exact Catalogue.isOf_of_read hread

/-- In every scope of a document, each element takes names of its own. -/
theorem IsParsed.isScope {d : Definition} (h : d.IsParsed) : d.IsScope := by
  obtain ⟨text, root, hr, hd⟩ := h
  obtain ⟨node, _, hr⟩ := Except.bind_eq_ok.1 hr
  rw [ofRoot] at hr
  split at hr
  · cases hr
  · obtain ⟨typeName, _, hr⟩ := Except.bind_eq_ok.1 hr
    obtain ⟨styles, _, hr⟩ := Except.bind_eq_ok.1 hr
    obtain ⟨⟨es, names⟩, hes, hr⟩ := Except.bind_eq_ok.1 hr
    have reads := Element.ofNodes_spec _ _ _ hes
    cases hr
    rw [definitions] at hd
    rcases List.mem_cons.1 hd with rfl | hd
    · exact ⟨reads.takes.nodup, reads.regular, reads.encloses, known_rootProperties _⟩
    · exact reads.isScope d hd

end Definition

/-- The names of the elements of a parsed scope are different. -/
theorem Definition.IsParsed.nodup_names {d : Definition} (h : d.IsParsed) :
    (d.elements.map (·.name)).Nodup := by
  have names : ∀ es : List Element,
      (es.map (·.name)).Sublist (es.flatMap Element.takenNames) := by
    intro es
    induction es with
    | nil => exact .slnil
    | cons e es ih => exact (ih.trans (List.sublist_append_right _ _)).cons_cons e.name
  exact h.isScope.nodup.sublist (names _)

/-! ### Elements at any depth -/

namespace Element

/-- The fields of elements and of all elements inside, in document order. -/
def fieldsOf (es : List Element) : List String := (walkAll es).filterMap (·.field)

/-- The fields of an element are its own and those inside it. -/
lemma fieldsOf_singleton (e : Element) : fieldsOf [e] = e.field.toList ++ fieldsOf e.children := by
  rw [fieldsOf, walkAll_cons, List.filterMap_cons, walkAll, List.append_nil]
  cases e.field <;> rfl

/-- The fields of elements are those of the first and those of the others. -/
lemma fieldsOf_cons (e : Element) (es : List Element) :
    fieldsOf (e :: es) = fieldsOf [e] ++ fieldsOf es := by
  rw [fieldsOf_singleton, fieldsOf, walkAll_cons, List.filterMap_cons, List.filterMap_append]
  cases e.field <;> rfl

/-- What holds of the elements of a document at any depth: no two of a scope have the same field,
only those that take others have some inside, and every definition in place is a scope. -/
structure AreSound (es : List Element) : Prop where
  /-- Different elements have different fields. -/
  nodup_fields : (fieldsOf es).Nodup
  /-- Elements are inside those that may have some. -/
  children_eq_nil : ∀ e ∈ walkAll es, e.kind.acceptsChildren = false → e.children = []
  /-- The definitions in place are scopes. -/
  isScope : ∀ d ∈ definitionsAll es, d.IsScope

namespace AreSound

variable {e : Element} {es : List Element}

/-- The first element is sound by itself. -/
lemma head (h : AreSound (e :: es)) : AreSound [e] where
  nodup_fields := by
    have := h.nodup_fields
    rw [fieldsOf_cons] at this
    exact (List.nodup_append.1 this).1
  children_eq_nil x hx := h.children_eq_nil x (walkAll_singleton_subset e es hx)
  isScope d hd := h.isScope d (by
    rw [definitionsAll, definitionsAll, List.append_nil] at hd
    rw [definitionsAll]
    exact List.mem_append_left _ hd)

/-- The elements behind the first are sound. -/
lemma tail (h : AreSound (e :: es)) : AreSound es where
  nodup_fields := by
    have := h.nodup_fields
    rw [fieldsOf_cons] at this
    exact (List.nodup_append.1 this).2.1
  children_eq_nil x hx := h.children_eq_nil x (walkAll_subset_cons e es hx)
  isScope d hd := h.isScope d (by
    rw [definitionsAll]
    exact List.mem_append_right _ hd)

/-- The elements inside the first are sound. -/
lemma children (h : AreSound [e]) : AreSound e.children where
  nodup_fields := by
    have := h.nodup_fields
    rw [fieldsOf_singleton] at this
    exact (List.nodup_append.1 this).2.1
  children_eq_nil x hx := h.children_eq_nil x (walkAll_children_subset e [] hx)
  isScope d hd := h.isScope d (by
    cases e
    rw [definitionsAll, definitionsAll, List.append_nil, definitions.eq_def]
    exact List.mem_append_right _ hd)

/-- A field of an element is not one of those after it. -/
lemma not_mem_tail (h : AreSound (e :: es)) {f : String} (hf : f ∈ fieldsOf [e]) :
    f ∉ fieldsOf es := by
  have := h.nodup_fields
  rw [fieldsOf_cons] at this
  exact fun hf' => (List.nodup_append.1 this).2.2 f hf f hf' rfl

/-- A field inside an element is not that of the element. -/
lemma field_ne (h : AreSound [e]) {f : String} (hf : f ∈ fieldsOf e.children) :
    e.field ≠ some f := by
  intro he
  have := h.nodup_fields
  rw [fieldsOf_singleton, he] at this
  exact (List.nodup_append.1 this).2.2 f (List.mem_singleton_self f) f hf rfl

end AreSound

end Element

namespace Definition

/-- The elements of a definition are sound if it and all definitions in place inside it are
scopes. -/
lemma areSound {d : Definition} (h : ∀ d' ∈ d.definitions, d'.IsScope) :
    Element.AreSound d.children := by
  obtain ⟨typeName, isRoot, isAnonymous, styles, properties, children⟩ := d
  rw [definitions, List.forall_mem_cons] at h
  refine ⟨?_, fun e he => (h.1.regular e he).children_eq_nil, h.2⟩
  have named : ∀ es : List Element, (∀ e ∈ es, e.IsRegular) →
      (es.filterMap (·.field)).Sublist (es.flatMap Element.takenNames) := by
    intro es
    induction es with
    | nil => exact fun _ => .slnil
    | cons e es ih =>
      intro hr
      rw [List.forall_mem_cons] at hr
      rw [List.flatMap_cons, Element.takenNames]
      cases hf : e.field with
      | none =>
        rw [List.filterMap_cons_none hf]
        exact (ih hr.2).trans (List.sublist_append_right _ _)
      | some field =>
        rw [List.filterMap_cons_some hf, hr.1.name_of_field field hf, List.cons_append]
        exact ((ih hr.2).trans (List.sublist_append_right _ _)).cons_cons field
  exact h.1.nodup.sublist (named _ h.1.regular)

/-- The elements of a definition that was read are sound. -/
lemma IsParsed.areSound {d : Definition} (h : d.IsParsed) : Element.AreSound d.children :=
  Definition.areSound fun _ hd => (h.of_mem_definitions hd).isScope

/-- The elements of a definition in place are sound if those around it are. -/
lemma areSound_inline {d : Definition} {e : Element} (h : Element.AreSound [e])
    (hd : e.reference = some (.inline d)) : Element.AreSound d.children := by
  refine Definition.areSound fun d' hd' => h.isScope d' ?_
  obtain ⟨kind, field, layout, properties, styles, children, reference, name⟩ := e
  cases hd
  rw [Element.definitionsAll, Element.definitionsAll, List.append_nil, Element.definitions.eq_def]
  exact List.mem_append_left _ hd'

end Definition

end ViewMarkup
