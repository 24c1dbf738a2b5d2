import ViewMarkup.Proofs.Document.Duplicates

/-!
# The shape of parsed definitions

A definition that is read mirrors its document. The definitions in place stand in the order of the tags
that hold their elements, components and rows of lists, and the elements of each are those of the tags
of its scope. What an element may have inside, what it refers to and what it is called can be read off
its tag; a definition in place has no properties of its own, and its type is the one that is written or
is made up from the type around it.

Every definition carries the styles of the document. These are the tags of the blocks that do not stand
inside another block: the entries of a block are not searched for further ones.

## Main definitions

* `Xml.Node.walk` — a tag and all tags inside.
* `Xml.Node.holdsElements`, `Xml.Node.holder?` — the tags that definitions in place are written in.
* `Xml.Node.blocks`, `Xml.Node.AreApart` — the blocks of styles, and those that do not stand inside
  another one.
* `Element.StemsFrom`, `Definition.StemsFrom` — how elements and definitions come from tags.

## Main statements

* `Element.ofNodes_readOff` — reading tags.
* `Xml.Node.styleTags_eq` — the styles of blocks that stand apart.
* `Definition.ofText_shape` — the shape of what a document defines.
-/

namespace ViewMarkup

open Xml (Node)

/-! ### Tags and what they hold -/

namespace Xml.Node

mutual

/-- A tag and the tags inside, each before those inside it. -/
def walk : Node → List Node
  | ⟨tag, attributes, children⟩ => ⟨tag, attributes, children⟩ :: walkAll children

/-- The walks of tags, one after the other. -/
def walkAll : List Node → List Node
  | [] => []
  | n :: ns => walk n ++ walkAll ns

end

/-- A walk through tags: the first, those inside it, and those behind it. -/
lemma walkAll_cons (n : Node) (ns : List Node) :
    walkAll (n :: ns) = n :: (walkAll n.children ++ walkAll ns) := by
  cases n
  rw [walkAll, walk, List.cons_append]

/-- The tags inside are smaller than the tag. -/
lemma sizeOf_children_lt (n : Node) : sizeOf n.children < sizeOf n := by
  cases n
  simp +arith

/-- Whether a tag holds the elements of a definition in place: it is a component or a list's row, and
there are tags inside. -/
def holdsElements (n : Node) : Bool :=
  (n.tag = componentTag || n.tag = cellTag) && !n.children.isEmpty

/-- The tag that the definition in place of an element is written in: a component itself, and the row
inside a list. -/
def holder? (n : Node) : Option Node := if n.tag = componentTag then some n else n.children.head?

/-- The tags that a definition in place holds are smaller than the tag that refers to it. -/
lemma sizeOf_children_lt_of_holder? {n holder : Node} (h : n.holder? = some holder) :
    sizeOf holder.children < sizeOf n := by
  unfold holder? at h
  split at h
  · cases h
    exact n.sizeOf_children_lt
  · have hmem := List.sizeOf_lt_of_mem (List.mem_of_mem_head? h)
    have := holder.sizeOf_children_lt
    have := n.sizeOf_children_lt
    omega

/-- The tags that hold the elements of the definitions in place inside tags, in document order. -/
def holders (ns : List Node) : List Node := (walkAll ns).filter (·.holdsElements)

/-- Without tags, none holds elements. -/
@[simp] lemma holders_nil : holders [] = [] := rfl

/-- The tags that hold elements: the first one, those inside it, and those behind it. -/
lemma holders_cons (n : Node) (ns : List Node) :
    holders (n :: ns) =
      (if n.holdsElements then [n] else []) ++ holders n.children ++ holders ns := by
  rw [holders, walkAll_cons, List.filter_cons, List.filter_append]
  split <;> simp [holders]

end Xml.Node

/-- The tag of a component is that of no other kind, -/
lemma Kind.ofTag?_eq_component {tag : String} : ofTag? tag = some .component ↔ tag = componentTag := by
  refine ⟨fun h => ?_, fun h => by rw [h]; decide⟩
  unfold ofTag? at h
  split at h
  · cases h
  · have htag : component.tag = tag := by simpa using List.find?_some h
    exact htag.symm

/-- and that of a row is that of none. -/
lemma Kind.ofTag?_cellTag : ofTag? cellTag = none := by decide

namespace Xml.Node

variable {n : Node} {kind : Kind}

/-- Among the tags of elements, only a component may hold a definition. -/
lemma holdsElements_eq_false (h : Kind.ofTag? n.tag = some kind) (hk : kind ≠ .component) :
    n.holdsElements = false := by
  have hcomponent : n.tag ≠ componentTag := fun ht =>
    hk (Option.some.inj (h.symm.trans (Kind.ofTag?_eq_component.2 ht)))
  have hcell : n.tag ≠ cellTag := fun ht => by
    rw [ht, Kind.ofTag?_cellTag] at h
    cases h
  simp [holdsElements, hcomponent, hcell]

/-- A component or a cell holds elements if it has any inside. -/
lemma holdsElements_eq (h : n.tag = componentTag ∨ n.tag = cellTag) :
    n.holdsElements = !n.children.isEmpty := by
  rcases h with h | h <;> simp [holdsElements, h]

/-- The tag of an element is followed by those inside it, if its kind accepts children. -/
lemma scopeTagsAll_singleton (h : Kind.ofTag? n.tag = some kind) :
    scopeTagsAll [n] = n :: if kind.acceptsChildren then scopeTagsAll n.children else [] := by
  obtain ⟨tag, attributes, children⟩ := n
  rw [scopeTagsAll, scopeTagsAll, List.append_nil, scopeTags, h, Option.any_some]

end Xml.Node

/-! ### How elements and definitions come from tags -/

/-- A definition in place that the element of a name refers to in the scope of a type, with the tag of the
element. -/
structure Definition.IsInlineOf (typeName name : String) (n : Node) (r : TypeReference)
    (d : Definition) : Prop where
  /-- It has the type that is referred to. -/
  typeName_eq : r.typeName = d.typeName
  /-- It has elements. -/
  children_ne_nil : d.children ≠ []
  /-- Its root has no properties. -/
  properties_eq_nil : d.properties = []
  /-- It is not the root of a screen. -/
  isRoot_eq_false : d.isRoot = false
  /-- It is anonymous if no type is written. -/
  isAnonymous_iff : ∃ holder, n.holder? = some holder ∧
    (d.isAnonymous = true ↔ holder.get? "type" = none)
  /-- Then its type is made up from the one around it and the name of the element. -/
  typeName_of_isAnonymous : d.isAnonymous = true → d.typeName = typeName ++ "_" ++ name

/-- **How an element comes from a tag** in the scope of a type. -/
structure Element.StemsFrom (typeName : String) (n : Node) (e : Element) : Prop where
  /-- Its kind is that of the tag. -/
  kind_eq : Kind.ofTag? n.tag = some e.kind
  /-- Other elements are inside only if the kind accepts them. -/
  acceptsChildren : e.children ≠ [] → e.kind.acceptsChildren = true
  /-- A component refers to a type. -/
  isSome_reference : e.kind = .component → e.reference.isSome = true
  /-- Of the others only a list may refer to one. -/
  kind_of_reference : e.reference.isSome = true → e.kind = .component ∨ e.kind = .listView
  /-- A definition in place. -/
  inline : ∀ r d, e.reference = some r → r.definition? = some d →
    d.IsInlineOf typeName e.name n r
  /-- The field is the one that is declared. -/
  field_eq : e.field = n.field?
  /-- So is the layout id. -/
  id_eq : e.layout.id = n.layoutId?
  /-- The name is the field, else the layout id, else one that is made up. -/
  name_eq : ∃ k, e.name =
    (n.field?.or n.layoutId?).getD (Names.madeUp (Names.word n.tag) (k + 1))

/-- **How a definition comes from the tag that holds its elements**, with the styles of the document. -/
structure Definition.StemsFrom (styles : List Style) (n : Node) (d : Definition) : Prop where
  /-- It carries the styles. -/
  styles_eq : d.styles = styles
  /-- It is anonymous if no type is written. -/
  isAnonymous_iff : d.isAnonymous = true ↔ n.get? "type" = none
  /-- Else it has the type that is written. -/
  typeName_eq : ∀ t, n.get? "type" = some t → d.typeName = t
  /-- Its elements come from the tags of its scope, in document order. -/
  elements : List.Forall₂ (Element.StemsFrom d.typeName) (Node.scopeTagsAll n.children) d.elements

/-- The name of an element whose attributes are read. -/
lemma Declared.exists_name_eq {d : Declared} {typeName tag name : String} {names names' : Names}
    (h : d.name typeName tag names = .ok (name, names')) :
    ∃ k, name = (d.field.or d.layout.id).getD (Names.madeUp (Names.word tag) (k + 1)) := by
  obtain ⟨names₁, -, h⟩ := Except.bind_eq_ok.1 h
  cases hn : d.field.or d.layout.id with
  | some x =>
    rw [hn] at h
    cases h
    exact ⟨0, rfl⟩
  | none =>
    rw [hn] at h
    obtain ⟨start, tries, hstart, -, -, -, hmade⟩ := names₁.makeUp_search tag
    rw [hmade] at h
    cases h
    refine ⟨(names₁.lastNumber.get? (Names.word tag)).getD 0 + tries, ?_⟩
    rw [hstart, Option.getD_none]
    congr 1
    omega

namespace Element

/-! ### Reading tags -/

/-- What reading tags grants: the elements come from the tags of the scope, and the definitions in place
from those that hold their elements. -/
structure ReadOff (around : Surroundings) (ns : List Node) (es : List Element) : Prop where
  /-- The elements of the scope. -/
  elements : List.Forall₂ (StemsFrom around.typeName) (Node.scopeTagsAll ns) (walkAll es)
  /-- The definitions in place. -/
  definitions : List.Forall₂ (Definition.StemsFrom around.styles) (Node.holders ns)
    (definitionsAll es)

namespace ReadOff

variable {around : Surroundings} {n : Node} {ns : List Node} {e : Element} {es : List Element}

/-- No tags are read off. -/
lemma nil (around : Surroundings) : ReadOff around [] [] := ⟨.nil, .nil⟩

/-- One tag is read off and then others. -/
lemma cons (h : ReadOff around [n] [e]) (h' : ReadOff around ns es) :
    ReadOff around (n :: ns) (e :: es) := by
  refine ⟨?_, ?_⟩
  · have := List.rel_append h.elements h'.elements
    simpa [Node.scopeTagsAll, walkAll] using this
  · have := List.rel_append h.definitions h'.definitions
    simpa [Node.holders_cons, definitionsAll] using this

/-- An element that has others inside. -/
lemma inside (he : e.StemsFrom around.typeName n) (ha : e.kind.acceptsChildren = true)
    (h : ReadOff around n.children e.children) : ReadOff around [n] [e] := by
  have hcomponent : e.kind ≠ .component := fun hk => by
    rw [hk] at ha
    cases ha
  have hreference : e.inline? = none := by
    cases hr : e.reference with
    | none => rw [inline?, hr, Option.bind_none]
    | some r =>
      rcases he.kind_of_reference (by rw [hr, Option.isSome_some]) with hk | hk <;>
        rw [hk] at ha <;> cases ha
  refine ⟨?_, ?_⟩
  · rw [Node.scopeTagsAll_singleton he.kind_eq, if_pos ha, walkAll_cons, walkAll, List.append_nil]
    exact .cons he h.elements
  · rw [Node.holders_cons, Node.holdsElements_eq_false he.kind_eq hcomponent, definitionsAll_cons,
      hreference]
    simpa [definitionsAll] using h.definitions

/-- An element that has no others inside. -/
lemma single (he : e.StemsFrom around.typeName n) (ha : e.kind.acceptsChildren = false)
    (hd : List.Forall₂ (Definition.StemsFrom around.styles) (Node.holders [n])
      ((e.inline?.map (·.definitions)).getD [])) : ReadOff around [n] [e] := by
  have hchildren : e.children = [] := by
    by_contra hne
    exact Bool.false_ne_true (ha.symm.trans (he.acceptsChildren hne))
  refine ⟨?_, ?_⟩
  · rw [Node.scopeTagsAll_singleton he.kind_eq, ha, walkAll_cons, hchildren, walkAll]
    exact .cons he .nil
  · rw [definitionsAll_cons, hchildren]
    simpa [definitionsAll] using hd

/-- There are elements where there are tags. -/
lemma eq_nil_iff (h : ReadOff around ns es) : es = [] ↔ ns = [] := by
  constructor
  · rintro rfl
    have hnil := List.forall₂_nil_right_iff.1 h.elements
    match ns, hnil with
    | [], _ => rfl
    | ⟨tag, attributes, children⟩ :: ns, hnil =>
      rw [Node.scopeTagsAll, Node.scopeTags] at hnil
      cases hnil
  · rintro rfl
    have hnil := List.forall₂_nil_left_iff.1 h.elements
    match es, hnil with
    | [], _ => rfl
    | e :: es, hnil =>
      rw [walkAll_cons] at hnil
      cases hnil

/-- The definitions in place that a reference comes with, where the tags in its holder are read. -/
lemma reference {written : Option String} {name : String} {holder : Node}
    (hw : written = holder.get? "type") (ht : holder.tag = componentTag ∨ holder.tag = cellTag)
    (h : ReadOff (around.inside written name) holder.children es) :
    List.Forall₂ (Definition.StemsFrom around.styles) (Node.holders [holder])
      ((((around.reference written name es).bind (·.definition?)).map (·.definitions)).getD []) := by
  rw [Node.holders_cons, Node.holders_nil, List.append_nil, Node.holdsElements_eq ht]
  cases es with
  | nil =>
    have hchildren := h.eq_nil_iff.1 rfl
    have hnone : (around.reference written name []).bind (·.definition?) = none := by
      cases written <;> rfl
    rw [hchildren, hnone]
    exact .nil
  | cons e es =>
    have hchildren : holder.children ≠ [] := fun hnil => List.cons_ne_nil _ _ (h.eq_nil_iff.2 hnil)
    have hdefinitions : (around.inline written name (e :: es)).definitions =
        around.inline written name (e :: es) :: definitionsAll (e :: es) := by
      rw [Surroundings.inline, Definition.definitions]
    rw [List.isEmpty_eq_false_iff.2 hchildren]
    show List.Forall₂ _ _ (around.inline written name (e :: es)).definitions
    rw [hdefinitions]
    refine .cons ⟨rfl, ?_, fun t ht => ?_, h.elements⟩ h.definitions
    · rw [← hw]
      exact Option.isNone_iff_eq_none
    · rw [hw, Surroundings.inline, ht, Option.getD_some]

end ReadOff

/-- The definition in place of an element is made up as its tag says. -/
lemma isInlineOf_of_reference {around : Surroundings} {written : Option String} {name : String}
    {n holder : Node} {es : List Element} {r : TypeReference} {d : Definition}
    (hn : n.holder? = some holder) (hw : written = holder.get? "type")
    (hr : around.reference written name es = some r) (hd : r.definition? = some d) :
    d.IsInlineOf around.typeName name n r := by
  cases es with
  | nil =>
    obtain ⟨t, -, rfl⟩ := Option.map_eq_some_iff.1 hr
    cases hd
  | cons e es =>
    cases hr
    cases hd
    refine ⟨rfl, List.cons_ne_nil e es, rfl, rfl, ⟨holder, hn, ?_⟩, fun ha => ?_⟩
    · rw [← hw]
      exact Option.isNone_iff_eq_none
    · rw [Surroundings.inline, Option.isNone_iff_eq_none] at ha
      rw [Surroundings.inline, ha, Option.getD_none]

/-- What a tag is read to. The elements inside belong to the same scope if the kind accepts them; those in
a component or in the row of a list are in a scope of their own; any other tag is empty. -/
lemma ofNode_cases {around : Surroundings} {names names' : Names} {n : Node} {e : Element}
    (h : ofNode around names n = .ok (e, names')) :
    ∃ d names₁, Kind.ofTag? n.tag = some e.kind ∧
      Declared.ofAttributes e.kind n.tag n.attributes = .ok d ∧
      d.name around.typeName n.tag names = .ok (e.name, names₁) ∧
      e.field = d.field ∧ e.layout = d.layout ∧
      ((e.kind.acceptsChildren = true ∧ e.reference = none ∧
          ofNodes around names₁ n.children = .ok (e.children, names')) ∨
        (e.kind.acceptsChildren = false ∧ e.children = [] ∧ ∃ holder es names₂,
          n.holder? = some holder ∧ Node.holders [n] = Node.holders [holder] ∧
          (holder.tag = componentTag ∨ holder.tag = cellTag) ∧
          (e.kind = .component ∧ e.reference.isSome = true ∨ e.kind = .listView) ∧
          ofNodes (around.inside (holder.get? "type") e.name) {} holder.children = .ok (es, names₂) ∧
          e.reference = around.reference (holder.get? "type") e.name es) ∨
        (e.kind.acceptsChildren = false ∧ e.children = [] ∧ n.children = [] ∧ e.kind ≠ .component ∧
          ∀ r, e.reference = some r → e.kind = .listView ∧ r.definition? = none)) := by
  obtain ⟨tag, attributes, children⟩ := n
  rw [ofNode] at h
  split at h
  · cases h
  · next kind hkind =>
    obtain ⟨d, hd, h⟩ := Except.bind_eq_ok.1 h
    obtain ⟨⟨name, names₁⟩, hname, h⟩ := Except.bind_eq_ok.1 h
    refine ⟨d, names₁, ?_⟩
    simp only at h
    split at h
    · next hk =>
      obtain ⟨⟨inner, names₂⟩, hinner, h⟩ := Except.bind_eq_ok.1 h
      cases h
      exact ⟨hkind, hd, hname, rfl, rfl, .inl ⟨hk, rfl, hinner⟩⟩
    · next hk =>
      have ha := Bool.eq_false_iff.2 hk
      have hlist : Kind.listView ≠ .component := by decide
      split at h
      · -- a component
        obtain ⟨⟨inner, names₂⟩, hinner, h⟩ := Except.bind_eq_ok.1 h
        simp only at h
        split at h
        · next r hr =>
          cases h
          have htag := Kind.ofTag?_eq_component.1 hkind
          exact ⟨hkind, hd, hname, rfl, rfl, .inr (.inl ⟨ha, rfl, ⟨tag, attributes, children⟩, inner,
            names₂, if_pos htag, rfl, .inl htag, .inl ⟨rfl, rfl⟩, hinner, hr.symm⟩)⟩
        · cases h
      · -- a list without a row
        cases h
        refine ⟨hkind, hd, hname, rfl, rfl, .inr (.inr ⟨ha, rfl, rfl, hlist, fun r hr => ⟨rfl, ?_⟩⟩)⟩
        obtain ⟨t, -, rfl⟩ := Option.map_eq_some_iff.1 hr
        rfl
      · -- a list with one element inside
        next childTag childAttributes rows _ _ =>
        split at h
        · next hcell =>
          obtain ⟨⟨inner, names₂⟩, hinner, h⟩ := Except.bind_eq_ok.1 h
          cases h
          have hne : tag ≠ componentTag := fun htag => by
            cases hkind.symm.trans (Kind.ofTag?_eq_component.2 htag)
          refine ⟨hkind, hd, hname, rfl, rfl, .inr (.inl ⟨ha, rfl,
            ⟨childTag, childAttributes, rows⟩, inner, names₂, if_neg hne, ?_, .inr hcell, .inr rfl,
            hinner, rfl⟩)⟩
          rw [Node.holders_cons, Node.holdsElements_eq_false hkind hlist]
          simp
        · cases h
      · next hcomponent _ _ _ =>
        cases h
        exact ⟨hkind, hd, hname, rfl, rfl,
          .inr (.inr ⟨ha, rfl, rfl, hcomponent, fun r hr => by cases hr⟩)⟩
      · cases h

mutual

/-- **Reading a tag** gives an element that comes from it, with all that is inside. -/
theorem ofNode_readOff (around : Surroundings) (names : Names) {e : Element} {names' : Names}
    (n : Node) (h : ofNode around names n = .ok (e, names')) : ReadOff around [n] [e] := by
  obtain ⟨d, names₁, hkind, hd, hname, hfield, hlayout, h⟩ := ofNode_cases h
  obtain ⟨hf, hi⟩ := Declared.names_of_ofAttributes hd
  have named := Declared.exists_name_eq hname
  rw [hf, hi] at named
  rw [← hfield] at hf
  rw [← hlayout] at hi
  rcases h with ⟨hk, hr, h⟩ | ⟨hk, hc, holder, es, names₂, hn, heq, htag, hkinds, h, hr⟩ |
    ⟨hk, hc, hnil, hcomponent, hr⟩
  · -- the elements inside belong to the same scope
    refine .inside ⟨hkind, fun _ => hk, fun hc => ?_, fun hs => ?_, fun _ _ hs => ?_, hf, hi, named⟩ hk
      (ofNodes_readOff around names₁ n.children h)
    · rw [hc] at hk
      cases hk
    · rw [hr] at hs
      cases hs
    · rw [hr] at hs
      cases hs
  · -- they are in a scope of their own
    have inside := ofNodes_readOff _ {} holder.children h
    refine .single ⟨hkind, fun hne => (hne hc).elim, fun hc => ?_, fun _ => ?_, fun r d hs hd => ?_, hf,
      hi, named⟩ hk ?_
    · rcases hkinds with ⟨-, hs⟩ | hlist
      · exact hs
      · rw [hc] at hlist
        cases hlist
    · exact hkinds.imp_left And.left
    · exact isInlineOf_of_reference hn rfl (hr.symm.trans hs) hd
    · rw [heq, inline?, hr]
      exact inside.reference rfl htag
  · -- there are none
    refine .single ⟨hkind, fun hne => (hne hc).elim, fun hc => (hcomponent hc).elim, fun hs => ?_,
      fun r d hs hd => ?_, hf, hi, named⟩ hk ?_
    · obtain ⟨r, hs⟩ := Option.isSome_iff_exists.1 hs
      exact .inr (hr r hs).1
    · rw [(hr r hs).2] at hd
      cases hd
    · have hnone : e.inline? = none := Option.bind_eq_none_iff.2 fun r hs => (hr r hs).2
      rw [hnone, Node.holders_cons, Node.holdsElements_eq_false hkind hcomponent, hnil]
      exact .nil
termination_by sizeOf n
decreasing_by
  · exact Node.sizeOf_children_lt n
  · exact Node.sizeOf_children_lt_of_holder? hn

/-- **Reading tags** gives elements that come from them. -/
theorem ofNodes_readOff (around : Surroundings) (names : Names) {es : List Element} {names' : Names} :
    (ns : List Node) → ofNodes around names ns = .ok (es, names') → ReadOff around ns es
  | [], h => by
    rw [ofNodes] at h
    cases h
    exact .nil around
  | n :: ns, h => by
    rw [ofNodes] at h
    obtain ⟨⟨e, names₁⟩, he, h⟩ := Except.bind_eq_ok.1 h
    obtain ⟨⟨es, names₂⟩, hes, h⟩ := Except.bind_eq_ok.1 h
    cases h
    exact (ofNode_readOff around names n he).cons (ofNodes_readOff around names₁ ns hes)
termination_by ns => sizeOf ns
decreasing_by all_goals simp +arith

end

end Element

/-! ### The styles of a document -/

namespace Xml.Node

/-- The blocks of styles inside tags, at any depth and in document order. -/
def blocks (ns : List Node) : List Node := (walkAll ns).filter (·.tag = stylesTag)

/-- The tags of the styles in all these blocks. -/
def entries (ns : List Node) : List Node := (blocks ns).flatMap (·.children)

/-- Only empty blocks stand inside another one. -/
def AreApart (ns : List Node) : Prop := ∀ n ∈ blocks ns, entries n.children = []

/-- The blocks of styles: the first tag, those inside it, and those behind it. -/
lemma blocks_cons (n : Node) (ns : List Node) :
    blocks (n :: ns) = (if n.tag = stylesTag then [n] else []) ++ blocks n.children ++ blocks ns := by
  rw [blocks, walkAll_cons, List.filter_cons, List.filter_append]
  simp only [decide_eq_true_eq]
  split <;> simp [blocks]

/-- The entries of blocks: of the first tag, of those inside it, and of those behind it. -/
lemma entries_cons (n : Node) (ns : List Node) :
    entries (n :: ns) =
      (if n.tag = stylesTag then n.children else []) ++ entries n.children ++ entries ns := by
  rw [entries, blocks_cons]
  split <;> simp [entries]

/-- The entries that are collected do not go on below an entry. -/
lemma styleTagsOf_cons (n : Node) (ns : List Node) :
    styleTagsOf (n :: ns) =
      (if n.tag = stylesTag then n.children else styleTagsOf n.children) ++ styleTagsOf ns := by
  cases n
  rw [styleTagsOf, styleTags]

/-- The entries of a document are those of its tags. -/
theorem styleTags_eq (n : Node) : n.styleTags = styleTagsOf n.children := by
  cases n
  rw [styleTags]

/-- Blocks without entries are apart. -/
lemma areApart_of_entries_eq_nil {ns : List Node} (h : entries ns = []) : AreApart ns := by
  intro n hn
  rw [List.flatMap_eq_nil_iff.1 h n hn]
  rfl

/-- Blocks are apart if those inside the first tag are, and those behind it. -/
lemma areApart_cons_iff {n : Node} {ns : List Node} :
    AreApart (n :: ns) ↔
      (if n.tag = stylesTag then entries n.children = [] else AreApart n.children) ∧ AreApart ns := by
  unfold AreApart
  rw [blocks_cons]
  simp only [List.forall_mem_append]
  split
  · simp only [List.forall_mem_singleton]
    exact and_congr_left fun _ => and_iff_left_of_imp areApart_of_entries_eq_nil
  · simp

/-- Induction over tags with the tags inside them. -/
@[elab_as_elim]
lemma induction_inside {P : List Node → Prop} (nil : P [])
    (cons : ∀ n ns, P n.children → P ns → P (n :: ns)) (ns : List Node) : P ns := by
  induction hsize : sizeOf ns using Nat.strong_induction_on generalizing ns with
  | _ size ih =>
    subst hsize
    cases ns with
    | nil => exact nil
    | cons n ns =>
      have := n.sizeOf_children_lt
      refine cons n ns (ih _ ?_ _ rfl) (ih _ ?_ _ rfl) <;>
        simp only [List.cons.sizeOf_spec] <;> omega

/-- What is read is part of what the blocks hold, -/
lemma styleTagsOf_sublist (ns : List Node) : (styleTagsOf ns).Sublist (entries ns) := by
  induction ns using induction_inside with
  | nil =>
    rw [styleTagsOf]
    exact List.nil_sublist _
  | cons n ns hchildren hns =>
    rw [styleTagsOf_cons, entries_cons]
    refine .append ?_ hns
    split
    · exact List.sublist_append_left _ _
    · exact hchildren

/-- Where the parts are sublists, only equal parts make up equal lists. -/
lemma append_eq_append_iff {xs xs' ys ys' : List Node} (hx : xs.Sublist xs') (hy : ys.Sublist ys') :
    xs ++ ys = xs' ++ ys' ↔ xs = xs' ∧ ys = ys' := by
  refine ⟨fun heq => ?_, fun ⟨hx, hy⟩ => by rw [hx, hy]⟩
  have hlength := congrArg List.length heq
  rw [List.length_append, List.length_append] at hlength
  have := hx.length_le
  have := hy.length_le
  exact ⟨hx.eq_of_length (by omega), hy.eq_of_length (by omega)⟩

/-- **and it is all that they hold if they stand apart**, and only then. -/
theorem styleTagsOf_eq_iff (ns : List Node) : styleTagsOf ns = entries ns ↔ AreApart ns := by
  induction ns using induction_inside with
  | nil => simp [styleTagsOf, entries, blocks, walkAll, AreApart]
  | cons n ns hchildren hns =>
    rw [styleTagsOf_cons, entries_cons, areApart_cons_iff]
    split
    · rw [append_eq_append_iff (List.sublist_append_left _ _) (styleTagsOf_sublist ns), hns,
        List.self_eq_append_right]
    · rw [List.nil_append, append_eq_append_iff (styleTagsOf_sublist _) (styleTagsOf_sublist ns), hns,
        hchildren]

end Xml.Node

/-- Styles are read one by one. -/
lemma Style.ofNodes_eq_mapM (ns : List Node) : ofNodes ns = ns.mapM ofNode := by
  induction ns with
  | nil => rfl
  | cons n ns ih =>
    rw [ofNodes, List.mapM_cons, ih]
    rfl

/-! ### Documents -/

namespace Xml.Node

/-- Leaving out the styles leaves the attributes. -/
lemma get?_withoutStyles (n : Node) (name : String) : n.withoutStyles.get? name = n.get? name := by
  cases n
  rw [withoutStyles]
  rfl

/-- An attribute that is required is there. -/
lemma get?_of_require {n : Node} {name value : String} (h : n.require name = .ok value) :
    n.get? name = some value := by
  unfold require at h
  split at h
  · next hv =>
    cases h
    exact hv
  · cases h

end Xml.Node

namespace Definition

/-- **The shape of what a document defines.** The definitions come from the tags that hold their elements,
the root and the components and rows with tags inside, in document order, and the elements of each from
the tags of its scope. All of them carry the styles of the document; these are all the styles in its blocks
if only empty blocks stand inside another one, and else only those of the outer blocks. -/
theorem ofText_shape {text : String} {d : Definition} (h : ofText text = .ok d) :
    ∃ root styles, Node.read text = .ok root ∧
      List.Forall₂ (fun n s => Style.ofNode n = .ok s) root.styleTags styles ∧
      (List.Forall₂ (fun n s => Style.ofNode n = .ok s) (Node.entries root.children) styles ↔
        Node.AreApart root.children) ∧
      List.Forall₂ (StemsFrom styles)
        (root.withoutStyles :: Node.holders root.withoutStyles.children) d.definitions := by
  obtain ⟨root, hroot, h⟩ := Except.bind_eq_ok.1 h
  rw [ofRoot] at h
  split at h
  · cases h
  obtain ⟨typeName, htype, h⟩ := Except.bind_eq_ok.1 h
  obtain ⟨styles, hstyles, h⟩ := Except.bind_eq_ok.1 h
  obtain ⟨⟨es, names⟩, hes, h⟩ := Except.bind_eq_ok.1 h
  have outer := Except.mapM_eq_ok.1 ((Style.ofNodes_eq_mapM _).symm.trans hstyles)
  have read := Element.ofNodes_readOff _ _ _ hes
  cases h
  refine ⟨root, styles, hroot, outer, ?_, ?_⟩
  · rw [← Node.styleTagsOf_eq_iff, ← root.styleTags_eq]
    refine ⟨fun all => ?_, fun heq => heq ▸ outer⟩
    have hlength := outer.length_eq.trans all.length_eq.symm
    exact (root.styleTags_eq ▸ Node.styleTagsOf_sublist root.children).eq_of_length hlength
  · have hwritten : root.withoutStyles.get? "type" = some typeName := by
      rw [root.get?_withoutStyles]
      exact Node.get?_of_require htype
    rw [definitions]
    refine .cons ⟨rfl, ?_, fun t ht => ?_, read.elements⟩ read.definitions
    · simp [hwritten]
    · exact Option.some.inj (hwritten.symm.trans ht)

/-- A document with a block of styles inside an entry of another block. -/
def blockInBlock : String :=
  "<Component type=\"A\"><styles><LabelStyle name=\"a\"><styles><LabelStyle name=\"b\"/></styles>"
    ++ "</LabelStyle></styles><Component layout:id=\"c\"><Label/></Component></Component>"

/-- Its style `b` is carried neither by the document's own definition nor by the one in place. -/
theorem ofText_blockInBlock :
    ∃ root styles d, Node.read blockInBlock = .ok root ∧ ofText blockInBlock = .ok d ∧
      (Node.entries root.children).map (·.get? "name") = [some "a", some "b"] ∧
      styles.map (·.name) = ["a"] ∧
      List.Forall₂ (StemsFrom styles)
        (root.withoutStyles :: Node.holders root.withoutStyles.children) d.definitions ∧
      d.definitions.map (·.typeName) = ["A", "A_c"] := by
  have hr : Node.read blockInBlock = .ok ⟨"Component", [("type", "A")],
      [⟨"styles", [], [⟨"LabelStyle", [("name", "a")],
        [⟨"styles", [], [⟨"LabelStyle", [("name", "b")], []⟩]⟩]⟩]⟩,
      ⟨"Component", [("layout:id", "c")], [⟨"Label", [], []⟩]⟩]⟩ := by
    unfold blockInBlock
    rw [← String.ofList_append, Xml.Node.read_ofList]
    cbv
  have htypes : (ofText blockInBlock).map (fun d => d.definitions.map (·.typeName)) =
      .ok ["A", "A_c"] := by
    rw [ofText, hr]
    cbv
  obtain ⟨d, hd, htypes⟩ := Except.map_eq_ok.1 htypes
  obtain ⟨root, styles, hroot, hstyles, -, hdefinitions⟩ := ofText_shape hd
  cases hr.symm.trans hroot
  refine ⟨_, styles, d, hr, hd, by decide +kernel, ?_, hdefinitions, htypes⟩
  have hstyle : Style.ofNode ⟨"LabelStyle", [("name", "a")],
      [⟨"styles", [], [⟨"LabelStyle", [("name", "b")], []⟩]⟩]⟩ = .ok ⟨"a", .label, [], []⟩ := by cbv
  obtain ⟨s, rest, hs, hrest, rfl⟩ := List.forall₂_cons_left_iff.1 hstyles
  cases hstyle.symm.trans hs
  rw [List.forall₂_nil_left_iff.1 hrest]
  rfl

end Definition

end ViewMarkup
