import ViewMarkup.Proofs.Document.InPlace
import ViewMarkup.Proofs.Document.References

/-!
# The order of a document

A definition is gone through in three ways: its elements are listed, the definitions in place inside it are
listed, and so are the types that it refers to. Where anything stands in a document is told by numbers. An
element has the numbers that lead to it from the top of its scope, and a reference inside definitions in
place has one such position for each scope on the way. Numbers are compared first to last, so what stands
around something comes before it, and what is written first comes first. All three lists are in this order.

## Main definitions

* `Definition.elementAt?` — the element at a position of a scope.
* `Definition.RefersAt` — a definition refers to a type, at an address.
* `Element.visit` — a walk with a stack.
* `Definition.collect` — the types that are noted when a definition is gone through.

## Main statements

* `Definition.mem_positioned_iff`, `Definition.pairwise_positioned` — the elements of a scope by position.
* `Definition.mem_occurrences_iff`, `Definition.pairwise_occurrences` — the references by address.
* `Definition.collect_eq` — noting each type when it is met first gives the list of all types.
* `Definition.listings_spec` — what the three lists are.
-/

namespace ViewMarkup

/-! ### Positions in a scope -/

namespace Element

/-- The element at a position: the number of an element, then of one inside it, and so on. -/
def at? : List Element → List Nat → Option Element
  | _, [] => none
  | es, [i] => es[i]?
  | es, i :: j :: p => es[i]?.bind fun e => at? e.children (j :: p)

mutual

/-- An element that has a given number among others, and all elements inside it, with their
positions. -/
def positioned (i : Nat) (e : Element) : List (List Nat × Element) :=
  match e with
  | ⟨_, _, _, _, _, children, _, _⟩ =>
      ([i], e) :: (positionedAll 0 children).map fun x => (i :: x.1, x.2)

/-- Elements, numbered from a given number on, and all elements inside them, with their positions. -/
def positionedAll (i : Nat) : List Element → List (List Nat × Element)
  | [] => []
  | e :: es => positioned i e ++ positionedAll (i + 1) es

end

/-- The elements with their addresses: the first, those inside it, and those behind it. -/
lemma positionedAll_cons (i : Nat) (e : Element) (es : List Element) :
    positionedAll i (e :: es) = ([i], e) ::
      ((positionedAll 0 e.children).map (fun x => (i :: x.1, x.2)) ++ positionedAll (i + 1) es) := by
  cases e
  rw [positionedAll, positioned, List.cons_append]

/-- The elements that have positions are those of the walk, in its order. -/
lemma map_snd_positionedAll (i : Nat) (es : List Element) :
    (positionedAll i es).map (·.2) = walkAll es := by
  induction es using induction_inside generalizing i with
  | nil => rw [positionedAll, walkAll, List.map_nil]
  | cons e es _ hchildren hes =>
    rw [positionedAll_cons, walkAll_cons, List.map_cons, List.map_append, List.map_map, hes,
      ← hchildren 0]
    rfl

/-- An address that begins with zero leads into the first element. -/
lemma at?_cons_zero (e : Element) (es : List Element) (p : List Nat) :
    at? (e :: es) (0 :: p) = if p = [] then some e else at? e.children p := by
  cases p <;> rfl

/-- Another one leads on to those behind it. -/
lemma at?_cons_succ (e : Element) (es : List Element) (i : Nat) (p : List Nat) :
    at? (e :: es) ((i + 1) :: p) = at? es (i :: p) := by
  cases p <;> rfl

/-- What has a position stands there. -/
lemma mem_positionedAll_iff {i : Nat} {es : List Element} {p : List Nat} {x : Element} :
    (p, x) ∈ positionedAll i es ↔ ∃ j q, p = (i + j) :: q ∧ at? es (j :: q) = some x := by
  induction es using induction_inside generalizing i p with
  | nil =>
    rw [positionedAll]
    refine iff_of_false List.not_mem_nil ?_
    rintro ⟨j, q, -, h⟩
    cases q <;> cases h
  | cons e es _ hchildren hes =>
    rw [positionedAll_cons, List.mem_cons, List.mem_append, List.mem_map, hes]
    constructor
    · rintro (h | ⟨⟨q, y⟩, hy, h⟩ | ⟨j, q, rfl, h⟩)
      · cases h
        exact ⟨0, [], rfl, rfl⟩
      · cases h
        obtain ⟨j, r, rfl, h⟩ := hchildren.1 hy
        rw [Nat.zero_add]
        exact ⟨0, j :: r, rfl, by rw [at?_cons_zero, if_neg (List.cons_ne_nil _ _), h]⟩
      · exact ⟨j + 1, q, by rw [Nat.add_right_comm, Nat.add_assoc], by rw [at?_cons_succ, h]⟩
    · rintro ⟨j, q, rfl, h⟩
      cases j with
      | succ j =>
        rw [at?_cons_succ] at h
        exact .inr (.inr ⟨j, q, by rw [Nat.add_right_comm, Nat.add_assoc], h⟩)
      | zero =>
        rw [at?_cons_zero] at h
        cases q with
        | nil =>
          cases h
          exact .inl rfl
        | cons j q =>
          rw [if_neg (List.cons_ne_nil _ _)] at h
          exact .inr (.inl ⟨(j :: q, x), hchildren.2 ⟨j, q, by rw [Nat.zero_add], h⟩, rfl⟩)

/-- Positions come in order: what is around an element before it, and what is written first first. -/
lemma pairwise_positionedAll (i : Nat) (es : List Element) :
    (positionedAll i es).Pairwise fun x y => x.1 < y.1 := by
  induction es using induction_inside generalizing i with
  | nil =>
    rw [positionedAll]
    exact .nil
  | cons e es _ hchildren hes =>
    have later : ∀ y ∈ positionedAll (i + 1) es, ∀ p, i :: p < y.1 := fun y hy p => by
      obtain ⟨j, q, hq, -⟩ := mem_positionedAll_iff.1 hy
      rw [hq, List.cons_lt_cons_iff]
      exact .inl (by omega)
    rw [positionedAll_cons, List.pairwise_cons, List.pairwise_append]
    refine ⟨fun y hy => ?_, ?_, hes (i + 1), fun x hx y hy => ?_⟩
    · rcases List.mem_append.1 hy with hy | hy
      · obtain ⟨⟨p, z⟩, hz, rfl⟩ := List.mem_map.1 hy
        obtain ⟨j, q, rfl, -⟩ := mem_positionedAll_iff.1 hz
        exact List.cons_lt_cons_self.2 (List.nil_lt_cons _ _)
      · exact later y hy []
    · rw [List.pairwise_map]
      exact (hchildren 0).imp List.cons_lt_cons_self.2
    · obtain ⟨x, -, rfl⟩ := List.mem_map.1 hx
      exact later y hy x.1

/-! ### A walk with a stack -/

/-- The walks through two lists, one after the other. -/
lemma walkAll_append (es es' : List Element) : walkAll (es ++ es') = walkAll es ++ walkAll es' := by
  induction es with
  | nil => rfl
  | cons e es ih => rw [List.cons_append, walkAll, walkAll, ih, List.append_assoc]

/-- **A walk with a stack**: the element on top is visited, and those directly inside it are put in its
place, the first one on top. -/
def visit : List Element → List Element
  | [] => []
  | e :: stack => e :: visit (e.children ++ stack)
termination_by stack => (walkAll stack).length
decreasing_by
  rw [walkAll_append, walkAll_cons]
  exact Nat.lt_succ_self _

/-- A walk with a stack lists the walks of the elements on it. -/
lemma visit_eq (stack : List Element) : visit stack = walkAll stack := by
  fun_induction visit stack with
  | case1 => rfl
  | case2 e stack ih => rw [ih, walkAll_append, walkAll_cons]

/-- A walk through a list visits its elements one after the other. -/
lemma walkAll_eq_flatMap (es : List Element) : walkAll es = es.flatMap fun e => visit [e] := by
  induction es with
  | nil => rfl
  | cons e es ih => rw [walkAll, ih, List.flatMap_cons, visit_eq, walkAll, walkAll, List.append_nil]

/-- The definitions in place inside elements are those that the elements in their walks carry, each followed
by those inside it. -/
lemma definitionsAll_eq_flatMap (es : List Element) :
    definitionsAll es = (walkAll es).flatMap fun e => (e.inline?.map (·.definitions)).getD [] := by
  induction es using induction_inside with
  | nil => rfl
  | cons e es _ hchildren hes =>
    rw [definitionsAll_cons, hchildren, hes, walkAll_cons, List.flatMap_cons, List.flatMap_append,
      List.append_assoc]

end Element

namespace Definition

/-- The element at a position of a definition's own scope. -/
def elementAt? (d : Definition) (p : List Nat) : Option Element := Element.at? d.children p

/-- The elements of a definition's own scope with their positions. -/
def positioned (d : Definition) : List (List Nat × Element) := Element.positionedAll 0 d.children

/-- The elements with addresses are the elements. -/
lemma map_snd_positioned (d : Definition) : d.positioned.map (·.2) = d.elements :=
  Element.map_snd_positionedAll 0 d.children

/-- They stand in the order of their addresses. -/
theorem pairwise_positioned (d : Definition) : d.positioned.Pairwise fun x y => x.1 < y.1 :=
  Element.pairwise_positionedAll 0 d.children

/-- What has a position stands there. -/
theorem mem_positioned_iff {d : Definition} {p : List Nat} {e : Element} :
    (p, e) ∈ d.positioned ↔ d.elementAt? p = some e := by
  rw [positioned, Element.mem_positionedAll_iff]
  constructor
  · rintro ⟨j, q, rfl, h⟩
    rwa [Nat.zero_add]
  · intro h
    cases p with
    | nil => cases h
    | cons j q => exact ⟨j, q, by rw [Nat.zero_add], h⟩

/-- What stands at an address is one of the elements. -/
lemma mem_elements_of_elementAt? {d : Definition} {p : List Nat} {e : Element}
    (h : d.elementAt? p = some e) : e ∈ d.elements := by
  rw [← map_snd_positioned]
  exact List.mem_map_of_mem (mem_positioned_iff.2 h)

/-- The definitions in place are those that the elements of the scope carry, each followed by those inside
it. -/
lemma definitions_eq_flatMap (d : Definition) :
    d.definitions = d :: d.elements.flatMap fun e => (e.inline?.map (·.definitions)).getD [] := by
  rw [elements, ← Element.definitionsAll_eq_flatMap]
  cases d
  rw [definitions]

/-- The type of a definition in place is one that is referred to. -/
lemma mentions_of_mem_definitions {d d' : Definition} (h : d' ∈ d.definitions) :
    d' = d ∨ d.Mentions d'.typeName := by
  induction d using induction_nested with
  | step d ih =>
    rw [definitions_eq_flatMap, List.mem_cons, List.mem_flatMap] at h
    refine h.imp_right ?_
    rintro ⟨e, he, h⟩
    cases hd : e.inline? with
    | none =>
      rw [hd] at h
      cases h
    | some nested =>
      rw [hd] at h
      have hr := Element.reference_of_inline? hd
      rcases ih e nested he hr h with rfl | hm
      · exact .here he hr
      · exact .inside he hr hm

/-! ### Addresses of references -/

/-- **A definition refers to a type at an address**: the position of the element that refers to it, after
those of the elements with the definitions in place around it, from the outside to the inside. -/
inductive RefersAt : Definition → List (List Nat) → String → Prop where
  /-- An element of the scope refers to the type. -/
  | here {d : Definition} {p : List Nat} {e : Element} {r : TypeReference} :
      d.elementAt? p = some e → e.reference = some r → RefersAt d [p] r.typeName
  /-- A definition in place refers to it. -/
  | inside {d nested : Definition} {p : List Nat} {e : Element} {a : List (List Nat)} {name : String} :
      d.elementAt? p = some e → e.reference = some (.inline nested) → RefersAt nested a name →
        RefersAt d (p :: a) name

/-- The types that a definition refers to, with the addresses. -/
def occurrences (d : Definition) : List (List (List Nat) × String) :=
  d.positioned.attach.flatMap fun x =>
    match _hr : x.1.2.reference with
    | some (.inline nested) =>
        ([x.1.1], nested.typeName) :: nested.occurrences.map fun o => (x.1.1 :: o.1, o.2)
    | some (.named typeName) => [([x.1.1], typeName)]
    | none => []
termination_by sizeOf d
decreasing_by
  refine sizeOf_lt_of_inline ?_ _hr
  rw [← map_snd_positioned]
  exact List.mem_map_of_mem x.2

end Definition

/-- The types that an element at a position brings to the references, with the addresses. -/
def Element.occurrences (p : List Nat) (e : Element) : List (List (List Nat) × String) :=
  match e.reference with
  | some (.inline nested) => ([p], nested.typeName) :: nested.occurrences.map fun o => (p :: o.1, o.2)
  | some (.named typeName) => [([p], typeName)]
  | none => []

namespace Definition

/-- The references with their addresses, element by element. -/
lemma occurrences_eq (d : Definition) :
    d.occurrences = d.positioned.flatMap fun x => x.2.occurrences x.1 := by
  rw [occurrences, List.flatMap_subtype (g := fun x => x.2.occurrences x.1), List.unattach_attach]
  intro x _
  unfold Element.occurrences
  split <;> next h => rw [show x.2.reference = _ from h]

/-- A reference stands at an address of the element that it is in. -/
lemma mem_occurrences {d : Definition} {a : List (List Nat)} {name : String} :
    (a, name) ∈ d.occurrences ↔
      ∃ p e, d.elementAt? p = some e ∧ (a, name) ∈ e.occurrences p := by
  simp only [occurrences_eq, List.mem_flatMap, Prod.exists, mem_positioned_iff]

end Definition

/-- The references of an element: its own, and those of the definition in place that it carries. -/
theorem Element.mem_occurrences_iff {p : List Nat} {e : Element} {a : List (List Nat)}
    {name : String} :
    (a, name) ∈ e.occurrences p ↔
      (∃ r, e.reference = some r ∧ a = [p] ∧ r.typeName = name) ∨
        ∃ nested b, e.reference = some (.inline nested) ∧ a = p :: b ∧ (b, name) ∈ nested.occurrences := by
  unfold occurrences
  match e.reference with
  | none => simp
  | some (.named typeName) => simp [TypeReference.typeName, eq_comm]
  | some (.inline nested) => simp [TypeReference.typeName, eq_comm, and_comm]

/-- The address of a reference begins with that of its element. -/
lemma Element.head_of_mem_occurrences {p : List Nat} {e : Element} {o : List (List Nat) × String}
    (h : o ∈ e.occurrences p) : ∃ b, o.1 = p :: b := by
  obtain ⟨a, name⟩ := o
  rcases mem_occurrences_iff.1 h with ⟨_, -, rfl, -⟩ | ⟨_, b, -, rfl, -⟩
  · exact ⟨[], rfl⟩
  · exact ⟨b, rfl⟩

/-- The references with addresses are the references of an element. -/
lemma Element.map_snd_occurrences {p : List Nat} {e : Element}
    (h : ∀ nested, e.reference = some (.inline nested) →
      nested.occurrences.map (·.2) = nested.references) :
    (e.occurrences p).map (·.2) = e.ownReferences := by
  unfold occurrences ownReferences
  match hr : e.reference with
  | none => rfl
  | some (.named typeName) => rfl
  | some (.inline nested) =>
    simp only [List.map_cons, List.map_map, ← h nested hr]
    rfl

namespace Definition

/-- The references by address are those that the definition makes. -/
theorem mem_occurrences_iff {d : Definition} {a : List (List Nat)} {name : String} :
    (a, name) ∈ d.occurrences ↔ d.RefersAt a name := by
  constructor
  · induction d using induction_nested generalizing a with
    | step d ih =>
      rw [mem_occurrences]
      rintro ⟨p, e, he, h⟩
      rcases Element.mem_occurrences_iff.1 h with ⟨r, hr, rfl, rfl⟩ | ⟨nested, b, hr, rfl, hb⟩
      · exact .here he hr
      · exact .inside he hr (ih e nested (mem_elements_of_elementAt? he) hr hb)
  · intro h
    induction h with
    | here he hr =>
      exact mem_occurrences.2 ⟨_, _, he, Element.mem_occurrences_iff.2 (.inl ⟨_, hr, rfl, rfl⟩)⟩
    | inside he hr _ ih =>
      exact mem_occurrences.2 ⟨_, _, he, Element.mem_occurrences_iff.2 (.inr ⟨_, _, hr, rfl, ih⟩)⟩

/-- The types are those of the references, in their order. -/
lemma map_snd_occurrences (d : Definition) : d.occurrences.map (·.2) = d.references := by
  induction d using induction_nested with
  | step d ih =>
    rw [occurrences_eq, List.map_flatMap, references_eq_flatMap, ← map_snd_positioned,
      List.flatMap_map]
    refine List.flatMap_congr fun x hx => Element.map_snd_occurrences fun nested hr => ?_
    exact ih x.2 nested (mem_elements_of_elementAt? (mem_positioned_iff.1 hx)) hr

/-- Addresses come in order: a reference before those of the definition in place that it carries. -/
theorem pairwise_occurrences (d : Definition) : d.occurrences.Pairwise fun x y => x.1 < y.1 := by
  induction d using induction_nested with
  | step d ih =>
    rw [occurrences_eq, List.pairwise_flatMap]
    refine ⟨fun x hx => ?_, d.pairwise_positioned.imp fun {x y} hlt o ho o' ho' => ?_⟩
    · have he := mem_elements_of_elementAt? (mem_positioned_iff.1 hx)
      unfold Element.occurrences
      match hr : x.2.reference with
      | none => exact .nil
      | some (.named typeName) => exact List.pairwise_singleton _ _
      | some (.inline nested) =>
        rw [List.pairwise_cons, List.pairwise_map]
        refine ⟨fun o ho => ?_, (ih x.2 nested he hr).imp List.cons_lt_cons_self.2⟩
        obtain ⟨⟨b, name⟩, hb, rfl⟩ := List.mem_map.1 ho
        refine List.cons_lt_cons_self.2 ?_
        cases mem_occurrences_iff.1 hb <;> exact List.nil_lt_cons _ _
    · obtain ⟨b, hb⟩ := Element.head_of_mem_occurrences ho
      obtain ⟨b', hb'⟩ := Element.head_of_mem_occurrences ho'
      rw [hb, hb', List.cons_lt_cons_iff]
      exact .inl hlt

end Definition

/-! ### Types that are noted when they are met first -/

/-- A name is noted behind others, if it is not noted yet. -/
def note (noted : List String) (name : String) : List String :=
  if name ∈ noted then noted else noted ++ [name]

/-- Of names that are noted one after the other each stays where it is first. -/
lemma foldl_note (names : List String) : names.foldl note [] = names.eraseDups := by
  induction names using List.reverseRecOn with
  | nil => rfl
  | append_singleton names name ih =>
    rw [List.foldl_append, ih, List.foldl_cons, List.foldl_nil, note, List.eraseDups_append]
    simp only [List.mem_eraseDups]
    by_cases h : name ∈ names <;> simp [List.cons_removeAll, List.eraseDups_cons, h]

/-- **Names stay in the order of what bears them first**: where names stand at increasing places, a name
that is kept before another one has a place before all places of that one. -/
theorem pairwise_eraseDups {α : Type} [LT α] (l : List (α × String))
    (h : l.Pairwise fun x y => x.1 < y.1) :
    (l.map (·.2)).eraseDups.Pairwise fun name name' =>
      ∃ a, (a, name) ∈ l ∧ ∀ b, (b, name') ∈ l → a < b := by
  induction hlen : l.length using Nat.strongRecOn generalizing l with
  | ind n ih =>
    subst hlen
    match l with
    | [] => exact .nil
    | (a, name) :: l =>
      rw [List.pairwise_cons] at h
      have others : (l.map (·.2)).filter (fun name' => !name' == name) =
          (l.filter fun x => !x.2 == name).map (·.2) := by
        rw [List.filter_map]
        rfl
      rw [List.map_cons, List.eraseDups_cons, others, List.pairwise_cons]
      have rest := ih _ (Nat.lt_succ_of_le (List.length_filter_le _ _)) _
        (h.2.filter fun x => !x.2 == name) rfl
      have ne_of_mem : ∀ {name'}, name' ∈ ((l.filter fun x => !x.2 == name).map (·.2)).eraseDups →
          name' ≠ name := fun hm => by
        obtain ⟨x, hx, rfl⟩ := List.mem_map.1 (List.mem_eraseDups.1 hm)
        simpa using (List.mem_filter.1 hx).2
      refine ⟨fun name' hm => ⟨a, List.mem_cons_self, fun b hb => ?_⟩,
        rest.imp_of_mem fun {x y} _ hy => ?_⟩
      · rcases List.mem_cons.1 hb with hb | hb
        · exact (ne_of_mem hm (Prod.mk.inj hb).2).elim
        · exact h.1 _ hb
      · rintro ⟨a', ha', hlt⟩
        refine ⟨a', List.mem_cons_of_mem _ (List.mem_filter.1 ha').1, fun b hb => hlt b ?_⟩
        rcases List.mem_cons.1 hb with hb | hb
        · exact (ne_of_mem hy (Prod.mk.inj hb).2).elim
        · exact List.mem_filter.2 ⟨hb, by simpa using ne_of_mem hy⟩

namespace Definition

/-- **The types that are noted when a definition is gone through**: those of its elements one after the
other, each followed by what is noted in the definition in place that the element carries. -/
def collect (noted : List String) (d : Definition) : List String :=
  d.elements.attach.foldl (fun noted e =>
    match _hr : e.1.reference with
    | some (.inline nested) => nested.collect (note noted nested.typeName)
    | some (.named typeName) => note noted typeName
    | none => noted) noted
termination_by sizeOf d
decreasing_by exact sizeOf_lt_of_inline e.2 _hr

/-- Going through a definition notes its references one after the other. -/
theorem collect_eq (noted : List String) (d : Definition) :
    d.collect noted = d.references.foldl note noted := by
  induction d using induction_nested generalizing noted with
  | step d ih =>
    rw [collect, references_eq_flatMap, List.foldl_flatMap,
      List.foldl_subtype (g := fun noted e => e.ownReferences.foldl note noted), List.unattach_attach]
    intro noted e he
    unfold Element.ownReferences
    split
    · next nested hr =>
      rw [show e.reference = _ from hr]
      exact ih e nested he hr _
    all_goals
      next hr =>
      rw [show e.reference = _ from hr]
      rfl

/-- The references by address, in the order of first appearance. -/
lemma pairwise_referencedTypes (d : Definition) :
    d.referencedTypes.Pairwise fun name name' =>
      ∃ a, d.RefersAt a name ∧ ∀ b, d.RefersAt b name' → a < b := by
  have h := pairwise_eraseDups d.occurrences d.pairwise_occurrences
  rw [map_snd_occurrences] at h
  refine h.imp fun {name name'} ⟨a, ha, hlt⟩ => ⟨a, mem_occurrences_iff.1 ha, fun b hb => ?_⟩
  exact hlt b (mem_occurrences_iff.2 hb)

/-- **What the three lists of a definition are.** The elements are those of the definition's own scope, at
each position one, in the order of positions; a walk with a stack lists them. The definitions are the
definition itself and then, element by element, the lists of the definitions in place that the elements
carry. The types are those that the definition refers to at any address, each once, in the order of the
first address: going through the definition, they are noted when they are met first. Among them are the
types of all definitions in place.

**Proof sketch.** Positions and addresses are given to all that is met, in order (`pairwise_positioned`,
`pairwise_occurrences`). Whoever notes each type when it is met first keeps the first address of each
(`foldl_note`, `pairwise_eraseDups`). -/
theorem listings_spec (d : Definition) :
    (d.positioned.map (·.2) = d.elements ∧ d.positioned.Pairwise (fun x y => x.1 < y.1) ∧
      (∀ p e, (p, e) ∈ d.positioned ↔ d.elementAt? p = some e) ∧
      d.elements = d.children.flatMap fun e => Element.visit [e]) ∧
    d.definitions =
      d :: d.elements.flatMap (fun e => (e.inline?.map (·.definitions)).getD []) ∧
    (d.referencedTypes = d.collect [] ∧ d.referencedTypes.Nodup ∧
      (∀ name, name ∈ d.referencedTypes ↔ ∃ a, d.RefersAt a name) ∧
      d.referencedTypes.Pairwise fun name name' =>
        ∃ a, d.RefersAt a name ∧ ∀ b, d.RefersAt b name' → a < b) ∧
    ∀ nested ∈ d.definitions.tail, nested.typeName ∈ d.referencedTypes := by
  refine ⟨⟨d.map_snd_positioned, d.pairwise_positioned, fun _ _ => mem_positioned_iff,
    Element.walkAll_eq_flatMap _⟩, d.definitions_eq_flatMap,
    ⟨?_, ?_, fun name => ?_, d.pairwise_referencedTypes⟩, fun nested h => ?_⟩
  · rw [collect_eq, foldl_note, referencedTypes]
  · refine d.pairwise_referencedTypes.imp fun hfirst heq => ?_
    obtain ⟨a, ha, hlt⟩ := hfirst
    exact List.lt_irrefl a (hlt a (heq ▸ ha))
  · rw [referencedTypes, List.mem_eraseDups, ← map_snd_occurrences, List.mem_map]
    constructor
    · rintro ⟨o, ho, rfl⟩
      exact ⟨o.1, mem_occurrences_iff.1 ho⟩
    · rintro ⟨a, ha⟩
      exact ⟨(a, name), mem_occurrences_iff.2 ha, rfl⟩
  · rw [definitions_eq_flatMap, List.tail_cons, List.mem_flatMap] at h
    obtain ⟨e, he, h⟩ := h
    cases hd : e.inline? with
    | none =>
      rw [hd] at h
      cases h
    | some d' =>
      rw [hd] at h
      have hr := Element.reference_of_inline? hd
      rw [mem_referencedTypes_iff]
      rcases mentions_of_mem_definitions h with rfl | hm
      · exact .here he hr
      · exact .inside he hr hm

end Definition

end ViewMarkup
