import ViewMarkup.Proofs.Naming

/-!
# Names that are declared twice

The tags of a document declare names, a field and a layout id each, in the scope of the component that
they belong to. Tags without one get a name made up, in the order of the document, the lowest free
number in it. A document is refused for a duplicate name only if a tag declares a name that is taken.

It may have been taken by another tag that declares it. Where no two tags of a scope declare the same
name, it was made up for a tag that stands before: a name made up is not taken back when it turns out
to be declared further on, so whether a document is refused depends on the order of its tags.

## Main definitions

* `Xml.Node.declared` — the names that a tag declares.
* `Xml.Node.scopes` — the tags of each scope of a document.
* `Names.Clashes` — a tag declares a name that is taken.
* `Xml.Node.Forestalls` — a name is made up before a tag that declares it.

## Main statements

* `Element.detects_ofNodes` — reading tags fails for a duplicate name if there is a clash.
* `Xml.Node.forestalls_of_clashes` — a clash without a name that is declared twice.
* `Definition.ofText_duplicateName` — which documents are refused.
-/

namespace ViewMarkup

/-! ### The names that a tag declares -/

namespace Xml.Node

/-- The trimmed value of the last attribute that is for something. -/
def last? (role : AttributeRole) (attributes : List Attribute) : Option String :=
  (attributes.reverse.find? (AttributeRole.ofKey ·.1 = role)).map (Text.trim ·.2)

/-- The field that a tag declares. -/
def field? (n : Node) : Option String := last? .field n.attributes

/-- The layout id that a tag declares. -/
def layoutId? (n : Node) : Option String := last? (.layout "id") n.attributes

/-- The names that a tag declares in its scope; a field and a layout id that are equal count once. -/
def declared (n : Node) : List String :=
  n.field?.toList ++ (n.layoutId?.filter (some · ≠ n.field?)).toList

/-- A tag declares a name once. -/
lemma nodup_declared (n : Node) : n.declared.Nodup := by
  unfold declared
  cases n.field? with
  | none => cases n.layoutId? <;> simp [Option.filter_some]
  | some field =>
    cases n.layoutId? with
    | none => simp
    | some id =>
      by_cases h : id = field
      · simp [Option.filter_some, h]
      · simp [Option.filter_some, h, Ne.symm h]

/-! ### The scopes of a document -/

mutual

/-- The tags of the scope that a tag belongs to: the tag and, if it may have elements, those inside,
in document order. -/
def scopeTags : Node → List Node
  | ⟨tag, attributes, children⟩ =>
      ⟨tag, attributes, children⟩ ::
        if (Kind.ofTag? tag).any (·.acceptsChildren) then scopeTagsAll children else []

/-- The tags of the scope that tags belong to. -/
def scopeTagsAll : List Node → List Node
  | [] => []
  | n :: ns => scopeTags n ++ scopeTagsAll ns

end

mutual

/-- The scopes inside a tag: those of components and of the rows of lists. -/
def innerScopes : Node → List (List Node)
  | ⟨tag, _, children⟩ =>
      match Kind.ofTag? tag with
      | none => []
      | some kind =>
          if kind.acceptsChildren then innerScopesAll children
          else
            match kind, children with
            | .component, children => scopeTagsAll children :: innerScopesAll children
            | .listView, [⟨childTag, _, rows⟩] =>
                if childTag = cellTag then scopeTagsAll rows :: innerScopesAll rows else []
            | _, _ => []

/-- The scopes inside tags. -/
def innerScopesAll : List Node → List (List Node)
  | [] => []
  | n :: ns => innerScopes n ++ innerScopesAll ns

end

/-- The scopes of a document, that of its root first. -/
def scopes (root : Node) : List (List Node) :=
  scopeTagsAll root.withoutStyles.children :: innerScopesAll root.withoutStyles.children

/-- No two tags of a scope declare the same name. -/
def AreDistinct (scope : List Node) : Prop :=
  scope.Pairwise fun n m => ∀ x ∈ n.declared, x ∉ m.declared

instance (scope : List Node) : Decidable (AreDistinct scope) :=
  inferInstanceAs (Decidable (scope.Pairwise _))

end Xml.Node

open Xml (Node)

/-! ### Taking names in document order -/

namespace Names

/-- The names taken after a tag: those that it declares, else one that is made up. -/
def after (names : Names) (n : Node) : Names :=
  if n.declared = [] then (names.makeUp n.tag).2
  else { names with taken := n.declared.reverse ++ names.taken }

/-- Among tags in document order, one declares a name that is taken when it is its turn. -/
def Clashes (x : String) (names : Names) : List Node → Prop
  | [] => False
  | n :: ns => (x ∈ n.declared ∧ x ∈ names.taken) ∨ Clashes x (names.after n) ns

variable {x : String} {names : Names} {n : Node}

/-- The names that are taken after a tag: those before, the declared ones, or the one made up. -/
lemma mem_after_iff :
    x ∈ (names.after n).taken ↔
      x ∈ names.taken ∨ x ∈ n.declared ∨ (n.declared = [] ∧ x = (names.makeUp n.tag).1) := by
  unfold after
  split
  · next h => simp [makeUp, h, or_comm]
  · next h => simp [h, or_comm]

/-- A name clashes among tags, or behind them with what they took. -/
lemma clashes_append_iff {ns ms : List Node} :
    Clashes x names (ns ++ ms) ↔ Clashes x names ns ∨ Clashes x (ns.foldl after names) ms := by
  induction ns generalizing names with
  | nil => simp [Clashes]
  | cons n ns ih =>
    rw [List.cons_append, Clashes, Clashes, ih, List.foldl_cons, or_assoc]

/-- A name that clashes is declared by some tag, and was taken before it. -/
lemma exists_of_clashes {ns : List Node} (h : Clashes x names ns) :
    ∃ (before : List Node) (n : Node) (rest : List Node), ns = before ++ n :: rest ∧
      x ∈ n.declared ∧ x ∈ (before.foldl after names).taken := by
  induction ns generalizing names with
  | nil => exact h.elim
  | cons n ns ih =>
    rcases h with ⟨hn, hx⟩ | h
    · exact ⟨[], n, ns, rfl, hn, hx⟩
    · obtain ⟨before, m, rest, rfl, hm, hx⟩ := ih h
      exact ⟨n :: before, m, rest, rfl, hm, hx⟩

/-- A name that is taken after tags is declared by one of them or made up for one of them. -/
lemma mem_foldl_after {ns : List Node} (h : x ∈ (ns.foldl after names).taken) :
    x ∈ names.taken ∨ ∃ (before : List Node) (n : Node) (between : List Node),
      ns = before ++ n :: between ∧ (x ∈ n.declared ∨
        (n.declared = [] ∧ x = ((before.foldl after names).makeUp n.tag).1)) := by
  induction ns using List.reverseRecOn with
  | nil => exact .inl h
  | append_singleton ns n ih =>
    rw [List.foldl_append, List.foldl_cons, List.foldl_nil, mem_after_iff] at h
    rcases h with h | h
    · rcases ih h with h | ⟨before, m, between, rfl, hm⟩
      · exact .inl h
      · exact .inr ⟨before, m, between ++ [n], by simp, hm⟩
    · exact .inr ⟨ns, n, [], rfl, h⟩

/-- Names are never given back. -/
lemma mem_foldl_after_of_mem (ns : List Node) (h : x ∈ names.taken) :
    x ∈ (ns.foldl after names).taken := by
  induction ns generalizing names with
  | nil => exact h
  | cons n ns ih => exact ih (mem_after_iff.2 (.inl h))

/-- All numbers up to the last one that was used for a tag are in names that are taken. -/
def Counts (names : Names) : Prop :=
  ∀ word i, i < (names.lastNumber.get? word).getD 0 → madeUp word (i + 1) ∈ names.taken

/-- A name is the one with the lowest number that is free. -/
def IsLowest (taken : List String) (tag x : String) : Prop :=
  ∃ k, x = madeUp (word tag) (k + 1) ∧ x ∉ taken ∧ ∀ i < k, madeUp (word tag) (i + 1) ∈ taken

/-- **A name that is made up** has the lowest number that is free in the scope. -/
theorem Counts.exists_makeUp_eq (h : names.Counts) (tag : String) :
    ∃ k, names.makeUp tag = (madeUp (word tag) (k + 1),
        { taken := madeUp (word tag) (k + 1) :: names.taken
          lastNumber := names.lastNumber.insert (word tag) (k + 1) }) ∧
      madeUp (word tag) (k + 1) ∉ names.taken ∧
      ∀ i < k, madeUp (word tag) (i + 1) ∈ names.taken := by
  obtain ⟨start, tries, hstart, -, htries, hfree, hmade⟩ := names.makeUp_search tag
  obtain ⟨last, rfl⟩ : ∃ last, start = last + 1 := ⟨_, hstart⟩
  obtain hlast : last = (names.lastNumber.get? (word tag)).getD 0 := Nat.succ.inj hstart
  rw [Nat.add_right_comm] at hmade hfree
  refine ⟨last + tries, hmade, hfree, fun i hi => ?_⟩
  rcases Nat.lt_or_ge i last with hlt | hge
  · exact h _ i (hlast ▸ hlt)
  · -- a number behind the last one was tried in vain
    obtain ⟨k, rfl⟩ := Nat.exists_eq_add_of_le hge
    rw [Nat.add_right_comm]
    exact htries k (by omega)

/-- A name that is made up has the lowest number that is free. -/
lemma Counts.isLowest_makeUp (h : names.Counts) (tag : String) :
    IsLowest names.taken tag (names.makeUp tag).1 := by
  obtain ⟨k, hmade, hfree, hbelow⟩ := h.exists_makeUp_eq tag
  rw [hmade]
  exact ⟨k, rfl, hfree, hbelow⟩

/-- There is only one such name. -/
lemma IsLowest.unique {taken : List String} {tag y : String} (h : IsLowest taken tag x)
    (h' : IsLowest taken tag y) : x = y := by
  obtain ⟨k, rfl, hfree, hbelow⟩ := h
  obtain ⟨k', rfl, hfree', hbelow'⟩ := h'
  rcases Nat.lt_trichotomy k k' with hlt | rfl | hlt
  · exact absurd (hbelow' k hlt) hfree
  · rfl
  · exact absurd (hbelow k' hlt) hfree'

/-- Made-up names go on being counted after a tag. -/
lemma Counts.after (h : names.Counts) (n : Node) : (names.after n).Counts := by
  intro w i hi
  unfold Names.after at hi ⊢
  split at hi
  · next hn =>
    obtain ⟨k, hmade, -, hbelow⟩ := h.exists_makeUp_eq n.tag
    rw [hmade, Table.get?_insert] at hi
    rw [if_pos hn, hmade]
    split at hi
    · next hw =>
      subst hw
      rcases Nat.lt_succ_iff_lt_or_eq.1 hi with hi | rfl
      · exact List.mem_cons_of_mem _ (hbelow i hi)
      · exact List.mem_cons_self
    · exact List.mem_cons_of_mem _ (h w i hi)
  · next hn =>
    rw [if_neg hn]
    exact List.mem_append_right _ (h w i hi)

/-- They do so after any tags. -/
lemma counts_foldl_after (ns : List Node) (h : names.Counts) : (ns.foldl Names.after names).Counts := by
  induction ns generalizing names with
  | nil => exact h
  | cons n ns ih => exact ih (h.after n)

/-- At first there is nothing to count. -/
lemma counts_empty : Names.Counts {} := fun _ _ hi => (Nat.not_lt_zero _ hi).elim

end Names

/-! ### Clashes without a name that is declared twice -/

namespace Xml.Node

/-- **A name is made up before a tag that declares it.** In a scope a tag without names stands before one
that declares the name, and it is the lowest one that is free when it is the first tag's turn. -/
def Forestalls (x : String) (scope : List Node) : Prop :=
  ∃ (before : List Node) (m : Node) (between : List Node) (n : Node) (after : List Node),
    scope = before ++ m :: (between ++ n :: after) ∧ m.declared = [] ∧
    Names.IsLowest (before.foldl Names.after {}).taken m.tag x ∧ x ∈ n.declared

variable {x : String} {scope : List Node}

/-- Where no two tags declare the same name, a name that is taken when a tag declares it was made up. -/
theorem forestalls_of_clashes (h : AreDistinct scope) (hc : Names.Clashes x {} scope) :
    Forestalls x scope := by
  obtain ⟨before, n, after, rfl, hn, hx⟩ := Names.exists_of_clashes hc
  rcases Names.mem_foldl_after hx with hx | ⟨before, m, between, rfl, hm⟩
  · cases hx
  rw [List.append_assoc, List.cons_append] at h ⊢
  rcases hm with hm | ⟨hm, rfl⟩
  · exact absurd hn ((List.pairwise_cons.1 (List.pairwise_append.1 h).2.1).1 n (by simp) x hm)
  · exact ⟨before, m, between, n, after, rfl, hm,
      (Names.counts_foldl_after before Names.counts_empty).isLowest_makeUp m.tag, hn⟩

/-- A name that is made up before it is declared is taken then. -/
lemma clashes_of_forestalls (h : Forestalls x scope) : Names.Clashes x {} scope := by
  obtain ⟨before, m, between, n, after, rfl, hm, hlow, hn⟩ := h
  have made := (Names.counts_foldl_after before Names.counts_empty).isLowest_makeUp m.tag
  rw [hlow.unique made] at hn ⊢
  rw [Names.clashes_append_iff, Names.Clashes, Names.clashes_append_iff, Names.Clashes]
  exact .inr (.inr (.inr (.inl ⟨hn, Names.mem_foldl_after_of_mem between
    (Names.mem_after_iff.2 (.inr (.inr ⟨hm, rfl⟩)))⟩)))

end Xml.Node

/-! ### What is read from a tag -/

/-- A layout attribute sets the id if it is called so. -/
lemma Layout.id_of_set {l l' : Layout} {name value : String} (h : l.set name value = .ok l') :
    l'.id = if name = "id" then some (Text.trim value) else l.id := by
  unfold Layout.set at h
  split at h
  · cases h
    rfl
  all_goals
    obtain ⟨_, -, rfl⟩ := Except.map_eq_ok.1 h
  iterate 6 exact (if_neg (by decide)).symm
  next hn _ _ _ _ _ _ _ => exact (if_neg hn).symm

namespace Declared

variable {kind : Kind} {tag typeName x : String} {attributes : List Xml.Attribute} {d : Declared}
  {names names' : Names}

/-- What is declared last is the last attribute of its role. -/
lemma last?_append_singleton (role : AttributeRole) (a : Xml.Attribute) :
    Node.last? role (attributes ++ [a]) =
      if AttributeRole.ofKey a.1 = role then some (Text.trim a.2) else Node.last? role attributes := by
  rw [Node.last?, List.reverse_append, List.reverse_singleton, List.singleton_append, List.find?_cons]
  split
  · next h => rw [if_pos (of_decide_eq_true h)]; rfl
  · next h => rw [if_neg (of_decide_eq_false h)]; rfl

/-- What one more attribute does to the field and the layout id. -/
lemma names_of_add {d₀ : Declared} {a : Xml.Attribute} (h : d₀.add kind tag a = .ok d) :
    (d.field = if AttributeRole.ofKey a.1 = .field then some (Text.trim a.2) else d₀.field) ∧
      d.layout.id =
        if AttributeRole.ofKey a.1 = .layout "id" then some (Text.trim a.2) else d₀.layout.id := by
  unfold add at h
  split at h
  · next name hrole =>
    split at h
    · next l hset =>
      cases h
      simp [hrole, Layout.id_of_set hset]
    · cases h
  · next hrole =>
    cases h
    simp [hrole]
  · next hrole =>
    cases h
    simp [hrole]
  · next hrole =>
    cases h
    simp [hrole]
  · next hrole =>
    split at h <;> cases h <;> simp [hrole]

/-- The field and the layout id are those that the tag declares. -/
lemma names_of_ofAttributes (h : ofAttributes kind tag attributes = .ok d) :
    d.field = Node.last? .field attributes ∧
      d.layout.id = Node.last? (.layout "id") attributes := by
  unfold ofAttributes at h
  induction attributes using List.reverseRecOn generalizing d with
  | nil =>
    cases h
    exact ⟨rfl, rfl⟩
  | append_singleton attributes a ih =>
    rw [List.foldlM_append] at h
    obtain ⟨d₀, h₀, h⟩ := Except.bind_eq_ok.1 h
    rw [List.foldlM_cons] at h
    obtain ⟨d₁, h, h₁⟩ := Except.bind_eq_ok.1 h
    cases h₁
    rw [last?_append_singleton, last?_append_singleton, ← (ih h₀).1, ← (ih h₀).2]
    exact names_of_add h

/-- Attributes are no reason to refuse a name. -/
lemma ofAttributes_ne_duplicateName {t : String} :
    ofAttributes kind tag attributes ≠ .error (.duplicateName x t) := by
  have fold : ∀ (attributes : List Xml.Attribute) (d₀ : Declared),
      attributes.foldlM (add kind tag) d₀ ≠ .error (.duplicateName x t) := by
    intro attributes
    induction attributes with
    | nil => exact fun _ h => nomatch h
    | cons a attributes ih =>
      intro d₀ h
      rw [List.foldlM_cons] at h
      rcases Except.bind_eq_error.1 h with h | ⟨d₁, -, h⟩
      · unfold add at h
        split at h
        · split at h <;> cases h
        · cases h
        · cases h
        · cases h
        · split at h <;> cases h
      · exact ih d₁ h
  exact fold attributes {}

/-- A name can be taken if it is free. -/
lemma declare_eq (typeName : String) (names : Names) (name : String) :
    declare typeName names name =
      if name ∈ names.taken then .error (.duplicateName name typeName)
      else .ok { names with taken := name :: names.taken } := by
  unfold declare Names.declare?
  split_ifs <;> rfl

/-- The field and the layout id are taken one after the other, but only once if they are equal. -/
lemma takeNames_eq (d : Declared) (typeName : String) (names : Names) :
    d.takeNames typeName names =
      (d.field.toList ++ (d.layout.id.filter (some · ≠ d.field)).toList).foldlM
        (declare typeName) names := by
  unfold takeNames
  cases d.field with
  | none =>
    cases d.layout.id with
    | none => rfl
    | some id =>
      rw [Option.filter_some, if_pos (by simp)]
      exact (bind_pure (declare typeName names id)).symm
  | some field =>
    cases d.layout.id with
    | none => rfl
    | some id =>
      by_cases h : id = field
      · subst h
        rw [Option.filter_some, if_neg (by simp)]
        simp only [if_pos]
        rfl
      · have hne : ¬ field = id := fun he => h he.symm
        simp [Option.filter_some, h, hne]

/-- What taking different names comes to: they were free, or one of them was taken. -/
lemma foldlM_declare (typeName : String) (names : Names) {xs : List String}
    (hnodup : xs.Nodup) :
    (∃ x ∈ xs, x ∈ names.taken ∧
        xs.foldlM (declare typeName) names = .error (.duplicateName x typeName)) ∨
      ((∀ x ∈ xs, x ∉ names.taken) ∧
        xs.foldlM (declare typeName) names =
          .ok { names with taken := xs.reverse ++ names.taken }) := by
  induction xs generalizing names with
  | nil => exact .inr ⟨fun _ h => (List.not_mem_nil h).elim, rfl⟩
  | cons y xs ih =>
    obtain ⟨hy, hnodup⟩ := List.nodup_cons.1 hnodup
    rw [List.foldlM_cons, declare_eq]
    split
    · next h => exact .inl ⟨y, List.mem_cons_self, h, rfl⟩
    · next h =>
      rcases ih { names with taken := y :: names.taken } hnodup with
        ⟨x, hx, htaken, he⟩ | ⟨hfree, hok⟩
      · refine .inl ⟨x, List.mem_cons_of_mem _ hx, ?_, he⟩
        exact (List.mem_cons.1 htaken).resolve_left fun heq => hy (heq ▸ hx)
      · refine .inr ⟨List.forall_mem_cons.2 ⟨h, fun x hx htaken => ?_⟩, hok.trans ?_⟩
        · exact hfree x hx (List.mem_cons_of_mem _ htaken)
        · rw [List.reverse_cons, List.append_assoc, List.singleton_append]

/-- **The name of a tag** can be taken if all that the tag declares is free. -/
theorem name_spec {n : Node} (h : ofAttributes kind n.tag n.attributes = .ok d) (typeName : String)
    (names : Names) :
    (∃ x ∈ n.declared, x ∈ names.taken ∧
        d.name typeName n.tag names = .error (.duplicateName x typeName)) ∨
      ((∀ x ∈ n.declared, x ∉ names.taken) ∧
        ∃ name, d.name typeName n.tag names = .ok (name, names.after n)) := by
  have hdeclared : d.field.toList ++ (d.layout.id.filter (some · ≠ d.field)).toList = n.declared := by
    rw [(names_of_ofAttributes h).1, (names_of_ofAttributes h).2]
    rfl
  unfold name
  rw [takeNames_eq, hdeclared]
  rcases foldlM_declare typeName names n.nodup_declared with
    ⟨x, hx, htaken, he⟩ | ⟨hfree, hok⟩
  · exact .inl ⟨x, hx, htaken, by rw [he]; rfl⟩
  · refine .inr ⟨hfree, ?_⟩
    rw [hok, Names.after, ← hdeclared]
    cases d.field with
    | none =>
      cases d.layout.id with
      | none => exact ⟨_, rfl⟩
      | some id => exact ⟨id, by simp [Option.filter_some]; rfl⟩
    | some field => exact ⟨field, by simp; rfl⟩

end Declared

/-! ### Reading the tags of a scope -/

namespace Element

/-- **What reading tags detects**: it fails for a name only if there is a clash in their scope or in one
inside, and it succeeds only if there is none. -/
def Detects {α : Type} (names : Names) (scope : List Node) (inner : List (List Node)) :
    Except DocumentError (α × Names) → Prop
  | .ok r => r.2 = scope.foldl Names.after names ∧ (∀ x, ¬ Names.Clashes x names scope) ∧
      ∀ s ∈ inner, ∀ x, ¬ Names.Clashes x {} s
  | .error e => ∀ x t, e = .duplicateName x t →
      Names.Clashes x names scope ∨ ∃ s ∈ inner, Names.Clashes x {} s

namespace Detects

variable {α β : Type} {names : Names} {n : Node} {scope scope' : List Node}
  {inner inner' : List (List Node)}

/-- An error of another kind tells nothing about names. -/
lemma error {e : DocumentError} (h : ∀ x t, e ≠ .duplicateName x t) :
    Detects names scope inner (.error e : Except DocumentError (α × Names)) :=
  fun x t he => (h x t he).elim

/-- Where there are no tags, no name is taken twice. -/
lemma nothing {a : α} : Detects names [] [] (.ok (a, names)) :=
  ⟨rfl, fun _ => id, fun _ hs => (List.not_mem_nil hs).elim⟩

/-- A tag clashes if one of its names is taken. -/
lemma name {kind : Kind} {d : Declared} (h : Declared.ofAttributes kind n.tag n.attributes = .ok d)
    (typeName : String) (names : Names) : Detects names [n] [] (d.name typeName n.tag names) := by
  rcases Declared.name_spec h typeName names with ⟨x, hx, htaken, he⟩ | ⟨hfree, name, hok⟩
  · rw [he]
    intro y t hy
    cases hy
    exact .inl (.inl ⟨hx, htaken⟩)
  · rw [hok]
    refine ⟨rfl, fun x hx => ?_, fun s hs => (List.not_mem_nil hs).elim⟩
    rcases hx with ⟨hn, hx⟩ | hx
    · exact hfree x hn hx
    · exact hx

/-- Reading goes on with what comes next in the same scope. -/
lemma bind {r : Except DocumentError (α × Names)} {f : α × Names → Except DocumentError (β × Names)}
    (h : Detects names scope inner r)
    (hf : ∀ a, Detects (scope.foldl Names.after names) scope' inner'
      (f (a, scope.foldl Names.after names))) :
    Detects names (scope ++ scope') (inner ++ inner') (r >>= f) := by
  cases r with
  | error e =>
    intro x t he
    rcases h x t he with h | ⟨s, hs, h⟩
    · exact .inl (Names.clashes_append_iff.2 (.inl h))
    · exact .inr ⟨s, List.mem_append_left _ hs, h⟩
  | ok a =>
    obtain ⟨a, names'⟩ := a
    obtain ⟨rfl, hclash, hinner⟩ := h
    have hnext := hf a
    show Detects names _ _ (f (a, scope.foldl Names.after names))
    cases hr : f (a, scope.foldl Names.after names) with
    | error e =>
      rw [hr] at hnext
      intro x t he
      rcases hnext x t he with h | ⟨s, hs, h⟩
      · exact .inl (Names.clashes_append_iff.2 (.inr h))
      · exact .inr ⟨s, List.mem_append_right _ hs, h⟩
    | ok b =>
      rw [hr] at hnext
      obtain ⟨hnames, hclash', hinner'⟩ := hnext
      refine ⟨by rw [hnames, List.foldl_append], fun x hx => ?_, fun s hs => ?_⟩
      · exact (Names.clashes_append_iff.1 hx).elim (hclash x) (hclash' x)
      · exact (List.mem_append.1 hs).elim (hinner s) (hinner' s)

/-- Reading goes into a scope of its own. -/
lemma inside {r : Except DocumentError (α × Names)}
    {f : α × Names → Except DocumentError (β × Names)} (h : Detects {} scope inner r)
    (hf : ∀ a, Detects names [] [] (f a)) : Detects names [] (scope :: inner) (r >>= f) := by
  cases r with
  | error e =>
    intro x t he
    rcases h x t he with h | ⟨s, hs, h⟩
    · exact .inr ⟨scope, List.mem_cons_self, h⟩
    · exact .inr ⟨s, List.mem_cons_of_mem _ hs, h⟩
  | ok a =>
    obtain ⟨-, hclash, hinner⟩ := h
    have hnext := hf a
    show Detects names [] _ (f a)
    cases hr : f a with
    | error e =>
      rw [hr] at hnext
      intro x t he
      rcases hnext x t he with h | ⟨s, hs, -⟩
      · exact .inl h
      · cases hs
    | ok b =>
      rw [hr] at hnext
      exact ⟨hnext.1, hnext.2.1, List.forall_mem_cons.2 ⟨hclash, hinner⟩⟩

/-- Nothing is read after the last tags. -/
lemma last {r : Except DocumentError (α × Names)}
    {f : α × Names → Except DocumentError (β × Names)} (h : Detects names scope inner r)
    (hf : ∀ a, ∃ b, f a = .ok (b, a.2)) : Detects names scope inner (r >>= f) := by
  rw [← List.append_nil scope, ← List.append_nil inner]
  refine h.bind fun a => ?_
  obtain ⟨b, hb⟩ := hf (a, scope.foldl Names.after names)
  rw [hb]
  exact .nothing

end Detects

mutual

/-- **Reading a tag** detects the clashes in its scope and inside it. -/
theorem detects_ofNode (around : Surroundings) (names : Names) :
    (n : Node) → Detects names n.scopeTags n.innerScopes (ofNode around names n)
  | ⟨tag, attributes, children⟩ => by
    rw [ofNode, Node.scopeTags, Node.innerScopes]
    cases Kind.ofTag? tag with
    | none => exact .error (fun _ _ h => nomatch h)
    | some kind =>
      simp only [Option.any_some]
      cases hd : Declared.ofAttributes kind tag attributes with
      | error e => exact .error fun x t he => Declared.ofAttributes_ne_duplicateName (he ▸ hd)
      | ok d =>
        have taken := Detects.name (n := ⟨tag, attributes, children⟩) hd around.typeName names
        by_cases hk : kind.acceptsChildren = true
        · simp only [if_pos hk]
          exact taken.bind fun name => (detects_ofNodes around _ children).last fun _ => ⟨_, rfl⟩
        · simp only [if_neg hk]
          refine taken.bind fun name => ?_
          split
          · -- a component
            refine (detects_ofNodes _ {} _).inside fun inner => ?_
            simp only
            split
            · exact .nothing
            · exact .error (fun _ _ h => nomatch h)
          · -- a list with one element inside
            simp only
            split
            · exact (detects_ofNodes _ {} _).inside fun inner => .nothing
            · exact .error (fun _ _ h => nomatch h)
          · next hcomponent hlist =>
            split
            · exact (hcomponent rfl).elim
            · exact .nothing
            · exact (hlist _ _ _ rfl rfl).elim
            · exact .nothing
            · exact .error (fun _ _ h => nomatch h)
termination_by n => sizeOf n
decreasing_by all_goals (subst_vars; simp +arith)

/-- **Reading tags** detects the clashes in their scope and inside them. -/
theorem detects_ofNodes (around : Surroundings) (names : Names) :
    (ns : List Node) →
      Detects names (Node.scopeTagsAll ns) (Node.innerScopesAll ns) (ofNodes around names ns)
  | [] => by
    rw [ofNodes, Node.scopeTagsAll, Node.innerScopesAll]
    exact ⟨rfl, fun _ => id, fun _ hs => (List.not_mem_nil hs).elim⟩
  | n :: ns => by
    rw [ofNodes, Node.scopeTagsAll, Node.innerScopesAll]
    exact (detects_ofNode around names n).bind fun e =>
      (detects_ofNodes around _ ns).last fun _ => ⟨_, rfl⟩
termination_by ns => sizeOf ns
decreasing_by all_goals simp +arith

end

end Element

/-! ### Documents -/

/-- Styles are no reason to refuse a name. -/
lemma Style.ofNodes_ne_duplicateName {ns : List Node} {x t : String} :
    Style.ofNodes ns ≠ .error (.duplicateName x t) := by
  induction ns with
  | nil => exact fun h => nomatch h
  | cons n ns ih =>
    intro h
    rw [Style.ofNodes] at h
    rcases Except.bind_eq_error.1 h with h | ⟨s, -, h⟩
    · unfold Style.ofNode Node.require at h
      split at h
      · cases h
      · split at h <;> cases h
    · rcases Except.bind_eq_error.1 h with h | ⟨_, -, h⟩
      · exact ih h
      · cases h

namespace Definition

/-- Reading the root of a document detects the clashes in its scopes. -/
lemma clashes_of_ofRoot {root : Node} :
    (∀ d, ofRoot root = .ok d → ∀ s ∈ root.scopes, ∀ x, ¬ Names.Clashes x {} s) ∧
      ∀ x t, ofRoot root = .error (.duplicateName x t) → ∃ s ∈ root.scopes, Names.Clashes x {} s := by
  unfold ofRoot
  split
  · exact ⟨fun _ h => (nomatch h), fun _ _ h => (nomatch h)⟩
  constructor
  · intro d h
    obtain ⟨typeName, -, h⟩ := Except.bind_eq_ok.1 h
    obtain ⟨styles, -, h⟩ := Except.bind_eq_ok.1 h
    obtain ⟨r, hr, -⟩ := Except.bind_eq_ok.1 h
    have detects := Element.detects_ofNodes ⟨styles, typeName⟩ {} root.withoutStyles.children
    rw [hr] at detects
    exact List.forall_mem_cons.2 ⟨detects.2.1, detects.2.2⟩
  · intro x t h
    rcases Except.bind_eq_error.1 h with h | ⟨typeName, -, h⟩
    · unfold Node.require at h
      split at h <;> cases h
    rcases Except.bind_eq_error.1 h with h | ⟨styles, -, h⟩
    · exact (Style.ofNodes_ne_duplicateName h).elim
    rcases Except.bind_eq_error.1 h with h | ⟨_, -, h⟩
    · have detects := Element.detects_ofNodes ⟨styles, typeName⟩ {} root.withoutStyles.children
      rw [h] at detects
      rcases detects x t rfl with hc | ⟨s, hs, hc⟩
      · exact ⟨_, List.mem_cons_self, hc⟩
      · exact ⟨s, List.mem_cons_of_mem _ hs, hc⟩
    · cases h

/-- **Which documents are refused for a duplicate name**, if no two tags of a scope declare the same one.
A document is refused for a name only if the name is made up for a tag of a scope that stands before the
one that declares it, and then it is indeed refused, though perhaps for another reason that comes first. -/
theorem ofText_duplicateName {text : String} {root : Node} (hr : Node.read text = .ok root)
    (h : ∀ scope ∈ root.scopes, Node.AreDistinct scope) :
    (∀ x t, ofText text = .error (.duplicateName x t) →
        ∃ scope ∈ root.scopes, Node.Forestalls x scope) ∧
      ((∃ x, ∃ scope ∈ root.scopes, Node.Forestalls x scope) → ∃ e, ofText text = .error e) := by
  have read : ofText text = ofRoot root := by
    rw [ofText, hr]
    rfl
  rw [read]
  refine ⟨fun x t he => ?_, ?_⟩
  · obtain ⟨scope, hs, hc⟩ := clashes_of_ofRoot.2 x t he
    exact ⟨scope, hs, Node.forestalls_of_clashes (h scope hs) hc⟩
  · rintro ⟨x, scope, hs, hf⟩
    cases ho : ofRoot root with
    | error e => exact ⟨e, rfl⟩
    | ok d => exact (clashes_of_ofRoot.1 d ho scope hs x (Node.clashes_of_forestalls hf)).elim

/-- The only name in this document is taken: it is made up for the tag that stands before. -/
theorem ofText_nameMadeUpFirst :
    ∃ root, Node.read
        "<Component type=\"A\"><Label/><Label layout:id=\"temp_label_1\"/></Component>" = .ok root ∧
      (∀ scope ∈ root.scopes, Node.AreDistinct scope) ∧
      ofText "<Component type=\"A\"><Label/><Label layout:id=\"temp_label_1\"/></Component>" =
        .error (.duplicateName "temp_label_1" "A") ∧
      ∃ scope ∈ root.scopes, Node.Forestalls "temp_label_1" scope := by
  have hr : Node.read
      "<Component type=\"A\"><Label/><Label layout:id=\"temp_label_1\"/></Component>" =
      .ok ⟨"Component", [("type", "A")],
        [⟨"Label", [], []⟩, ⟨"Label", [("layout:id", "temp_label_1")], []⟩]⟩ := by cbv
  have h : ∀ scope ∈ Node.scopes ⟨"Component", [("type", "A")],
      [⟨"Label", [], []⟩, ⟨"Label", [("layout:id", "temp_label_1")], []⟩]⟩,
      Node.AreDistinct scope := by
    decide +kernel
  have hfails : ofText
      "<Component type=\"A\"><Label/><Label layout:id=\"temp_label_1\"/></Component>" =
      .error (.duplicateName "temp_label_1" "A") := by cbv
  exact ⟨_, hr, h, hfails, (ofText_duplicateName hr h).1 _ _ hfails⟩

end Definition

end ViewMarkup
