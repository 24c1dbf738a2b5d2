import ViewMarkup.Proofs.Source.Drafting
import ViewMarkup.Proofs.View.Invariants
import ViewMarkup.Proofs.View.Targets

/-!
# Names in a scope

An element bears up to two names in its scope: its field and its layout id, or a name that is made up
if it has neither. In a document that is read no name is borne by two elements of a scope, whether it
is written before or after the place where one like it could be made up. So a name finds one element,
and the tables of a scope, which the build routine and the application fill while they place elements,
never get an entry for a name that they have already.

## Main definitions

* `Element.Bears`, `Element.Apart` — the names of an element, and elements without a common name.
* `Element.IsNew` — the names of an element are not in the tables of its scope.
* `Draft.Visits` — the elements that are placed, each with the draft that it is placed in.

## Main statements

* `Names.makeUp_search` — the search for a name that is free takes no more steps than there are names.
* `Definition.IsScope.apart` — no name is borne twice in a scope.
* `Draft.Fits.isNew`, `Applier.applyScope_isNew` — no entry of a table is replaced.
* `Definition.names_of_ofText` — the names in a document.
-/

namespace ViewMarkup

open Element

/-! ### The search for a free name -/

/-- No more numbers are tried in vain than there are names taken. -/
lemma firstFree_le (name : Nat → String) (taken : List String) (n : Nat) :
    firstFree name taken n ≤ n + taken.length := by
  fun_induction firstFree name taken n with
  | case1 taken n h ih =>
    have := List.length_pos_of_mem h
    rw [List.length_erase_of_mem h] at ih
    omega
  | case2 => exact Nat.le_add_right _ _

/-- A text in lower case. -/
def Names.word (tag : String) : String := String.ofList (tag.toList.map Char.toLower)

/-- **The search for a free name ends.** The numbers are tried in order from the one after the last one
used for the tag; the names tried in vain are taken, and there are no more of them than names taken. -/
theorem Names.makeUp_search (names : Names) (tag : String) :
    ∃ start tries, start = (names.lastNumber.get? (word tag)).getD 0 + 1 ∧
      tries ≤ names.taken.length ∧
      (∀ k < tries, madeUp (word tag) (start + k) ∈ names.taken) ∧
      madeUp (word tag) (start + tries) ∉ names.taken ∧
      names.makeUp tag = (madeUp (word tag) (start + tries),
        { taken := madeUp (word tag) (start + tries) :: names.taken
          lastNumber := names.lastNumber.insert (word tag) (start + tries) }) := by
  obtain ⟨start, hstart⟩ : ∃ start, start = (names.lastNumber.get? (word tag)).getD 0 + 1 := ⟨_, rfl⟩
  obtain ⟨tries, htries⟩ : ∃ tries, firstFree (madeUp (word tag)) names.taken start = start + tries :=
    Nat.exists_eq_add_of_le (le_firstFree _ _ _)
  have made : names.makeUp tag = (madeUp (word tag) (start + tries),
      { taken := madeUp (word tag) (start + tries) :: names.taken
        lastNumber := names.lastNumber.insert (word tag) (start + tries) }) := by
    rw [← htries, hstart]
    rfl
  refine ⟨start, tries, hstart, ?_, fun k hk => ?_, ?_, made⟩
  · have := firstFree_le (madeUp (word tag)) names.taken start
    omega
  · exact mem_of_lt_firstFree (n := start) (Nat.le_add_right _ _) (by omega)
  · rw [← htries]
    exact firstFree_not_mem (madeUp_injective _) _ _

/-! ### The names of elements -/

namespace Element

/-- A name that an element bears in its scope: its field, its layout id, or the name under which it is
found, which is one of the two or made up. -/
def Bears (e : Element) (name : String) : Prop :=
  e.field = some name ∨ e.layout.id = some name ∨ e.name = name

/-- No name is borne by both of two elements. -/
def Apart (e e' : Element) : Prop := ∀ name, e.Bears name → ¬ e'.Bears name

/-- **The names of an element are not in the tables of its scope**, in which elements are found by their
fields and by their layout ids. -/
def IsNew {ι : Type} (find : (Element → Bool) → Option ι) (e : Element) : Prop :=
  ∀ name, e.Bears name →
    find (fun e => e.field = some name) = none ∧ find (fun e => e.layout.id = some name) = none

/-- An element apart from all that can be found is new. -/
lemma isNew_of_apart {ι : Type} {find : (Element → Bool) → Option ι} {e : Element}
    (h : ∀ test i, find test = some i → ∃ e', test e' = true ∧ e'.Apart e) : e.IsNew find := by
  refine fun name hn => ⟨Option.eq_none_iff_forall_ne_some.2 fun i hi => ?_,
    Option.eq_none_iff_forall_ne_some.2 fun i hi => ?_⟩
  · obtain ⟨e', ht, ha⟩ := h _ i hi
    exact ha name (.inl (of_decide_eq_true ht)) hn
  · obtain ⟨e', ht, ha⟩ := h _ i hi
    exact ha name (.inr (.inl (of_decide_eq_true ht))) hn

/-- In a regular element, every name that a view can bear is taken. -/
lemma IsRegular.mem_takenNames {e : Element} (h : e.IsRegular) {name : String}
    (hn : e.Bears name) : name ∈ e.takenNames := by
  obtain hf | hi | rfl := hn
  · exact Applier.mem_takenNames_of_field h hf
  · exact Applier.mem_takenNames_of_id hi
  · exact List.mem_cons_self

end Element

/-- **No two elements of a scope bear the same name.** -/
theorem Definition.IsScope.apart {d : Definition} (h : d.IsScope) : d.elements.Pairwise Apart :=
  (List.nodup_flatMap.1 h.nodup).2.imp_of_mem fun he he' hd _ hn hn' =>
    hd ((h.regular _ he).mem_takenNames hn) ((h.regular _ he').mem_takenNames hn')

/-- The name of an element finds the element, and no other one has it. -/
lemma Definition.IsScope.element?_name {d : Definition} (h : d.IsScope) :
    ∀ e ∈ d.elements, d.element? e.name = some e ∧ d.elements.filter (·.name = e.name) = [e] := by
  intro e he
  have only : d.elements.filter (·.name = e.name) = [e] := by
    obtain ⟨before, after, hsplit⟩ := List.append_of_mem he
    have apart := h.apart
    rw [hsplit, List.pairwise_append, List.pairwise_cons] at apart
    have hbefore : ∀ x ∈ before, ¬ x.name = e.name := fun x hx hn =>
      apart.2.2 x hx e List.mem_cons_self e.name (.inr (.inr hn)) (.inr (.inr rfl))
    have hafter : ∀ x ∈ after, ¬ x.name = e.name := fun x hx hn =>
      apart.2.1.1 x hx e.name (.inr (.inr rfl)) (.inr (.inr hn))
    rw [hsplit, List.filter_append, List.filter_cons_of_pos (by simp),
      List.filter_eq_nil_iff.2 (by simpa using hbefore),
      List.filter_eq_nil_iff.2 (by simpa using hafter), List.nil_append]
  refine ⟨?_, only⟩
  rw [Definition.element?, ← List.head?_filter, only, List.head?_cons]

/-! ### The tables of a draft -/

namespace Draft

variable {sheets : StyleSheets}

/-- **The elements that are placed** when elements are placed in given surroundings from a draft on, each
with its own surroundings and with the draft that it is placed in. What comes after it may fail. -/
inductive Visits (sheets : StyleSheets) :
    Place → Draft → List Element → Place → Draft → Element → Prop where
  /-- The first element. -/
  | here {at_ : Place} {D : Draft} {e : Element} {es : List Element} :
      Visits sheets at_ D (e :: es) at_ D e
  /-- An element inside the first one. -/
  | inside {at_ at' at'' : Place} {D D₁ D'' : Draft} {e e'' : Element} {es es' : List Element}
      {name : Identifier} {scopes : Nat} :
      D.placeOne sheets at_ e = .ok (name, D₁) → Inside at_ e name D₁.scopes at' es' scopes →
      Visits sheets at' { D₁ with scopes } es' at'' D'' e'' →
      Visits sheets at_ D (e :: es) at'' D'' e''
  /-- An element after the first one. -/
  | after {at_ at'' : Place} {D D₁ D'' : Draft} {e e'' : Element} {es : List Element} :
      D.place sheets at_ e = .ok D₁ → Visits sheets at_ D₁ es at'' D'' e'' →
      Visits sheets at_ D (e :: es) at'' D'' e''

/-- Whatever is placed between two drafts is visited, in the draft with all that is placed before it. -/
def Covers (V : Place → Draft → Element → Prop) (D D' : Draft) : Prop :=
  D.placed <+: D'.placed ∧ ∀ i p, D.placed.length ≤ i → D'.placed[i]? = some p →
    ∃ at_ D₁, V at_ D₁ p.element ∧ D₁.placed = D'.placed.take i ∧ at_.scope = p.scope

namespace Covers

variable {V V' : Place → Draft → Element → Prop} {D D₁ D' : Draft}

/-- Nothing is placed. -/
lemma refl : Covers V D D :=
  ⟨List.prefix_rfl, fun i p hi hp => by
    rw [List.getElem?_eq_none hi] at hp
    cases hp⟩

/-- What covers elements covers them under a weaker condition. -/
lemma imp (h : Covers V D D') (hV : ∀ at_ D e, V at_ D e → V' at_ D e) : Covers V' D D' :=
  ⟨h.1, fun i p hi hp => by
    obtain ⟨at_, D₁, hv, heq, hs⟩ := h.2 i p hi hp
    exact ⟨at_, D₁, hV _ _ _ hv, heq, hs⟩⟩

/-- What covers first some elements and then others covers both. -/
lemma trans (h : Covers V D D₁) (h' : Covers V D₁ D') : Covers V D D' := by
  refine ⟨h.1.trans h'.1, fun i p hi hp => ?_⟩
  rcases Nat.lt_or_ge i D₁.placed.length with hlt | hge
  · obtain ⟨new, hnew⟩ := h'.1
    rw [← hnew, List.getElem?_append_left hlt] at hp
    obtain ⟨at_, D₂, hv, heq, hs⟩ := h.2 i p hi hp
    exact ⟨at_, D₂, hv, by rw [← hnew, List.take_append_of_le_length hlt.le, heq], hs⟩
  · exact h'.2 i p hge hp

/-- Placing an element without what is inside it places the element. -/
lemma of_placeOne {at_ : Place} {e : Element} {name : Identifier}
    (h : D.placeOne sheets at_ e = .ok (name, D₁)) (hv : V at_ D e) : Covers V D D₁ := by
  obtain ⟨w, hw, -, hext, -⟩ := placeOne_spec h
  have heq : D₁.placed = D.placed ++ [w.placed] := hext.placed_eq
  refine ⟨heq ▸ List.prefix_append _ _, fun i p hi hp => ?_⟩
  rw [heq, List.getElem?_append_right hi] at hp
  obtain ⟨hi', hp⟩ := List.getElem?_eq_some_iff.1 hp
  rw [List.length_singleton] at hi'
  obtain rfl : i = D.placed.length := by omega
  obtain rfl : w.placed = p := by simpa using hp
  rw [heq, List.take_left]
  exact ⟨at_, D, (congrArg Placed.element hw.placed_eq).symm ▸ hv, rfl,
    (congrArg Placed.scope hw.placed_eq).symm⟩

end Covers

/-- What is to be shown of placing an element. -/
def OneVisited (sheets : StyleSheets) (at_ : Place) (D : Draft) (e : Element) : Prop :=
  ∀ D', D.place sheets at_ e = .ok D' → Covers (Visits sheets at_ D [e]) D D'

/-- What is to be shown of placing what is inside a component. -/
def InlineVisited (sheets : StyleSheets) (kind : Kind) (name : Identifier) (D : Draft)
    (r : Option TypeReference) : Prop :=
  ∀ (at_ : Place) (e : Element), e.kind = kind → e.reference = r → e.kind.acceptsChildren = false →
    ∀ D', D.placeInline sheets kind name r = .ok D' → ∃ at' es' scopes,
      Inside at_ e name D.scopes at' es' scopes ∧
        Covers (Visits sheets at' { D with scopes } es') D D'

/-- What is to be shown of placing elements. -/
def AllVisited (sheets : StyleSheets) (at_ : Place) (D : Draft) (es : List Element) : Prop :=
  ∀ D', D.placeAll sheets at_ es = .ok D' → Covers (Visits sheets at_ D es) D D'

/-- Every element that is visited first in a list of one is visited first in a longer one. -/
lemma Visits.of_singleton {at_ at' : Place} {D D' : Draft} {e e' : Element} {es : List Element}
    (h : Visits sheets at_ D [e] at' D' e') : Visits sheets at_ D (e :: es) at' D' e' := by
  cases h with
  | here => exact .here
  | inside hone hi hv => exact .inside hone hi hv
  | after _ hv => cases hv

/-- **All elements that are placed are visited**, each in the draft with those placed before it. -/
theorem Visits.of_placeAll (at_ : Place) (D : Draft) (es : List Element) :
    AllVisited sheets at_ D es := by
  refine (place.mutual_induct (OneVisited sheets) (InlineVisited sheets) (AllVisited sheets)
    ?one ?nil ?cons ?component ?declared ?none).2.2 at_ D es
  case one =>
    intro at_ D kind field layout properties styles children reference name hchildren hinline D' h
    rw [place_eq] at h
    obtain ⟨⟨i, D₁⟩, hone, h⟩ := Except.bind_eq_ok.1 h
    refine (Covers.of_placeOne hone .here).trans ?_
    simp only at h
    split at h
    · next hk => exact (hchildren _ _ D' h).imp fun _ _ _ hv => .inside hone (.children hk) hv
    · next hk =>
      obtain ⟨at', es', scopes, hi, hcovers⟩ := hinline i D₁ at_
        ⟨kind, field, layout, properties, styles, children, reference, name⟩ rfl rfl
        (Bool.eq_false_iff.2 hk) D' h
      exact hcovers.imp fun _ _ _ hv => .inside hone hi hv
  case nil =>
    intro at_ D D' h
    cases h
    exact .refl
  case cons =>
    intro at_ D e es hone hall D' h
    rw [placeAll] at h
    obtain ⟨D₁, hplace, h⟩ := Except.bind_eq_ok.1 h
    exact ((hone D₁ hplace).imp fun _ _ _ hv => hv.of_singleton).trans
      ((hall D₁ D' h).imp fun _ _ _ hv => .after hplace hv)
  case component =>
    intro kind name D typeName isRoot isAnonymous styles properties children hc hall at_ e hk hr _ D' h
    rw [placeInline, if_pos hc] at h
    exact ⟨_, _, _, .component (hk.trans hc.2) hr hc.1, hall D' h⟩
  case declared =>
    intro kind name D typeName isRoot isAnonymous styles properties children hc at_ e hk hr ha D' h
    rw [placeInline, if_neg hc] at h
    cases h
    refine ⟨at_, [], D.scopes, .nothing ha fun d hd hcomp => ?_, .refl⟩
    rw [hr] at hd
    cases hd
    exact Bool.eq_false_iff.2 fun h => hc ⟨h, hk ▸ hcomp⟩
  case none =>
    intro r kind name D hr at_ e hk he ha D' h
    rw [placeInline] at h
    · cases h
      refine ⟨at_, [], D.scopes, .nothing ha fun d hd _ => ?_, .refl⟩
      obtain ⟨typeName, isRoot, isAnonymous, styles, properties, children⟩ := d
      exact (hr _ _ _ _ _ _ (he.symm.trans hd)).elim
    · exact hr

/-- What holds of a draft and of elements that are to be placed: those of the scope that are placed
already have other names, and so have the elements of each scope among themselves. -/
structure Fits (at_ : Place) (D : Draft) (es : List Element) : Prop where
  /-- The scope is there. -/
  scope_lt : at_.scope < D.scopes
  /-- So are those of the elements placed. -/
  placed_lt : ∀ p ∈ D.placed, p.scope < D.scopes
  /-- The elements of the scope that are placed have other names. -/
  apart_placed : ∀ p ∈ D.placed, p.scope = at_.scope → ∀ e ∈ walkAll es, p.element.Apart e
  /-- No name is borne twice among the elements that are to be placed. -/
  apart : (walkAll es).Pairwise Apart
  /-- Elements are inside those that may have some. -/
  children_eq_nil : ∀ e ∈ walkAll es, e.kind.acceptsChildren = false → e.children = []
  /-- The definitions in place are scopes. -/
  isScope : ∀ d ∈ definitionsAll es, d.IsScope

namespace Fits

variable {at_ at' : Place} {D D₁ : Draft} {e : Element} {es es' : List Element}

/-- **The next element is new** in the tables of its scope. -/
theorem isNew (h : Fits at_ D (e :: es)) : e.IsNew (D.findPlaced? at_.scope) := by
  refine isNew_of_apart fun test i hi => ?_
  obtain ⟨p, hp, -⟩ := Option.map_eq_some_iff.1 hi
  have hfound := List.find?_some hp
  rw [Bool.and_eq_true, decide_eq_true_eq] at hfound
  exact ⟨p.element, hfound.2, h.apart_placed p
    (List.mem_reverse.1 (List.mem_of_find?_eq_some hp)) hfound.1 e
    (by rw [walkAll_cons]; exact List.mem_cons_self)⟩

/-- What is inside an element fits once the element is placed. -/
lemma inside (h : Fits at_ D (e :: es)) {name : Identifier} {scopes : Nat}
    (hone : D.placeOne sheets at_ e = .ok (name, D₁))
    (hi : Inside at_ e name D₁.scopes at' es' scopes) : Fits at' { D₁ with scopes } es' := by
  obtain ⟨w, hw, -, hext, hscopes⟩ := placeOne_spec hone
  have placed : ∀ p ∈ D₁.placed, p ∈ D.placed ∨ p.scope = at_.scope ∧ p.element = e := by
    intro p hp
    rw [hext.placed_eq, List.mem_append] at hp
    refine hp.imp_right fun hp => ?_
    obtain rfl := List.mem_singleton.1 hp
    exact ⟨congrArg Placed.scope hw.placed_eq, congrArg Placed.element hw.placed_eq⟩
  have lt : ∀ p ∈ D₁.placed, p.scope < D₁.scopes := by
    intro p hp
    rw [hscopes]
    rcases placed p hp with hp | ⟨hs, -⟩
    · exact h.placed_lt p hp
    · exact hs ▸ h.scope_lt
  have apart := h.apart
  rw [walkAll_cons, List.pairwise_cons, List.pairwise_append] at apart
  have sub := walkAll_children_subset e es
  cases hi with
  | nothing =>
    exact ⟨hscopes ▸ h.scope_lt, lt, fun _ _ _ _ he => (List.not_mem_nil he).elim, List.Pairwise.nil,
      fun _ he => (List.not_mem_nil he).elim, fun _ hd => (List.not_mem_nil hd).elim⟩
  | children hk =>
    refine ⟨hscopes ▸ h.scope_lt, lt, fun p hp hs x hx => ?_, apart.2.1,
      fun x hx => h.children_eq_nil x (sub hx), fun d hd => h.isScope d ?_⟩
    · rcases placed p hp with hp | ⟨-, rfl⟩
      · exact h.apart_placed p hp hs x (sub hx)
      · exact apart.1 x (List.mem_append_left _ hx)
    · rw [definitionsAll_cons]
      exact List.mem_append_left _ (List.mem_append_right _ hd)
  | @component d hk hr ha =>
    -- The scope is a new one, in which nothing is placed yet.
    have hd : ∀ d' ∈ d.definitions, d'.IsScope := fun d' hd' => h.isScope d' (by
      rw [definitionsAll_cons, inline?_eq_some hr]
      exact List.mem_append_left _ (List.mem_append_left _ hd'))
    have S := Definition.areSound hd
    exact ⟨D₁.scopes.lt_succ_self, fun p hp => Nat.lt_succ_of_lt (lt p hp),
      fun p hp hs => absurd hs (lt p hp).ne,
      (hd d (Definition.mem_definitions_iff.2 (.inl rfl))).apart, S.children_eq_nil, S.isScope⟩

/-- The elements after one fit once that one is placed with what is inside it. -/
lemma after (h : Fits at_ D (e :: es)) (hplace : D.place sheets at_ e = .ok D₁) :
    Fits at_ D₁ es := by
  have hall : D.placeAll sheets at_ [e] = .ok D₁ := by
    rw [placeAll, hplace]
    rfl
  obtain ⟨ws, hws, hext⟩ := Drafts.of_placeAll at_ D [e] D₁ hall
  have hwalk : walkAll (e :: es) = walkAll [e] ++ walkAll es := by simp [walkAll]
  have apart := h.apart
  rw [hwalk, List.pairwise_append] at apart
  have helements := hws.elements_eq h.scope_lt fun x hx =>
    h.children_eq_nil x (walkAll_singleton_subset e es hx)
  have hle := hws.scopes_le
  have hlt := h.scope_lt
  refine ⟨Nat.lt_of_lt_of_le h.scope_lt hle, fun p hp => ?_, fun p hp hs x hx => ?_, apart.2.1,
    fun x hx => h.children_eq_nil x (walkAll_subset_cons e es hx), fun d hd => h.isScope d ?_⟩
  · rw [hext.placed_eq, List.mem_append] at hp
    rcases hp with hp | hp
    · have := h.placed_lt p hp
      omega
    · obtain ⟨w, hw, rfl⟩ := List.mem_map.1 hp
      have := hws.scope_eq_or w hw
      omega
  · rw [hext.placed_eq, List.mem_append] at hp
    rcases hp with hp | hp
    · exact h.apart_placed p hp hs x (walkAll_subset_cons e es hx)
    · obtain ⟨w, hw, rfl⟩ := List.mem_map.1 hp
      refine apart.2.2 _ (helements ▸ List.mem_map_of_mem ?_) x hx
      exact List.mem_filter.2 ⟨hw, decide_eq_true hs⟩
  · rw [definitionsAll_cons, List.mem_append]
    exact .inr hd

end Fits

/-- Every element fits when its turn comes. -/
theorem Visits.isNew {at_ at' : Place} {D D' : Draft} {es : List Element} {e : Element}
    (hv : Visits sheets at_ D es at' D' e) (h : Fits at_ D es) :
    e.IsNew (D'.findPlaced? at'.scope) := by
  induction hv with
  | here => exact h.isNew
  | inside hone hi _ ih => exact ih (h.inside hone hi)
  | after hplace _ ih => exact ih (h.after hplace)

/-- In a list of placed elements each is new in the tables of its scope, as those before it fill
them. -/
def EachNew (placed : List Placed) : Prop :=
  ∀ (i : Nat) (p : Placed), placed[i]? = some p →
    p.element.IsNew (({ placed := placed.take i } : Draft).findPlaced? p.scope)

/-- Elements of a scope are placed under names that are new each time. -/
lemma eachNew_of_placeAll {at_ : Place} {D D' : Draft} {es : List Element} (h : Fits at_ D es)
    (hempty : D.placed = []) (hall : D.placeAll sheets at_ es = .ok D') : EachNew D'.placed := by
  intro i p hp
  obtain ⟨at', D₁, hv, heq, hs⟩ :=
    (Visits.of_placeAll at_ D es D' hall).2 i p (by simp [hempty]) hp
  have new := hv.isNew h
  unfold findPlaced? at new
  rwa [heq, hs] at new

end Draft

/-! ### The tables of an application -/

namespace Applier

open Live

variable {H : Type} [Widget H]

/-- In a list of placed elements each is new in the tables as those before it fill them. -/
def EachNew (placed : List PlacedView) : Prop :=
  ∀ (i : Nat) (p : PlacedView), placed[i]? = some p → p.element.IsNew (findPlaced? (placed.take i))

omit [Widget H] in
/-- Views of elements apart are new each time. -/
lemma eachNew_of_pairwise {placed : List PlacedView}
    (h : (placed.map (·.element)).Pairwise Apart) : EachNew placed := by
  intro i p hp
  obtain ⟨hi, rfl⟩ := List.getElem?_eq_some_iff.1 hp
  refine isNew_of_apart fun test id hid => ?_
  obtain ⟨q, hq, ht, -⟩ := findPlaced?_eq_some hid
  obtain ⟨j, hj, rfl⟩ := List.mem_take_iff_getElem.1 hq
  exact ⟨_, ht, List.pairwise_iff_getElem.1 (List.pairwise_map.1 h) j i _ hi (by omega)⟩

/-- More elements are placed than before: some of the given ones, in document order. -/
def Adds (es : List Element) (s s' : Run H) : Prop :=
  ∃ new, s'.placed.map (·.element) = s.placed.map (·.element) ++ new ∧ new.Sublist (walkAll es)

omit [Widget H] in
/-- A step that places nothing adds nothing. -/
lemma Adds.of_placed_eq {es : List Element} {s s' : Run H} (h : s'.placed = s.placed) :
    Adds es s s' :=
  ⟨[], by rw [h, List.append_nil], List.nil_sublist _⟩

omit [Widget H] in
/-- Elements of a first list are placed, and then those of a second one. -/
lemma Adds.trans {es es₁ es₂ : List Element} {s s₁ s₂ : Run H} (h : Adds es₁ s s₁)
    (h' : Adds es₂ s₁ s₂) (hsub : (walkAll es₁ ++ walkAll es₂).Sublist (walkAll es)) :
    Adds es s s₂ := by
  obtain ⟨new, heq, hs⟩ := h
  obtain ⟨new', heq', hs'⟩ := h'
  exact ⟨new ++ new', by rw [heq', heq, List.append_assoc], (hs.append hs').trans hsub⟩

/-- A step places nothing, also if it fails. -/
def PlacesNothing {α : Type} (x : Live H α) : Prop :=
  ∀ placed, Maintains (fun s => s.placed = placed) x

omit [Widget H] in
/-- A scope of its own leaves what is placed around it. -/
lemma placesNothing_inNewScope {α : Type} (x : Live H α) : PlacesNothing (inNewScope x) := by
  rintro placed s rfl
  unfold Meets inNewScope
  cases x { s with fields := {}, placed := [] } <;> exact rfl

variable (a : Applier H)

omit [Widget H] in
/-- Putting in a new node records no view. -/
lemma placesNothing_insertNew (e : Element) : PlacesNothing (a.insertNew e) := by
  rintro placed s rfl
  unfold Meets insertNew
  cases a.create e <;> exact rfl

omit [Widget H] in
/-- Nor does the choice of a node. -/
lemma placesNothing_nodeFor (root : ScopeRoot) (e : Element) :
    PlacesNothing (a.nodeFor root e) := by
  intro placed
  unfold nodeFor
  split
  · exact a.placesNothing_insertNew e placed
  · refine Maintains.bind (fun _ h => h) fun s => ?_
    split
    · exact .pure _
    · split
      · refine (a.placesNothing_insertNew e placed).bind fun id => ?_
        exact Maintains.bind (.modify fun _ h => h) fun _ => .pure id
      · exact fun _ h => h

/-- Nor does the assignment of properties. -/
lemma placesNothing_assign (id : NodeId) (kind : Kind) (typeName element : String)
    (r : Resolved) : PlacesNothing (a.assign id kind typeName element r) := by
  rintro placed s rfl
  obtain ⟨warnings, h⟩ := a.assign_eq id kind typeName element r s
  rw [Meets, h]

/-- Nor does the beginning of a scope. -/
lemma placesNothing_beginScope (root : ScopeRoot) (d : Definition) :
    PlacesNothing (a.beginScope root d) := by
  rintro placed s hs
  unfold beginScope
  refine Meets.bind ?_
  change Meets s (if s.tree.contains root.node then _ else _) _ _
  split
  · exact Meets.bind (a.placesNothing_assign _ _ _ _ _ placed _ hs)
  · exact hs

/-- What is inside a component has its own scope. -/
lemma placesNothing_applyReference (active : List String) (typeName element : String) (id : NodeId)
    (r : Option TypeReference) : PlacesNothing (a.applyReference active typeName element id r) := by
  rcases r with _ | name | nested
  · rw [applyReference]
    exact fun _ => .pure ()
  · rw [applyReference_named]
    split
    · exact fun _ => .pure ()
    · split
      · exact fun _ _ h => h
      · exact placesNothing_inNewScope _
  · rw [applyReference]
    split
    · exact fun _ _ h => h
    · exact placesNothing_inNewScope _

/-- One element is placed, or none. -/
lemma placeOne_adds (root : ScopeRoot) (d : Definition) (parent : NodeId) (parentKind : Kind)
    (e : Element) (s : Run H) :
    Meets s (a.placeOne root d parent parentKind e)
      (fun _ s' => s'.placed.map (·.element) = s.placed.map (·.element) ++ [e])
      (fun s' => s'.placed = s.placed) := by
  unfold placeOne
  refine Meets.bind ((a.placesNothing_nodeFor root e s.placed s rfl).imp (fun id s₁ h₁ => ?_)
    fun _ h => h)
  refine Meets.bind ?_
  rw [meets_modify]
  refine Meets.bind ((a.placesNothing_assign id e.kind d.typeName e.name (a.sheets.resolve d e)
    s.placed { s₁ with tree := s₁.tree.modify id (prepare e) } h₁).imp (fun _ s₂ h₂ => ?_)
    fun _ h => h)
  change (s₂.placed ++ [(⟨e, id, parent⟩ : PlacedView)]).map (·.element) = _
  rw [h₂, List.map_append]
  rfl

section Induction

/-- What is to be shown of placing elements. -/
def AllAdd (active : List String) (root : ScopeRoot) (d : Definition) (parent : NodeId)
    (parentKind : Kind) (es : List Element) : Prop :=
  ∀ s : Run H, Meets s (a.placeAll active root d parent parentKind es) (fun _ s' => Adds es s s')
    (Adds es s)

/-- What is to be shown of placing an element. -/
def OneAdds (active : List String) (root : ScopeRoot) (d : Definition) (parent : NodeId)
    (parentKind : Kind) (e : Element) : Prop :=
  ∀ s : Run H, Meets s (a.place active root d parent parentKind e) (fun _ s' => Adds [e] s s')
    (Adds [e] s)

variable {a}

/-- The step of the induction: one element adds its views if those inside it add theirs. -/
lemma oneAdds {active : List String} {root : ScopeRoot} {d : Definition} {parent : NodeId}
    {parentKind : Kind} {e : Element} (hc : ∀ id, a.AllAdd active root d id e.kind e.children) :
    a.OneAdds active root d parent parentKind e := by
  intro s
  have hwalk : walkAll [e] = [e] ++ walkAll e.children := by
    rw [walkAll_cons, walkAll, List.append_nil, List.singleton_append]
  rw [place]
  refine Meets.bind ((a.placeOne_adds root d parent parentKind e s).imp (fun id s₁ h₁ => ?_)
    fun _ h => .of_placed_eq h)
  -- Whatever is placed inside comes after the element.
  have rest : ∀ s₂ : Run H, Adds e.children s₁ s₂ → Adds [e] s s₂ := by
    rintro s₂ ⟨new, heq, hs⟩
    exact ⟨[e] ++ new, by rw [heq, h₁, List.append_assoc], hwalk ▸ hs.append_left _⟩
  have reference : ∀ s₂ : Run H, Adds e.children s₁ s₂ → Meets s₂
      (if e.kind = .component then a.applyReference active d.typeName e.name id e.reference
        else pure ()) (fun _ s' => Adds [e] s s') (Adds [e] s) := by
    intro s₂ h₂
    split
    · refine (a.placesNothing_applyReference _ _ _ _ _ s₂.placed s₂ rfl).imp
        (fun _ s₃ h₃ => rest s₃ ?_) fun s₃ h₃ => rest s₃ ?_
      all_goals
        obtain ⟨new, heq, hs⟩ := h₂
        exact ⟨new, h₃ ▸ heq, hs⟩
    · exact rest s₂ h₂
  simp only
  split
  · exact Meets.bind ((hc id s₁).imp (fun _ s₂ h₂ => reference s₂ h₂) fun s₂ h₂ => rest s₂ h₂)
  · exact reference s₁ (.of_placed_eq rfl)

variable (a)

/-- **Elements are placed in document order**, each once, and the placing may stop at any of them. -/
theorem placeAll_adds (active : List String) (root : ScopeRoot) (d : Definition) (parent : NodeId)
    (parentKind : Kind) (es : List Element) : a.AllAdd active root d parent parentKind es := by
  refine (applyScope.mutual_induct a (fun _ _ _ => True) a.AllAdd a.OneAdds
    (fun _ _ _ _ _ => True) ?scope ?nil ?cons ?one ?none ?inlineActive ?inline ?unknown ?namedActive
    ?named).2.1 active root d parent parentKind es
  case nil =>
    intro active root d parent parentKind s
    rw [placeAll]
    exact .of_placed_eq rfl
  case cons =>
    intro active root d parent parentKind e es h h' s
    have hwalk : walkAll [e] ++ walkAll es = walkAll (e :: es) := by simp [walkAll]
    rw [placeAll]
    refine Meets.bind ((h s).imp (fun _ s₁ h₁ => ?_) fun s₁ h₁ => ?_)
    · exact (h' s₁).imp (fun _ s₂ h₂ => h₁.trans h₂ (hwalk ▸ .refl _)) fun s₂ h₂ =>
        h₁.trans h₂ (hwalk ▸ .refl _)
    · -- The first element fails, and no other one is placed.
      have stopped : Adds es s₁ s₁ := .of_placed_eq rfl
      exact h₁.trans stopped (hwalk ▸ .refl _)
  case one => exact fun _ _ _ _ _ _ _ hc => oneAdds hc
  all_goals
    intros
    trivial

end Induction

/-- **No entry of a table is replaced** while the elements of a scope are placed, however far the
application comes. -/
theorem applyScope_isNew {d : Definition} (hd : d.IsScope) (active : List String) (root : ScopeRoot)
    {s : Run H} (hs : s.placed = []) :
    Meets s (a.applyScope active root d) (fun _ s' => EachNew s'.placed)
      (fun s' => EachNew s'.placed) := by
  have each : ∀ s' : Run H, Adds d.children s s' → EachNew s'.placed := by
    rintro s' ⟨new, heq, hsub⟩
    rw [hs, List.map_nil, List.nil_append] at heq
    exact eachNew_of_pairwise (heq ▸ hd.apart.sublist hsub)
  rw [applyScope]
  refine Meets.bind ((a.placesNothing_beginScope root d s.placed s rfl).imp (fun _ s₁ h₁ => ?_)
    fun s₁ h₁ => each s₁ (.of_placed_eq h₁))
  have adds : ∀ s' : Run H, Adds d.children s₁ s' → EachNew s'.placed := by
    rintro s' ⟨new, heq, hsub⟩
    exact each s' ⟨new, by rw [heq, h₁], hsub⟩
  refine Meets.bind ((a.placeAll_adds active root d root.node .container d.children s₁).imp
    (fun _ s₂ h₂ => ?_) adds)
  unfold Meets constrain
  cases allConstraints d.typeName s₂.placed <;> exact adds s₂ h₂

end Applier

/-! ### The names in a document -/

/-- The elements of a definition that was read fit into an empty draft. -/
lemma Definition.IsParsed.fits {d : Definition} (h : d.IsParsed) (statements : List Statement) :
    Draft.Fits ⟨.component, false, 0, none, d.styles⟩ { statements } d.children where
  scope_lt := Nat.one_pos
  placed_lt _ hp := (List.not_mem_nil hp).elim
  apart_placed _ hp := (List.not_mem_nil hp).elim
  apart := h.isScope.apart
  children_eq_nil := h.areSound.children_eq_nil
  isScope := h.areSound.isScope

/-- While a definition that was read is drafted, no entry of a table is replaced. -/
lemma Routine.eachNew_of_draft {d : Definition} (hd : d.IsParsed) {sheets : StyleSheets} {D : Draft}
    (h : draft sheets d = .ok D) : Draft.EachNew D.placed := by
  obtain ⟨statements, -, hall⟩ := Except.bind_eq_ok.1 h
  exact Draft.eachNew_of_placeAll (hd.fits statements) rfl hall

/-- **The names in a document that is read.** In each of its definitions no name is borne by two
elements, and the name of an element finds it and is borne by no other. While a routine is built or the
definition is applied, each element is new in the tables of its scope when it is placed, also if either
fails later. And the search for a name that can be made up ends.

**Proof sketch.** Reading takes names that are free in a scope, so the names taken by its elements are
all different, and every name that an element bears is one that it takes. The elements placed before an
element in its scope come before it in document order. -/
theorem Definition.names_of_ofText {H : Type} [Widget H] {text : String} {document : Definition}
    (h : ofText text = .ok document) :
    (∀ d ∈ document.definitions,
      d.elements.Pairwise Apart ∧
      (∀ e ∈ d.elements, d.element? e.name = some e ∧
        d.elements.filter (·.name = e.name) = [e]) ∧
      (∀ sheets statements at_ D e,
        Draft.Visits sheets ⟨.component, false, 0, none, d.styles⟩ { statements } d.children at_ D e →
        e.IsNew (D.findPlaced? at_.scope)) ∧
      (∀ sheets D, Routine.draft sheets d = .ok D → Draft.EachNew D.placed) ∧
      ∀ (a : Applier H) active root (s : Run H), s.placed = [] →
        Live.Meets s (a.applyScope active root d) (fun _ s' => Applier.EachNew s'.placed)
          (fun s' => Applier.EachNew s'.placed)) ∧
    ∀ (names : Names) (tag : String), ∃ start tries,
      start = (names.lastNumber.get? (Names.word tag)).getD 0 + 1 ∧ tries ≤ names.taken.length ∧
      (∀ k < tries, Names.madeUp (Names.word tag) (start + k) ∈ names.taken) ∧
      Names.madeUp (Names.word tag) (start + tries) ∉ names.taken ∧
      (names.makeUp tag).1 = Names.madeUp (Names.word tag) (start + tries) := by
  refine ⟨fun d hd => ?_, fun names tag => ?_⟩
  · have parsed : d.IsParsed := ⟨text, document, h, hd⟩
    have scope := parsed.isScope
    exact ⟨scope.apart, scope.element?_name, fun sheets statements at_ D e hv =>
      hv.isNew (parsed.fits statements), fun sheets D hD => Routine.eachNew_of_draft parsed hD,
      fun a active root s hs => a.applyScope_isNew scope active root hs⟩
  · obtain ⟨start, tries, hstart, hle, htaken, hfree, hmade⟩ := names.makeUp_search tag
    exact ⟨start, tries, hstart, hle, htaken, hfree, by rw [hmade]⟩

/-- A component with two labels, of which the first has a layout id that could be made up for the
second, and with a component in place that has a label too. -/
def numbered : Definition where
  typeName := "A"
  isRoot := false
  isAnonymous := false
  styles := []
  properties := []
  children :=
    [⟨.label, none, { id := some "temp_label_1" }, [], [], [], none, "temp_label_1"⟩,
     ⟨.label, none, {}, [], [], [], none, "temp_label_2"⟩,
     ⟨.component, none, {}, [], [], [], some (.inline {
        typeName := "A_temp_component_1"
        isRoot := false
        isAnonymous := true
        styles := []
        properties := []
        children := [⟨.label, none, {}, [], [], [], none, "temp_label_1"⟩] }), "temp_component_1"⟩]

/-- The second label gets another name than the id of the first one, and the label in place gets that
name in its own scope. -/
theorem names_numbered :
    Definition.ofText
      "<Component type=\"A\"><Label layout:id=\"temp_label_1\"/><Label/><Component><Label/></Component></Component>" =
      .ok numbered ∧
    numbered.elements.Pairwise Apart ∧
    ∀ sheets D, Routine.draft sheets numbered = .ok D → Draft.EachNew D.placed := by
  have read : Definition.ofText
      "<Component type=\"A\"><Label layout:id=\"temp_label_1\"/><Label/><Component><Label/></Component></Component>" =
      .ok numbered := by
    rw [Definition.ofText_ofList]
    cbv
  obtain ⟨apart, -, -, drafts, -⟩ := (Definition.names_of_ofText (H := Empty) read).1 numbered
    (Definition.mem_definitions_iff.2 (.inl rfl))
  exact ⟨read, apart, drafts⟩

end ViewMarkup
