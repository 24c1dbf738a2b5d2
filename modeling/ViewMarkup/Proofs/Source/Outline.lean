import ViewMarkup.Proofs.Document.Paths
import ViewMarkup.Proofs.Source.Drafting

/-!
# Outlines

A routine goes through the elements of a component and through those of the anonymous components in
place. The outline of a definition lists these elements in order and says of each what it is attached
to and whose scope it belongs to, without any names: both are given by places in the outline, so that
names that are repeated in different scopes cannot be mistaken for each other. A draft follows the
outline of its definition.

## Main definitions

* `Outlined` — an element of an outline.
* `Definition.outline` — the outline of a definition.
* `Element.within` — what a routine builds inside an element.
* `Outlined.attached`, `Outlined.inScope` — what is attached to an element, and what is in its scope.
* `Follows` — drafted elements follow an outline.

## Main statements

* `Definition.isOutlineOf_outline` — what is attached to what, and what is in which scope.
* `Drafts.follows` — drafted elements follow the outline of the elements that they are drafted from.
* `IsScopeAt.inj`, `IsScopeAt.unique` — homes have a scope each.
-/

namespace ViewMarkup

/-- An element of an outline. -/
structure Outlined where
  /-- The element. -/
  element : Element
  /-- The place of the element that it is attached to; without one it is attached to the component. -/
  above : Option Nat
  /-- The place of the anonymous component in place whose scope it belongs to; without one it belongs
  to the component's own scope. -/
  home : Option Nat

namespace Element

/-- The element is an anonymous component in place, which has a scope of its own. -/
def isBox (e : Element) : Bool := e.kind = .component && e.reference.any (·.isAnonymous)

mutual

/-- The outline of an element from a place on: the element, and what is inside it. -/
def outline (above home : Option Nat) (place : Nat) : Element → List Outlined
  | ⟨kind, field, layout, properties, styles, children, reference, name⟩ =>
      ⟨⟨kind, field, layout, properties, styles, children, reference, name⟩, above, home⟩ ::
        if kind.acceptsChildren then outlineAll (some place) home (place + 1) children
        else outlineInside kind place reference

/-- The outlines of elements, one after the other. -/
def outlineAll (above home : Option Nat) (place : Nat) : List Element → List Outlined
  | [] => []
  | e :: es => outline above home place e ++
      outlineAll above home (place + (outline above home place e).length) es

/-- The outline of an anonymous component in place at a place. -/
def outlineInside (kind : Kind) (place : Nat) : Option TypeReference → List Outlined
  | some (.inline ⟨_, _, isAnonymous, _, _, children⟩) =>
      if isAnonymous ∧ kind = .component then outlineAll (some place) (some place) (place + 1) children
      else []
  | _ => []

end

/-- **What a routine builds inside an element**: the elements inside it, or those of its anonymous
component. -/
def within (e : Element) : List Element :=
  if e.kind.acceptsChildren then e.children
  else if e.isBox then (e.inline?.map (·.children)).getD [] else []

/-- The element of an anonymous component in place. -/
lemma isBox_iff {e : Element} : e.isBox = true ↔
    e.kind = .component ∧ ∃ d, e.reference = some (.inline d) ∧ d.isAnonymous = true := by
  rw [isBox, Bool.and_eq_true, decide_eq_true_eq]
  refine and_congr_right fun _ => ?_
  rcases e.reference with _ | _ | d
  · simp
  · simp [TypeReference.isAnonymous]
  · simp [TypeReference.isAnonymous]

/-- An element that takes others is no box. -/
lemma isBox_eq_false {e : Element} (h : e.kind.acceptsChildren = true) : e.isBox = false := by
  refine Bool.eq_false_iff.2 fun hbox => ?_
  rw [(isBox_iff.1 hbox).1] at h
  cases h

/-- Inside the element of an anonymous component are the elements of its definition. -/
lemma within_of_inline {e : Element} {d : Definition} (hk : e.kind = .component)
    (hr : e.reference = some (.inline d)) (ha : d.isAnonymous = true) : e.within = d.children := by
  rw [within, if_neg (by rw [hk]; decide), if_pos (isBox_iff.2 ⟨hk, d, hr, ha⟩), inline?, hr]
  rfl

/-- The outline inside an element is that of the anonymous component, or empty. -/
lemma outlineInside_eq (e : Element) (place : Nat) :
    outlineInside e.kind place e.reference = if e.isBox then
      outlineAll (some place) (some place) (place + 1) ((e.inline?.map (·.children)).getD []) else [] := by
  rw [outlineInside.eq_def]
  split
  · next typeName isRoot isAnonymous styles properties children hr =>
    rw [isBox, inline?, hr]
    by_cases h : isAnonymous = true ∧ e.kind = .component
    · rw [if_pos h, if_pos (by simp [h.1, h.2, TypeReference.isAnonymous])]
      rfl
    · rw [if_neg h, if_neg fun hbox => h (by simpa [TypeReference.isAnonymous, and_comm] using hbox)]
  · next hr =>
    rw [if_neg fun hbox => ?_]
    obtain ⟨-, ⟨_, _, _, _, _, _⟩, h, -⟩ := isBox_iff.1 hbox
    exact hr _ _ _ _ _ _ h

/-- An element comes before what is inside it, which is attached to it, and is in a scope of its own if
the element is a box. -/
lemma outline_eq (above home : Option Nat) (place : Nat) (e : Element) :
    outline above home place e = ⟨e, above, home⟩ ::
      outlineAll (some place) (if e.isBox then some place else home) (place + 1) e.within := by
  have split : outline above home place e = ⟨e, above, home⟩ ::
      if e.kind.acceptsChildren then outlineAll (some place) home (place + 1) e.children
      else outlineInside e.kind place e.reference := by
    cases e
    rw [outline]
  rw [split, outlineInside_eq, within]
  by_cases hk : e.kind.acceptsChildren = true
  · rw [if_pos hk, if_pos hk, isBox_eq_false hk]
    rfl
  · rw [if_neg hk, if_neg hk]
    split <;> rfl

end Element

/-- **The outline of a definition**: its elements in order, with those of the anonymous components in
place. -/
def Definition.outline (d : Definition) : List Outlined := Element.outlineAll none none 0 d.children

/-! ### What an outline says -/

namespace Outlined

/-- The elements for which a key of what they are attached to and of whose scope they belong to has a
given value, in order. -/
def select (key : Option Nat → Option Nat → Option Nat) (os : List Outlined) (entry : Option Nat) :
    List Element :=
  (os.filter fun o => key o.above o.home = entry).map (·.element)

/-- The elements that are attached to what is at a place. -/
def attached (os : List Outlined) (place : Option Nat) : List Element :=
  select (fun above _ => above) os place

/-- The elements of the scope of the box at a place. -/
def inScope (os : List Outlined) (place : Option Nat) : List Element :=
  select (fun _ home => home) os place

/-- Inside an element a key is the place of the element or what it is outside. -/
def IsKey (key : Option Nat → Option Nat → Option Nat) : Prop :=
  ∀ (above home : Option Nat) (place : Nat) (box : Bool),
    key (some place) (if box then some place else home) = some place ∨
      key (some place) (if box then some place else home) = key above home

/-- The element above is a key of the outline. -/
lemma isKey_above : IsKey fun above _ => above := fun _ _ _ _ => .inl rfl

/-- So is the element whose component it belongs to. -/
lemma isKey_home : IsKey fun _ home => home := fun _ _ _ box => by
  cases box
  · exact .inr rfl
  · exact .inl rfl

variable {key : Option Nat → Option Nat → Option Nat} {entry : Option Nat} {os os' : List Outlined}

/-- What is selected from two outlines. -/
lemma select_append : select key (os ++ os') entry = select key os entry ++ select key os' entry := by
  rw [select, List.filter_append, List.map_append]
  rfl

/-- An element is selected if its entry is the one. -/
lemma select_cons_of_eq {o : Outlined} (h : key o.above o.home = entry) :
    select key (o :: os) entry = o.element :: select key os entry := by
  rw [select, List.filter_cons_of_pos (by simpa using h), List.map_cons]
  rfl

/-- It is not selected if its entry is another one. -/
lemma select_cons_of_ne {o : Outlined} (h : key o.above o.home ≠ entry) :
    select key (o :: os) entry = select key os entry := by
  rw [select, List.filter_cons_of_neg (by simpa using h)]
  rfl

end Outlined

namespace Element

open Outlined

/-- **Induction over elements with what a routine builds inside them.** -/
@[elab_as_elim]
theorem induction_within {P : List Element → Prop} (nil : P [])
    (cons : ∀ e es, P e.within → P es → P (e :: es)) (es : List Element) : P es := by
  induction es using induction_inside with
  | nil => exact nil
  | cons e es hinline hchildren hes =>
    refine cons e es ?_ hes
    unfold within
    split
    · exact hchildren
    · split
      · cases hd : e.inline? with
        | none => exact nil
        | some d => exact hinline d hd
      · exact nil

section Places

variable {above home : Option Nat} {place : Nat} {key : Option Nat → Option Nat → Option Nat}

/-- The outline of what a routine builds inside the element at a place. -/
def outlineWithin (home : Option Nat) (place : Nat) (e : Element) : List Outlined :=
  outlineAll (some place) (if e.isBox then some place else home) (place + 1) e.within

/-- The outline of elements: the first, those inside it, and those behind it. -/
lemma outlineAll_cons (e : Element) (es : List Element) :
    outlineAll above home place (e :: es) = ⟨e, above, home⟩ :: (outlineWithin home place e ++
      outlineAll above home (place + 1 + (outlineWithin home place e).length) es) := by
  rw [outlineAll, outline_eq, List.cons_append, List.length_cons, Nat.add_assoc place 1,
    Nat.add_comm 1]
  rfl

/-- **The entries of an outline** are those around it or places in it. -/
theorem key_eq_or (hkey : IsKey key) (es : List Element) :
    ∀ o ∈ outlineAll above home place es, key o.above o.home = key above home ∨
      ∃ j, key o.above o.home = some j ∧ place ≤ j ∧
        j < place + (outlineAll above home place es).length := by
  induction es using induction_within generalizing above home place with
  | nil => exact fun _ ho => (List.not_mem_nil ho).elim
  | cons e es hwithin hes =>
    rw [outlineAll_cons]
    intro o ho
    rw [List.length_cons, List.length_append]
    rcases List.mem_cons.1 ho with rfl | ho
    · exact .inl rfl
    · rcases List.mem_append.1 ho with ho | ho
      · rcases hwithin o ho with heq | ⟨j, heq, hle, hlt⟩
        · rcases hkey above home place e.isBox with hplace | hsame
          · exact .inr ⟨place, heq.trans hplace, by omega, by omega⟩
          · exact .inl (heq.trans hsame)
        · rw [← outlineWithin] at hlt
          exact .inr ⟨j, heq, by omega, by omega⟩
      · exact (hes o ho).imp_right fun ⟨j, heq, hle, hlt⟩ => ⟨j, heq, by omega, by omega⟩

/-- What is not an entry around an outline, and no place in it, is no entry in it. -/
lemma select_eq_nil (hkey : IsKey key) {entry : Option Nat} (es : List Element)
    (hne : key above home ≠ entry)
    (hout : ∀ j, entry = some j → j < place ∨ place + (outlineAll above home place es).length ≤ j) :
    select key (outlineAll above home place es) entry = [] := by
  rw [select, List.filter_eq_nil_iff.2, List.map_nil]
  intro o ho
  rw [decide_eq_true_eq]
  rintro rfl
  rcases key_eq_or hkey es o ho with heq | ⟨j, heq, hle, hlt⟩
  · exact hne heq.symm
  · have := hout j heq
    omega

/-- **Only what is inside an element has its place as an entry.** -/
theorem select_of_getElem? (hkey : IsKey key) (es : List Element)
    (h : ∀ j, key above home = some j → j < place) {i : Nat} {o : Outlined}
    (ho : (outlineAll above home place es)[i]? = some o) :
    select key (outlineAll above home place es) (some (place + i)) =
      select key (outlineWithin o.home (place + i) o.element) (some (place + i)) := by
  induction es using induction_within generalizing above home place i with
  | nil => cases ho
  | cons e es hwithin hes =>
    have hne : ∀ j, place ≤ j → key above home ≠ some j := fun j hj heq => by
      have := h j heq
      omega
    rw [outlineAll_cons] at ho ⊢
    rw [select_cons_of_ne (hne _ (by omega)), select_append]
    -- the element is the first one, inside it, or behind it
    rcases i with _ | i
    · obtain rfl := Option.some.inj ho
      rw [select_eq_nil hkey es (hne _ (by omega)) fun j hj => by cases hj; omega, List.append_nil]
      rfl
    · rw [List.getElem?_cons_succ] at ho
      rcases Nat.lt_or_ge i (outlineWithin home place e).length with hlt | hge
      · rw [List.getElem?_append_left hlt] at ho
        rw [select_eq_nil hkey es (hne _ (by omega)) fun j hj => by cases hj; omega, List.append_nil]
        have := hwithin (fun j hj => ?_) ho
        · rwa [Nat.add_right_comm, Nat.add_assoc] at this
        · rcases hkey above home place e.isBox with hplace | hsame
          · have := Option.some.inj (hplace.symm.trans hj)
            omega
          · have := h j (hsame.symm.trans hj)
            omega
      · rw [List.getElem?_append_right hge] at ho
        have hwithin_nil : select key (outlineWithin home place e) (some (place + (i + 1))) = [] := by
          refine select_eq_nil hkey _ (fun heq => ?_) fun j hj => ?_
          · rcases hkey above home place e.isBox with hplace | hsame
            · have := Option.some.inj (hplace.symm.trans heq)
              omega
            · exact hne _ (by omega) (hsame.symm.trans heq)
          · cases hj
            rw [← outlineWithin]
            omega
        have := hes (fun j hj => by have := h j hj; omega) ho
        rw [show place + 1 + _ + (i - _) = place + (i + 1) by omega] at this
        rw [hwithin_nil, List.nil_append, this]

/-- The elements that an outline is for are attached as it says. -/
lemma attached_outlineAll (es : List Element) (h : ∀ j, above = some j → j < place) :
    attached (outlineAll above home place es) above = es := by
  induction es using induction_within generalizing above home place with
  | nil => rfl
  | cons e es _ hes =>
    have hinside : select (fun above _ => above) (outlineWithin home place e) above = [] :=
      select_eq_nil isKey_above _ (fun heq => absurd (h place heq.symm) (Nat.lt_irrefl _)) fun j hj => by
        have := h j hj
        omega
    rw [outlineAll_cons, attached, select_cons_of_eq rfl, select_append, hinside, List.nil_append]
    exact congrArg _ (hes fun j hj => by have := h j hj; omega)

/-- **What is attached to an element** is what a routine builds inside it. -/
theorem attached_of_getElem? (es : List Element) (h : ∀ j, above = some j → j < place) {i : Nat}
    {o : Outlined} (ho : (outlineAll above home place es)[i]? = some o) :
    attached (outlineAll above home place es) (some (place + i)) = o.element.within :=
  (select_of_getElem? isKey_above es h ho).trans
    (attached_outlineAll _ fun j hj => by cases hj; exact Nat.lt_succ_self _)

end Places

/-! ### Elements of scopes -/

section Sound

variable {above home : Option Nat} {place : Nat}

/-- The elements inside a sound one are sound. -/
lemma AreSound.within {e : Element} (h : AreSound [e]) : AreSound e.within := by
  unfold Element.within
  split
  · exact h.children
  · split
    · next hbox =>
      obtain ⟨-, d, hr, -⟩ := isBox_iff.1 hbox
      rw [inline?, hr]
      exact Definition.areSound_inline h hr
    · exact ⟨List.nodup_nil, fun _ h => (List.not_mem_nil h).elim, fun _ h => (List.not_mem_nil h).elim⟩

/-- An element that is no box has nothing inside it but what is inside it in its own scope. -/
lemma AreSound.within_eq {e : Element} (h : AreSound [e]) :
    if e.isBox then e.children = [] else e.within = e.children := by
  have hnil := h.children_eq_nil e (by rw [walkAll_cons]; exact List.mem_cons_self)
  split
  · next hbox => exact hnil (by rw [(isBox_iff.1 hbox).1]; rfl)
  · next hbox =>
    rw [Element.within, if_neg hbox]
    split
    · rfl
    · next hk => exact (hnil (Bool.eq_false_iff.2 hk)).symm

/-- The elements of an outline are sound if those that it was made from are. -/
lemma AreSound.of_mem_outlineAll {es : List Element} (hs : AreSound es) {o : Outlined}
    (ho : o ∈ outlineAll above home place es) : AreSound [o.element] := by
  induction es using induction_within generalizing above home place with
  | nil => exact (List.not_mem_nil ho).elim
  | cons e es hwithin hes =>
    rw [outlineAll_cons, List.mem_cons, List.mem_append] at ho
    rcases ho with rfl | ho | ho
    · exact hs.head
    · exact hwithin hs.head.within ho
    · exact hes hs.tail ho

/-- The elements of the scope around are those that are walked. -/
lemma inScope_outlineAll (es : List Element) (hs : AreSound es) (h : ∀ j, home = some j → j < place) :
    inScope (outlineAll above home place es) home = walkAll es := by
  induction es using induction_within generalizing above home place with
  | nil => rfl
  | cons e es hwithin hes =>
    have hinside : inScope (outlineWithin home place e) home = walkAll e.children := by
      have heq := hs.head.within_eq
      unfold outlineWithin
      split at heq
      · next hbox =>
        rw [heq, if_pos hbox]
        refine select_eq_nil isKey_home _ (fun heq => absurd (h place heq.symm) (Nat.lt_irrefl _)) ?_
        intro j hj
        have := h j hj
        omega
      · next hbox =>
        rw [if_neg hbox, hwithin hs.head.within fun j hj => by have := h j hj; omega, heq]
    rw [outlineAll_cons, inScope, select_cons_of_eq rfl, select_append, walkAll_cons]
    unfold inScope at hinside hes
    rw [hinside, hes hs.tail fun j hj => by have := h j hj; omega]

/-- **The scope of a box** has the elements of its definition. -/
theorem inScope_of_getElem? (es : List Element) (hs : AreSound es) (h : ∀ j, home = some j → j < place)
    {i : Nat} {o : Outlined} (ho : (outlineAll above home place es)[i]? = some o)
    (hbox : o.element.isBox = true) :
    inScope (outlineAll above home place es) (some (place + i)) = walkAll o.element.within := by
  refine (select_of_getElem? isKey_home es h ho).trans ?_
  rw [outlineWithin, if_pos hbox]
  exact inScope_outlineAll _ (hs.of_mem_outlineAll (List.mem_of_getElem? ho)).within fun j hj => by
    cases hj
    exact Nat.lt_succ_self _

end Sound

end Element

/-- **The outline of a definition says what is inside what**: what is attached to the component and to
each of its elements is what the definition has there, and the elements of the scopes are those of the
definitions. -/
structure Outlined.IsOutlineOf (os : List Outlined) (d : Definition) : Prop where
  /-- The elements at the top are attached to the component. -/
  attached_none : attached os none = d.children
  /-- What is inside an element is attached to it. -/
  attached_some : ∀ place o, os[place]? = some o → attached os (some place) = o.element.within
  /-- The component's own scope has the elements of the definition. -/
  inScope_none : inScope os none = d.elements
  /-- The scope of a box has the elements of its definition. -/
  inScope_some : ∀ place o nested, os[place]? = some o → o.element.isBox = true →
    o.element.inline? = some nested → inScope os (some place) = nested.elements

/-- The outline of a definition is one of that definition. -/
theorem Definition.isOutlineOf_outline {d : Definition} (hd : d.IsParsed) :
    Outlined.IsOutlineOf d.outline d := by
  have none_lt : ∀ j, (none : Option Nat) = some j → j < 0 := fun _ h => nomatch h
  refine ⟨Element.attached_outlineAll _ none_lt, fun place o ho => ?_,
    Element.inScope_outlineAll _ hd.areSound none_lt, fun place o nested ho hbox hn => ?_⟩
  · have := Element.attached_of_getElem? _ none_lt ho
    rwa [Nat.zero_add] at this
  · have := Element.inScope_of_getElem? _ hd.areSound none_lt ho hbox
    obtain ⟨hk, d', hr, ha⟩ := Element.isBox_iff.1 hbox
    rw [Element.inline?, hr] at hn
    rw [Nat.zero_add, Element.within_of_inline hk hr ha, Option.some.inj hn] at this
    exact this

/-! ### Places and what stands for them -/

/-- A holder is the local name of the element at a place, or the component itself. -/
def Holder.IsAt (locals : List Identifier) : Option Nat → Holder → Prop
  | none, holder => holder = .component
  | some place, holder => ∃ name, locals[place]? = some name ∧ holder = .element name

/-- A scope is the one that begins with the box at a place, or the first one. -/
def IsScopeAt (elements : List Element) : Option Nat → Nat → Prop
  | none, scope => scope = 0
  | some place, scope => ∃ e, elements[place]? = some e ∧ e.isBox = true ∧
      scope = (elements.take place).countP (·.isBox) + 1

/-- The holder at a place stays there when further local names are given out. -/
lemma Holder.IsAt.append {locals : List Identifier} {above : Option Nat} {holder : Holder}
    (h : holder.IsAt locals above) (more : List Identifier) : holder.IsAt (locals ++ more) above := by
  cases above with
  | none => exact h
  | some place =>
    obtain ⟨name, hname, heq⟩ := h
    obtain ⟨hlt, -⟩ := List.getElem?_eq_some_iff.1 hname
    exact ⟨name, by rw [List.getElem?_append_left hlt, hname], heq⟩

namespace IsScopeAt

variable {elements : List Element} {home home' : Option Nat} {scope scope' : Nat}

/-- A scope at a place stays there when further elements come. -/
lemma append (h : IsScopeAt elements home scope) (more : List Element) :
    IsScopeAt (elements ++ more) home scope := by
  cases home with
  | none => exact h
  | some place =>
    obtain ⟨e, he, hbox, heq⟩ := h
    obtain ⟨hlt, -⟩ := List.getElem?_eq_some_iff.1 he
    refine ⟨e, by rw [List.getElem?_append_left hlt, he], hbox, ?_⟩
    rw [List.take_append_of_le_length hlt.le, heq]

/-- A home has one scope. -/
theorem unique (h : IsScopeAt elements home scope) (h' : IsScopeAt elements home scope') : scope = scope' := by
  cases home with
  | none => exact h.trans h'.symm
  | some place =>
    obtain ⟨-, -, -, heq⟩ := h
    obtain ⟨-, -, -, heq'⟩ := h'
    exact heq.trans heq'.symm

/-- A box is counted by those behind it. -/
lemma countP_lt {place place' : Nat} {e : Element} (he : elements[place]? = some e)
    (hbox : e.isBox = true) (hlt : place < place') :
    (elements.take place).countP (·.isBox) < (elements.take place').countP (·.isBox) := by
  obtain ⟨hplace, rfl⟩ := List.getElem?_eq_some_iff.1 he
  calc (elements.take place).countP (·.isBox)
      < (elements.take (place + 1)).countP (·.isBox) := by
        rw [List.take_add_one, he, List.countP_append, Option.toList_some, List.countP_singleton,
          if_pos hbox]
        exact Nat.lt_succ_self _
    _ ≤ (elements.take place').countP (·.isBox) :=
        (List.take_prefix_take_left (by omega)).sublist.countP_le

/-- **Different homes have different scopes.** -/
theorem inj (h : IsScopeAt elements home scope) (h' : IsScopeAt elements home' scope) : home = home' := by
  cases home with
  | none =>
    cases home' with
    | none => rfl
    | some place' =>
      obtain ⟨-, -, -, heq⟩ := h'
      have : scope = 0 := h
      omega
  | some place =>
    obtain ⟨e, he, hbox, heq⟩ := h
    cases home' with
    | none =>
      have : scope = 0 := h'
      omega
    | some place' =>
      obtain ⟨e', he', hbox', heq'⟩ := h'
      rcases Nat.lt_trichotomy place place' with hlt | rfl | hlt
      · have := countP_lt he hbox hlt
        omega
      · rfl
      · have := countP_lt he' hbox' hlt
        omega

end IsScopeAt

/-! ### Drafts follow outlines -/

/-- **Drafted elements follow an outline**, with those that are drafted before: each is the element
that is next, is attached to what the outline says, and belongs to the scope that it says. -/
inductive Follows : List Placed → List Outlined → List Drafted → Prop where
  /-- No elements. -/
  | nil {before : List Placed} : Follows before [] []
  /-- An element and those after it. -/
  | cons {before : List Placed} {o : Outlined} {os : List Outlined} {w : Drafted} {ws : List Drafted} :
      w.placed.element = o.element → w.placed.parent.IsAt (before.map (·.name)) o.above →
      IsScopeAt (before.map (·.element)) o.home w.placed.scope →
      Follows (before ++ [w.placed]) os ws → Follows before (o :: os) (w :: ws)

namespace Follows

variable {before : List Placed} {os os' : List Outlined} {ws ws' : List Drafted}

/-- There is one draft for each element of the outline. -/
lemma length_eq (h : Follows before os ws) : os.length = ws.length := by
  induction h with
  | nil => rfl
  | cons _ _ _ _ ih => rw [List.length_cons, List.length_cons, ih]

/-- Some elements are followed and then others. -/
lemma append (h : Follows before os ws) (h' : Follows (before ++ ws.map (·.placed)) os' ws') :
    Follows before (os ++ os') (ws ++ ws') := by
  induction h with
  | nil => rwa [List.map_nil, List.append_nil] at h'
  | cons he hp hs _ ih =>
    rw [List.map_cons, List.append_cons] at h'
    exact .cons he hp hs (ih h')

end Follows

namespace Inside

variable {at_ at' : Place} {e : Element} {name : Identifier} {n n₁ : Nat} {es' : List Element}

/-- What is drafted inside an element is what a routine builds inside it, and there is one scope more
if the element is a box. -/
lemma within_eq (h : Inside at_ e name n at' es' n₁) :
    es' = e.within ∧ n₁ = n + if e.isBox then 1 else 0 := by
  cases h with
  | nothing hk hno =>
    have hbox : e.isBox = false := by
      refine Bool.eq_false_iff.2 fun hbox => ?_
      obtain ⟨hcomp, d, hr, ha⟩ := Element.isBox_iff.1 hbox
      rw [hno d hr hcomp] at ha
      cases ha
    rw [Element.within, hbox, hk]
    exact ⟨rfl, rfl⟩
  | children hk =>
    rw [Element.within, Element.isBox_eq_false hk, hk]
    exact ⟨rfl, rfl⟩
  | component hk hr ha =>
    rw [Element.within_of_inline hk hr ha, Element.isBox_iff.2 ⟨hk, _, hr, ha⟩]
    exact ⟨rfl, rfl⟩

/-- It is attached to the element, and belongs to the next scope if the element is a box. -/
lemma eq_nil_or (h : Inside at_ e name n at' es' n₁) : es' = [] ∨
    at'.parent = .element name ∧ at'.scope = if e.isBox then n else at_.scope := by
  cases h with
  | nothing => exact .inl rfl
  | children hk => exact .inr ⟨rfl, by rw [Element.isBox_eq_false hk]; rfl⟩
  | component hk hr ha => exact .inr ⟨rfl, by rw [Element.isBox_iff.2 ⟨hk, _, hr, ha⟩]; rfl⟩

end Inside

/-- **Drafted elements follow the outline** of the elements that they are drafted from, and the number
of scopes is that of boxes and one more. -/
theorem Drafts.follows {at_ : Place} {es : List Element} {n n' : Nat} {ws : List Drafted}
    (h : Drafts at_ es n n' ws) {before : List Placed} {above home : Option Nat}
    (hparent : at_.parent.IsAt (before.map (·.name)) above)
    (hscope : IsScopeAt (before.map (·.element)) home at_.scope)
    (hn : n = (before.map (·.element)).countP (·.isBox) + 1) :
    Follows before (Element.outlineAll above home before.length es) ws ∧
      n' = ((before ++ ws.map (·.placed)).map (·.element)).countP (·.isBox) + 1 := by
  induction h generalizing before above home with
  | nil => exact ⟨.nil, by rw [List.map_nil, List.append_nil, hn]⟩
  | @cons at_ at' e es es' n n₁ n₂ n' w inside after hw hi hin hafter ih ih' =>
    have helement : w.placed.element = e := by rw [hw.placed_eq]
    obtain ⟨hwithin, hn₁⟩ := hi.within_eq
    have hcount : n₁ = ((before ++ [w.placed]).map (·.element)).countP (·.isBox) + 1 := by
      rw [hn₁, hn, List.map_append, List.countP_append, List.map_singleton, List.countP_singleton,
        helement]
      omega
    -- What is inside comes next in the outline.
    have hinside : Follows (before ++ [w.placed]) (Element.outlineAll (some before.length)
        (if e.isBox then some before.length else home) (before.length + 1) es') inside ∧
        n₂ = ((before ++ [w.placed] ++ inside.map (·.placed)).map (·.element)).countP (·.isBox) + 1 := by
      rcases hi.eq_nil_or with rfl | ⟨hp, hs⟩
      · cases hin
        exact ⟨.nil, by rw [List.map_nil, List.append_nil, hcount]⟩
      · have := @ih (before ++ [w.placed]) (some before.length)
          (if e.isBox then some before.length else home) ?_ ?_ hcount
        · rwa [List.length_append, List.length_singleton] at this
        · exact ⟨w.placed.name, by simp, hp⟩
        · rw [hs]
          split
          · next hbox =>
            refine ⟨e, by simp [helement], hbox, ?_⟩
            rw [hn, List.map_append, List.take_left' (List.length_map _)]
          · rw [List.map_append]
            exact hscope.append _
    have hfirst : Follows before (Element.outline above home before.length e) (w :: inside) := by
      rw [Element.outline_eq, ← hwithin]
      exact .cons helement (by rwa [hw.placed_eq]) (by rwa [hw.placed_eq]) hinside.1
    have hplaced : before ++ (w :: inside).map (·.placed) =
        before ++ [w.placed] ++ inside.map (·.placed) := by
      rw [List.map_cons, List.append_cons]
    obtain ⟨hrest, hscopes⟩ := @ih' (before ++ (w :: inside).map (·.placed)) above home
      (by rw [List.map_append]; exact hparent.append _)
      (by rw [List.map_append]; exact hscope.append _) (by rw [hplaced, hinside.2])
    refine ⟨?_, by rw [hscopes, List.append_assoc, ← List.map_append, List.cons_append]⟩
    rw [List.length_append, List.length_map, ← hfirst.length_eq] at hrest
    rw [Element.outlineAll, ← List.cons_append]
    exact hfirst.append hrest

end ViewMarkup
