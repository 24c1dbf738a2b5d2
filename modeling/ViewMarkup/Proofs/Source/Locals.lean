import ViewMarkup.Proofs.Naming
import ViewMarkup.Proofs.Source.Identifiers
import ViewMarkup.Proofs.Source.Outline

/-!
# Local names

An element gets a local name whose text is made from the name of the element; in an anonymous
component in place the local name of the component stands in front. If that text is given out
already, numbers from two on are tried behind it. So the texts that are given out are all different.
The local names need not be: a text is read as an identifier before it is written, and texts with
comments or blanks around a name read like the name itself. Plain texts read as themselves, and if
the names of all elements are plain, so are all texts.

## Main definitions

* `Draft.base`, `Draft.candidate` — the texts that are tried for a local name.
* `Draft.Runs` — drafts go from one to the next while elements are placed.
* `Draft.Named` — the local names of a draft and their texts.

## Main statements

* `Draft.freshText_search` — the search for a free text ends.
* `Draft.Runs.of_placeAll` — the drafts while elements are placed.
* `Draft.Runs.named`, `Draft.Runs.plain` — the texts that are given out.
-/

namespace ViewMarkup.Draft

/-! ### The search for a free text -/

/-- The text for a local name that is tried first. -/
def base (stem : Option String) (name : String) : String :=
  match stem with
  | some stem => stem ++ "_" ++ name
  | none => name

/-- The texts that are tried, in order: the base, and the base with the numbers from two on. -/
def candidate (base : String) : Nat → String
  | 0 => base
  | k + 1 => numbered base (k + 2)

/-- Different numbers give different texts. -/
lemma numbered_injective (base : String) (i j : Nat) (h : numbered base i = numbered base j) :
    i = j := by
  have hr : i.repr = j.repr := String.append_right_inj _ |>.1 h
  have digits := congrArg (fun text => Nat.ofDigitChars 10 text.toList 0) hr
  simpa using digits

/-- A text with a number behind it is another one. -/
lemma ne_numbered (base : String) (n : Nat) : base ≠ numbered base n := by
  intro h
  have := congrArg String.length h
  simp only [numbered, String.length_append] at this
  have : "_".length = 1 := rfl
  omega

/-- Different numbers give different candidates. -/
lemma candidate_injective (base : String) : Function.Injective (candidate base) := by
  intro i j h
  match i, j with
  | 0, 0 => rfl
  | 0, j + 1 => exact absurd h (ne_numbered base _)
  | i + 1, 0 => exact absurd h.symm (ne_numbered base _)
  | i + 1, j + 1 => have := numbered_injective base _ _ h; omega

/-- **The search for a free text ends.** The texts are tried in order; those that are tried in vain are
given out, and there are no more of them than texts given out. -/
theorem freshText_search (used : List String) (base : String) : ∃ tries,
    tries ≤ used.length ∧ (∀ k < tries, candidate base k ∈ used) ∧ candidate base tries ∉ used ∧
      freshText used base = candidate base tries := by
  suffices h : ∃ tries, (∀ k < tries, candidate base k ∈ used) ∧ candidate base tries ∉ used ∧
      freshText used base = candidate base tries by
    obtain ⟨tries, htaken, hfree, heq⟩ := h
    refine ⟨tries, ?_, htaken, hfree, heq⟩
    -- the texts tried in vain are different and given out
    have hnodup : ((List.range tries).map (candidate base)).Nodup :=
      List.nodup_range.map (candidate_injective base)
    have hsub : (List.range tries).map (candidate base) ⊆ used := by
      intro text ht
      obtain ⟨k, hk, rfl⟩ := List.mem_map.1 ht
      exact htaken k (List.mem_range.1 hk)
    simpa using (List.subperm_of_subset hnodup hsub).length_le
  unfold freshText
  split
  · next hbase =>
    obtain ⟨k, hk⟩ := Nat.exists_eq_add_of_le (le_firstFree (numbered base) used 2)
    refine ⟨k + 1, fun i hi => ?_, ?_, ?_⟩
    · cases i with
      | zero => exact hbase
      | succ i =>
        have : numbered base (i + 2) ∈ used := mem_of_lt_firstFree (n := 2) (by omega) (by omega)
        exact this
    · have := firstFree_not_mem (numbered_injective base) used 2
      rwa [hk, Nat.add_comm] at this
    · rw [hk, Nat.add_comm]
      rfl
  · next hbase => exact ⟨0, fun k hk => absurd hk (Nat.not_lt_zero k), hbase, rfl⟩

/-! ### The drafts while elements are placed -/

variable {sheets : StyleSheets} {at_ at' : Place} {D D' D₁ : Draft} {e : Element} {es : List Element}

/-- **Placing an element** gives out a text that is free, and the local name is what it reads as. -/
theorem placeOne_text {name : Identifier} (h : D.placeOne sheets at_ e = .ok (name, D')) :
    D'.used = freshText D.used (base at_.stem e.name) :: D.used ∧
      Identifier.ofText? (freshText D.used (base at_.stem e.name)) = some name ∧
      D'.placed = D.placed ++ [⟨e, name, at_.parent, at_.scope, at_.styles⟩] := by
  obtain ⟨⟨name', D₁⟩, hname, h⟩ := Except.bind_eq_ok.1 h
  obtain ⟨c, -, h⟩ := Except.bind_eq_ok.1 h
  obtain ⟨ps, -, h⟩ := Except.bind_eq_ok.1 h
  obtain ⟨rows, -, h⟩ := Except.bind_eq_ok.1 h
  cases h
  obtain ⟨_, -, hname⟩ := Except.bind_eq_ok.1 hname
  obtain ⟨i, hi, hname⟩ := Except.bind_eq_ok.1 hname
  cases hname
  refine ⟨rfl, ?_, rfl⟩
  unfold Identifier.ofText at hi
  split at hi
  · next hread =>
    cases hi
    exact hread
  · cases hi

/-- **Drafts go from one to the next** while elements are placed in given surroundings, each with what is
inside it. -/
inductive Runs (sheets : StyleSheets) : Place → Draft → List Element → Draft → Prop where
  /-- No elements. -/
  | nil {at_ : Place} {D : Draft} : Runs sheets at_ D [] D
  /-- An element, what is inside it, and the elements after it. -/
  | cons {at_ at' : Place} {D D₁ D₂ D' : Draft} {e : Element} {es es' : List Element}
      {name : Identifier} {scopes : Nat} :
      D.placeOne sheets at_ e = .ok (name, D₁) → Inside at_ e name D₁.scopes at' es' scopes →
      Runs sheets at' { D₁ with scopes } es' D₂ → Runs sheets at_ D₂ es D' →
      Runs sheets at_ D (e :: es) D'

/-- What is to be shown of placing an element. -/
def OneRuns (sheets : StyleSheets) (at_ : Place) (D : Draft) (e : Element) : Prop :=
  ∀ D', D.place sheets at_ e = .ok D' → Runs sheets at_ D [e] D'

/-- What is to be shown of placing what is inside a component. -/
def InlineRuns (sheets : StyleSheets) (kind : Kind) (name : Identifier) (D : Draft)
    (r : Option TypeReference) : Prop :=
  ∀ (at_ : Place) (e : Element), e.kind = kind → e.reference = r → e.kind.acceptsChildren = false →
    ∀ D', D.placeInline sheets kind name r = .ok D' → ∃ at' es' scopes,
      Inside at_ e name D.scopes at' es' scopes ∧ Runs sheets at' { D with scopes } es' D'

/-- What is to be shown of placing elements. -/
def AllRun (sheets : StyleSheets) (at_ : Place) (D : Draft) (es : List Element) : Prop :=
  ∀ D', D.placeAll sheets at_ es = .ok D' → Runs sheets at_ D es D'

/-- **The drafts while elements are placed.** -/
theorem Runs.of_placeAll (at_ : Place) (D : Draft) (es : List Element) : AllRun sheets at_ D es := by
  refine (place.mutual_induct (OneRuns sheets) (InlineRuns sheets) (AllRun sheets)
    ?one ?nil ?cons ?component ?declared ?none).2.2 at_ D es
  case one =>
    intro at_ D kind field layout properties styles children reference name hchildren hinline D' h
    rw [place_eq] at h
    obtain ⟨⟨i, D₁⟩, hone, h⟩ := Except.bind_eq_ok.1 h
    simp only at h
    split at h
    · next hk => exact .cons hone (.children hk) (hchildren _ _ D' h) .nil
    · next hk =>
      obtain ⟨at', es', scopes, hi, hin⟩ := hinline i D₁ at_
        ⟨kind, field, layout, properties, styles, children, reference, name⟩ rfl rfl
        (Bool.eq_false_iff.2 hk) D' h
      exact .cons hone hi hin .nil
  case nil =>
    intro at_ D D' h
    cases h
    exact .nil
  case cons =>
    intro at_ D e es hone hall D' h
    rw [placeAll] at h
    obtain ⟨D₁, hplace, h⟩ := Except.bind_eq_ok.1 h
    cases hone D₁ hplace with
    | cons hone hi hin hnil =>
      cases hnil
      exact .cons hone hi hin (hall D₁ D' h)
  case component =>
    intro kind name D typeName isRoot isAnonymous styles properties children hc hall at_ e hk hr _ D' h
    rw [placeInline, if_pos hc] at h
    exact ⟨_, _, _, .component (hk.trans hc.2) hr hc.1, hall D' h⟩
  case declared =>
    intro kind name D typeName isRoot isAnonymous styles properties children hc at_ e hk hr ha D' h
    rw [placeInline, if_neg hc] at h
    cases h
    refine ⟨at_, [], D.scopes, .nothing ha fun d hd hcomp => ?_, .nil⟩
    rw [hr] at hd
    cases hd
    exact Bool.eq_false_iff.2 fun h => hc ⟨h, hk ▸ hcomp⟩
  case none =>
    intro r kind name D hr at_ e hk he ha D' h
    rw [placeInline] at h
    · cases h
      refine ⟨at_, [], D.scopes, .nothing ha fun d hd _ => ?_, .nil⟩
      obtain ⟨typeName, isRoot, isAnonymous, styles, properties, children⟩ := d
      exact (hr _ _ _ _ _ _ (he.symm.trans hd)).elim
    · exact hr

/-! ### The texts that are given out -/

/-- **The local names of a draft**: the texts that are given out are different, and the local names are
what they read as. -/
structure Named (D : Draft) : Prop where
  /-- The texts are different. -/
  nodup : D.used.Nodup
  /-- The local names are what they read as. -/
  reads : List.Forall₂ (fun text p => Identifier.ofText? text = some p.name) D.used.reverse D.placed

/-- Placing an element keeps the texts different. -/
lemma Named.of_placeOne {name : Identifier} (hD : D.Named)
    (h : D.placeOne sheets at_ e = .ok (name, D')) : D'.Named := by
  obtain ⟨hused, hread, hplaced⟩ := placeOne_text h
  obtain ⟨tries, -, -, hfree, htext⟩ := freshText_search D.used (base at_.stem e.name)
  constructor
  · rw [hused, List.nodup_cons, htext]
    exact ⟨hfree, hD.nodup⟩
  · rw [hused, hplaced, List.reverse_cons]
    exact List.rel_append hD.reads (.cons hread .nil)

/-- **All texts that are given out are different.** -/
theorem Runs.named (h : Runs sheets at_ D es D') (hD : D.Named) : D'.Named := by
  induction h with
  | nil => exact hD
  | cons hone _ _ _ ih ih' =>
    have := hD.of_placeOne hone
    exact ih' (ih ⟨this.nodup, this.reads⟩)

open Identifier in
/-- The text of a local name is plain if the names that it is made of are. -/
lemma isPlain_freshText {used : List String} {stem : Option String} {name : String}
    (hstem : ∀ text, stem = some text → IsPlain text) (hname : IsPlain name) :
    IsPlain (freshText used (base stem name)) := by
  have hbase : IsPlain (base stem name) := by
    cases stem with
    | none => exact hname
    | some text => exact (hstem text rfl).append hname
  unfold freshText
  split
  · exact hbase.numbered _
  · exact hbase

/-- What is inside an element gets names that begin as those around it or with that of the element. -/
lemma stem_of_inside {name : Identifier} {n n₁ : Nat} {es' : List Element}
    (h : Inside at_ e name n at' es' n₁) : at'.stem = at_.stem ∨ at'.stem = some name.text := by
  cases h with
  | nothing => exact .inl rfl
  | children => exact .inl rfl
  | component => exact .inr rfl

open Identifier in
/-- **All texts that are given out are plain** if the names of all elements are. -/
theorem Runs.plain (h : Runs sheets at_ D es D') {above home : Option Nat} {place : Nat}
    (hstem : ∀ text, at_.stem = some text → IsPlain text)
    (hnames : ∀ o ∈ Element.outlineAll above home place es, IsPlain o.element.name)
    (hD : ∀ text ∈ D.used, IsPlain text) : ∀ text ∈ D'.used, IsPlain text := by
  induction h generalizing above home place with
  | nil => exact hD
  | @cons at_ at' D D₁ D₂ D' e es es' name scopes hone hi _ _ ih ih' =>
    rw [Element.outlineAll_cons, List.forall_mem_cons, List.forall_mem_append] at hnames
    obtain ⟨hname, hinside, hafter⟩ := hnames
    rw [Element.outlineWithin, ← hi.within_eq.1] at hinside
    obtain ⟨hused, hread, -⟩ := placeOne_text hone
    have htext : IsPlain (freshText D.used (base at_.stem e.name)) := isPlain_freshText hstem hname
    refine ih' hstem hafter (ih (fun text ht => ?_) hinside ?_)
    · rcases stem_of_inside hi with heq | heq
      · exact hstem text (heq ▸ ht)
      · -- the name of the component is read from a plain text, and so it is that text
        rw [heq, htext.eq_of_ofText? hread] at ht
        exact Option.some.inj ht ▸ htext
    · intro text ht
      rw [hused] at ht
      rcases List.mem_cons.1 ht with rfl | ht
      · exact htext
      · exact hD text ht

end ViewMarkup.Draft
