import ViewMarkup.Proofs.Fallible
import ViewMarkup.Source.Build

/-!
# What can go wrong in a draft

While elements are placed nothing can go wrong but that a name is no identifier or a number has no
literal. Constraints fail for these reasons, too, and else only if their targets mean nothing.

## Main definitions

* `BuildError.IsUnwritable` — a name or a number that cannot be written is to blame.
* `FailsUnwritten` — a computation fails for no other reason.

## Main statements

* `Draft.failsUnwritten_placeAll` — the placing of elements.
* `Draft.failsUnwritten_constrain` — a constraint whose target means something.
* `Draft.constrain_spec` — the statement of a constraint.
-/

namespace ViewMarkup

/-- A name that is no identifier or a number without a literal is to blame. -/
def BuildError.IsUnwritable : BuildError → Prop
  | unresolvedTarget _ _ _ => False
  | invalidIdentifier _ => True
  | nonFiniteNumber _ => True

/-- A computation fails for no other reason than a name or a number that cannot be written. -/
def FailsUnwritten {α : Type} (x : Except BuildError α) : Prop :=
  ∀ e, x = .error e → e.IsUnwritable

namespace FailsUnwritten

variable {α β : Type} {x : Except BuildError α} {f : α → Except BuildError β}

/-- A result is no failure. -/
lemma ok (a : α) : FailsUnwritten (.ok a) := fun _ h => nomatch h

/-- One computation after the other fails on what cannot be written, if both do. -/
lemma bind (h : FailsUnwritten x) (hf : ∀ a, x = .ok a → FailsUnwritten (f a)) :
    FailsUnwritten (x >>= f) := fun e he => by
  rcases Except.bind_eq_error.1 he with he | ⟨a, ha, he⟩
  · exact h e he
  · exact hf a ha e he

/-- So it is with a result that is changed. -/
lemma map {g : α → β} (h : FailsUnwritten x) : FailsUnwritten (x.map g) := fun e he => by
  cases x with
  | error e' =>
    cases he
    exact h e rfl
  | ok a => cases he

/-- A check that is made under a condition. -/
lemma ite {f : PUnit → Except BuildError β} (c : Bool) {x : Except BuildError PUnit}
    (h : FailsUnwritten x) (hf : ∀ u, FailsUnwritten (f u)) :
    FailsUnwritten (if c = true then x >>= f else f ()) := by
  cases c
  · exact hf _
  · exact h.bind fun u _ => hf u

/-- A check that succeeds under a condition gives way to what follows. -/
lemma ok_of_ite {f : PUnit → Except BuildError β} {c : Bool} {x : Except BuildError PUnit} {b : β}
    (h : (if c = true then x >>= f else f ()) = .ok b) : ∃ u, f u = .ok b := by
  cases c
  · exact ⟨_, h⟩
  · obtain ⟨u, -, h⟩ := Except.bind_eq_ok.1 h
    exact ⟨u, h⟩

end FailsUnwritten

open FailsUnwritten

/-! ### Names and numbers -/

/-- Reading an identifier fails on what cannot be written. -/
lemma failsUnwritten_ofText (text : String) : FailsUnwritten (Identifier.ofText text) :=
  fun e he => by
    unfold Identifier.ofText at he
    split at he
    · cases he
    · cases he
      trivial

/-- So does checking a number. -/
lemma failsUnwritten_checkFinite (x : Float) : FailsUnwritten (checkFinite x) := fun e he => by
  unfold checkFinite at he
  split at he
  · cases he
  · cases he
    trivial

/-- So does checking one with single precision. -/
lemma failsUnwritten_checkSingle (x : Float32) : FailsUnwritten (checkSingle x) := fun e he => by
  unfold checkSingle at he
  split at he
  · cases he
  · cases he
    trivial

/-- So does checking several. -/
lemma failsUnwritten_checkAll (xs : List Float) : FailsUnwritten (checkAll xs) := by
  induction xs with
  | nil => exact ok _
  | cons x xs ih => exact (failsUnwritten_checkFinite x).bind fun _ _ => ih

/-- So does checking a priority. -/
lemma failsUnwritten_checkPriority (p : Priority) : FailsUnwritten (Draft.checkPriority p) := by
  unfold Draft.checkPriority
  split
  · exact failsUnwritten_checkSingle _
  · exact ok _

/-- So does checking a value. -/
lemma failsUnwritten_check (v : Value) : FailsUnwritten v.check := by
  unfold Value.check
  split
  case h_1 | h_6 | h_7 | h_8 | h_9 => exact failsUnwritten_checkAll _
  case h_2 | h_3 | h_5 => exact failsUnwritten_checkFinite _
  case h_4 => exact failsUnwritten_checkSingle _
  all_goals exact ok _

namespace Draft

variable {sheets : StyleSheets}

/-! ### Elements -/

/-- So does assigning properties. -/
lemma failsUnwritten_assignments (holder : Holder) (ps : List Property) :
    FailsUnwritten (assignments holder ps) := by
  induction ps with
  | nil => exact ok _
  | cons p ps ih => exact (failsUnwritten_check _).bind fun _ _ => ih.bind fun _ _ => ok _

/-- So does choosing a local name. -/
lemma failsUnwritten_localName (D : Draft) (stem : Option String) (name : String) :
    FailsUnwritten (D.localName stem name) :=
  (failsUnwritten_ofText _).bind fun _ _ => (failsUnwritten_ofText _).bind fun _ _ => ok _

/-- So does the construction of an element. -/
lemma failsUnwritten_construction (e : Element) (scope : Nat) :
    FailsUnwritten (construction e scope) := by
  unfold construction
  split
  · exact (failsUnwritten_ofText _).map
  · split
    · exact ok _
    · exact (failsUnwritten_ofText _).map
  · exact ok _

/-- So do the rows of a list. -/
lemma failsUnwritten_cell (e : Element) (name : Identifier) : FailsUnwritten (cell e name) := by
  unfold cell
  split
  · split
    · exact ok _
    · exact (failsUnwritten_ofText _).map
  · exact ok _

/-- So does placing an element. -/
lemma failsUnwritten_placeOne (at_ : Place) (D : Draft) (e : Element) :
    FailsUnwritten (D.placeOne sheets at_ e) :=
  (failsUnwritten_localName _ _ _).bind fun _ _ => (failsUnwritten_construction _ _).bind fun _ _ =>
    (failsUnwritten_assignments _ _).bind fun _ _ => (failsUnwritten_cell _ _).bind fun _ _ => ok _

/-- **The placing of elements** fails for no other reason. -/
theorem failsUnwritten_placeAll (at_ : Place) (D : Draft) (es : List Element) :
    FailsUnwritten (D.placeAll sheets at_ es) := by
  refine (place.mutual_induct (fun at_ D e => FailsUnwritten (D.place sheets at_ e))
    (fun kind name D r => FailsUnwritten (D.placeInline sheets kind name r))
    (fun at_ D es => FailsUnwritten (D.placeAll sheets at_ es))
    ?one ?nil ?cons ?component ?declared ?none).2.2 at_ D es
  case one =>
    intro at_ D kind field layout properties styles children reference name hchildren hinline
    rw [place]
    refine (failsUnwritten_placeOne _ _ _).bind fun ⟨i, D₁⟩ _ => ?_
    simp only
    split
    · exact hchildren _ _
    · exact hinline _ _
  case nil =>
    intro at_ D
    rw [placeAll]
    exact ok _
  case cons =>
    intro at_ D e es hone hall
    rw [placeAll]
    exact hone.bind fun D₁ _ => hall D₁
  case component =>
    intro kind name D typeName isRoot isAnonymous styles properties children hc hall
    rw [placeInline, if_pos hc]
    exact hall
  case declared =>
    intro kind name D typeName isRoot isAnonymous styles properties children hc
    rw [placeInline, if_neg hc]
    exact ok _
  case none =>
    intro r kind name D hr
    rw [placeInline]
    · exact ok _
    · exact hr

/-! ### Constraints -/

/-- Whether the target of a constraint means something. -/
def Targets (D : Draft) (p : Placed) (target : Target) : Prop :=
  (∃ v, target = .constant v) ∨ (D.target? p target).isSome = true

/-- A target that is there can be built, or it fails on what cannot be written. -/
lemma failsUnwritten_builtTarget {D : Draft} {p : Placed} {c : Constraint} (typeName : String)
    (h : D.Targets p c.target) : FailsUnwritten (D.builtTarget typeName p c) := by
  unfold builtTarget
  split
  · exact (failsUnwritten_checkFinite _).bind fun _ _ => ok _
  · next hconst =>
    obtain ⟨holder, hh⟩ := Option.isSome_iff_exists.1 (h.resolve_left fun ⟨v, hv⟩ => hconst v hv)
    rw [hh]
    exact ok _

/-- **A constraint whose target means something** fails for no other reason. -/
theorem failsUnwritten_constrain {D : Draft} {p : Placed} {c : Constraint} (typeName : String)
    (h : D.Targets p c.target) : FailsUnwritten (D.constrain typeName p c) := by
  refine (failsUnwritten_builtTarget typeName h).bind fun target _ => ?_
  refine ite _ (failsUnwritten_checkFinite _) fun _ => ?_
  refine ite _ (failsUnwritten_checkFinite _) fun _ => ?_
  refine bind (failsUnwritten_checkPriority _) fun _ _ => ?_
  cases c.captureName with
  | none => exact ok _
  | some field => exact bind (failsUnwritten_ofText field).map fun _ _ => ok _

/-- The statement of a constraint says what the constraint says. -/
theorem constrain_spec {D : Draft} {p : Placed} {c : Constraint} {typeName : String}
    {s : Statement} (h : D.constrain typeName p c = .ok s) :
    ∃ capture target, D.builtTarget typeName p c = .ok target ∧
      (∀ field, c.captureName = some field → ∃ i, Identifier.ofText field = .ok i ∧
        capture = some i) ∧
      (c.captureName = none → capture = none) ∧
      s = .constrain ⟨capture, p.name, c.anchor, c.relation, target, c.multiplier, c.constant,
        c.priority⟩ := by
  obtain ⟨target, ht, h⟩ := Except.bind_eq_ok.1 h
  obtain ⟨_, h⟩ := ok_of_ite h
  obtain ⟨_, h⟩ := ok_of_ite h
  obtain ⟨_, _, h⟩ := Except.bind_eq_ok.1 h
  cases hc : c.captureName with
  | none =>
    rw [hc] at h
    cases h
    exact ⟨none, target, ht, fun _ h => (nomatch h), fun _ => rfl, rfl⟩
  | some field =>
    rw [hc] at h
    obtain ⟨capture, hcapture, h⟩ := Except.bind_eq_ok.1 h
    obtain ⟨i, hi, rfl⟩ := Except.map_eq_ok.1 hcapture
    cases h
    refine ⟨some i, target, ht, fun _ h => ?_, fun h => (nomatch h), rfl⟩
    cases h
    exact ⟨i, hi, rfl⟩

/-- The other side of a constraint is a number or what the target means. -/
lemma builtTarget_spec {D : Draft} {p : Placed} {c : Constraint} {typeName : String}
    {target : BuiltTarget} (h : D.builtTarget typeName p c = .ok target) :
    (∃ v, c.target = .constant v ∧ target = .constant v) ∨
      ∃ holder, D.target? p c.target = some holder ∧
        target = .anchor holder (c.targetAnchor.getD c.anchor) := by
  unfold builtTarget at h
  split at h
  · next v hv =>
    obtain ⟨_, -, h⟩ := Except.bind_eq_ok.1 h
    cases h
    exact .inl ⟨v, hv, rfl⟩
  · split at h
    · next holder hh =>
      cases h
      exact .inr ⟨holder, hh, rfl⟩
    · cases h

/-- A target that was built is there. -/
lemma targets_of_builtTarget {D : Draft} {p : Placed} {c : Constraint} {typeName : String}
    {target : BuiltTarget} (h : D.builtTarget typeName p c = .ok target) :
    D.Targets p c.target := by
  rcases builtTarget_spec h with ⟨v, hv, -⟩ | ⟨holder, hh, -⟩
  · exact .inl ⟨v, hv⟩
  · exact .inr (by rw [hh, Option.isSome_some])

end Draft

end ViewMarkup
