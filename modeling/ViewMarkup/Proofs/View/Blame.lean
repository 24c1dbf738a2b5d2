import ViewMarkup.Proofs.View.Library
import ViewMarkup.Proofs.View.Mirror

/-!
# What a failed application reports

An application stops while elements are placed, because no node can be had for one of them, or when
the constraints of a scope are set, because a target means nothing there. In the second case the
error names the target, the element and the type of the scope, which is the scope of the definition
or of one that the application enters from there.

## Main definitions

* `ApplyError.IsOfPlacing` — an error that occurs while elements are placed.
* `Definition.Misses` — a target of an element means nothing in its scope.
* `Applier.Reaches` — the scopes that an application enters.
* `Applier.Blames` — what an error says about the scopes of an application.

## Main statements

* `Applier.applyScope_blames` — every error that an application ends with is of one of these kinds.
-/

namespace ViewMarkup

open Element

variable {H : Type}

/-- An error that occurs while elements are placed. -/
def ApplyError.IsOfPlacing : ApplyError → Prop
  | missingRoot _ | unresolvedField _ _ | unresolvedType _ => True
  | unresolvedTarget _ _ _ => False

/-- A constraint of an element of a scope has a target that means nothing in the scope. -/
def Definition.Misses (d : Definition) (e : Element) (target : Target) : Prop :=
  e ∈ d.elements ∧ target ∈ e.layout.constraints.map (·.target) ∧ ¬ target.IsFound d.elements

/-! ### Steps and their errors -/

namespace Live

variable {α β : Type} {s : Run H} {x : Live H α} {ok : α → Run H → Prop} {fail : ApplyError → Prop}

/-- What holds after a step from a state: one thing if it succeeds, another of the error if it
fails. -/
def Ends (s : Run H) (x : Live H α) (ok : α → Run H → Prop) (fail : ApplyError → Prop) : Prop :=
  match x s with
  | .ok v s' => ok v s'
  | .error e _ => fail e

/-- A composition ends as its second part does, or with an error of the first. -/
lemma Ends.bind {f : α → Live H β} {ok : β → Run H → Prop}
    (h : Ends s x (fun v s' => Ends s' (f v) ok fail) fail) : Ends s (x >>= f) ok fail := by
  unfold Ends at *
  simp only [Bind.bind, EStateM.bind]
  cases hx : x s with
  | ok v s' =>
    rw [hx] at h
    exact h
  | error e s' =>
    rw [hx] at h
    exact h

/-- Less may be asked of how a step ends. -/
lemma Ends.imp {ok' : α → Run H → Prop} {fail' : ApplyError → Prop} (h : Ends s x ok fail)
    (hok : ∀ v s', ok v s' → ok' v s') (hfail : ∀ e, fail e → fail' e) : Ends s x ok' fail' := by
  unfold Ends at *
  split
  · next hx =>
    rw [hx] at h
    exact hok _ _ h
  · next hx =>
    rw [hx] at h
    exact hfail _ h

/-- Looking at the state ends with the state. -/
lemma ends_get {ok : Run H → Run H → Prop} : Ends s get ok fail ↔ ok s s := Iff.rfl

/-- A change of the state ends with the state changed. -/
lemma ends_modify {f : Run H → Run H} {ok : Unit → Run H → Prop} :
    Ends s (modify f) ok fail ↔ ok () (f s) :=
  Iff.rfl

/-- A step in a scope of its own leaves what is placed around it. -/
lemma Ends.inNewScope (h : Ends { s with fields := {}, placed := [] } x (fun _ _ => True) fail) :
    Ends s (Applier.inNewScope x) (fun _ s' => s'.placed = s.placed) fail := by
  unfold Ends at *
  unfold Applier.inNewScope
  cases hx : x { s with fields := {}, placed := [] } with
  | ok v s' => exact rfl
  | error e s' =>
    rw [hx] at h
    exact h

end Live

namespace Applier

/-! ### Errors of placing -/

section Placing

variable (a : Applier H)

/-- An error of creating a view is one of placing. -/
lemma isOfPlacing_of_create {e : Element} {error : ApplyError} (h : a.create e = .error error) :
    error.IsOfPlacing := by
  unfold create at h
  split at h
  · split at h
    · cases h
    · split at h
      · cases h
      · cases h
        trivial
  · split at h
    · cases h
    · cases h
      trivial

/-- Putting in a new node places no view, and fails as placing does. -/
lemma insertNew_ends (e : Element) (s : Run H) :
    Live.Ends s (a.insertNew e) (fun _ s' => s'.placed = s.placed) ApplyError.IsOfPlacing := by
  unfold Live.Ends insertNew
  cases h : a.create e with
  | error error => exact a.isOfPlacing_of_create h
  | ok element => exact rfl

/-- So does the choice of a node. -/
lemma nodeFor_ends (root : ScopeRoot) (e : Element) (s : Run H) :
    Live.Ends s (a.nodeFor root e) (fun _ s' => s'.placed = s.placed) ApplyError.IsOfPlacing := by
  unfold nodeFor
  split
  · exact a.insertNew_ends e s
  · next field _ =>
    refine Live.Ends.bind ?_
    rw [Live.ends_get]
    split
    · exact rfl
    · split
      · exact Live.Ends.bind (a.insertNew_ends e s)
      · exact trivial

variable [Widget H]

/-- So does the assignment of properties. -/
lemma assign_ends (id : NodeId) (kind : Kind) (typeName element : String) (r : Resolved)
    (s : Run H) : Live.Ends s (a.assign id kind typeName element r)
      (fun _ s' => s'.placed = s.placed) ApplyError.IsOfPlacing := by
  obtain ⟨warnings, h⟩ := a.assign_eq id kind typeName element r s
  rw [Live.Ends, h]

/-- So does the beginning of a scope. -/
lemma beginScope_ends (root : ScopeRoot) (d : Definition) (s : Run H) :
    Live.Ends s (a.beginScope root d) (fun _ s' => s'.placed = s.placed) ApplyError.IsOfPlacing := by
  unfold beginScope
  refine Live.Ends.bind ?_
  change Live.Ends s (if s.tree.contains root.node then _ else _) _ _
  split
  · exact Live.Ends.bind (a.assign_ends _ _ _ _ _ _)
  · exact trivial

/-- One more element is placed. -/
lemma placeOne_ends (root : ScopeRoot) (d : Definition) (parent : NodeId) (parentKind : Kind)
    (e : Element) (s : Run H) :
    Live.Ends s (a.placeOne root d parent parentKind e)
      (fun _ s' => s'.placed.map (·.element) = s.placed.map (·.element) ++ [e])
      ApplyError.IsOfPlacing := by
  unfold placeOne
  refine Live.Ends.bind ((a.nodeFor_ends root e s).imp (fun id s₁ h₁ => ?_) fun _ h => h)
  refine Live.Ends.bind ?_
  rw [Live.ends_modify]
  refine Live.Ends.bind ((a.assign_ends _ _ _ _ _ _).imp (fun _ s₂ h₂ => ?_) fun _ h => h)
  change (s₂.placed ++ [(⟨e, id, parent⟩ : PlacedView)]).map (·.element) = _
  rw [h₂, List.map_append, h₁]
  rfl

end Placing

/-! ### The scopes that are entered -/

/-- **The scopes that an application enters**: that of the definition, and those of the components
inside it in turn. A component that is being applied already is not entered. -/
inductive Reaches (a : Applier H) : List String → Definition → Definition → Prop where
  /-- The scope of the definition itself. -/
  | here {active : List String} {d : Definition} : Reaches a active d d
  /-- A scope that is entered from a component inside. -/
  | inside {active : List String} {d nested d' : Definition} {e : Element} :
      e ∈ d.elements → a.nested? active e = some nested →
      Reaches a (nested.typeName :: active) nested d' → Reaches a active d d'

/-- **What an error says about an application**: no node could be had for an element, or in one of the
scopes entered an element has a target that means nothing there. The error names the two and the type
of the scope. -/
def Blames (a : Applier H) (active : List String) (d : Definition) (error : ApplyError) : Prop :=
  error.IsOfPlacing ∨ ∃ d' e target, error = .unresolvedTarget target e.name d'.typeName ∧
    a.Reaches active d d' ∧ d'.Misses e target

variable {a : Applier H} {active : List String} {d nested : Definition}

/-- What goes wrong inside a component goes wrong in the application around it. -/
lemma Blames.inside {e : Element} {error : ApplyError} (he : e ∈ d.elements)
    (hn : a.nested? active e = some nested) (h : a.Blames (nested.typeName :: active) nested error) :
    a.Blames active d error := by
  obtain hp | ⟨d', e', target, herror, hr, hm⟩ := h
  · exact .inl hp
  · exact .inr ⟨d', e', target, herror, .inside he hn hr, hm⟩

/-- If the constraints of a scope fail, then because of a target that the definition misses. -/
lemma misses_of_allConstraints {placed : List PlacedView} {error : ApplyError}
    (hplaced : placed.map (·.element) = d.elements)
    (h : allConstraints d.typeName placed = .error error) :
    ∃ e target, error = .unresolvedTarget target e.name d.typeName ∧ d.Misses e target := by
  obtain ⟨p, hp, hcs⟩ := Except.mapM_eq_error h
  cases hl : liveConstraints d.typeName placed p with
  | ok cs =>
    rw [hl] at hcs
    cases hcs
  | error error' =>
    rw [hl] at hcs
    cases hcs
    obtain ⟨c, hc, he⟩ := Except.mapM_eq_error hl
    split at he
    · cases he
    · next hnone =>
      cases he
      refine ⟨p.element, c.target, rfl, hplaced ▸ List.mem_map_of_mem hp, List.mem_map_of_mem hc,
        fun hf => ?_⟩
      rw [← hplaced, ← isSome_target?_iff (p := p), hnone] at hf
      cases hf

/-- Setting the constraints of a scope fails at a target that means nothing in it. -/
lemma constrain_ends {s : Run H} (hplaced : s.placed.map (·.element) = d.elements) :
    Live.Ends s (constrain d.typeName) (fun _ _ => True) (a.Blames active d) := by
  unfold Live.Ends constrain
  cases hr : allConstraints d.typeName s.placed with
  | ok rebuilt => trivial
  | error error =>
    obtain ⟨e, target, herror, hm⟩ := misses_of_allConstraints hplaced hr
    exact .inr ⟨d, e, target, herror, .here, hm⟩

/-! ### The induction over the application -/

section Induction

variable [Widget H] (a : Applier H)

/-- What is to be shown of applying a definition. -/
def ScopeEnds (active : List String) (root : ScopeRoot) (d : Definition) : Prop :=
  ∀ s : Run H, AreSound d.children → s.placed = [] →
    Live.Ends s (a.applyScope active root d) (fun _ _ => True) (a.Blames active d)

/-- What is to be shown of placing elements: they are noted in document order. -/
def AllEnd (active : List String) (root : ScopeRoot) (d : Definition) (parent : NodeId)
    (parentKind : Kind) (es : List Element) : Prop :=
  ∀ s : Run H, AreSound es → walkAll es ⊆ d.elements →
    Live.Ends s (a.placeAll active root d parent parentKind es)
      (fun _ s' => s'.placed.map (·.element) = s.placed.map (·.element) ++ walkAll es)
      (a.Blames active d)

/-- What is to be shown of placing an element. -/
def OneEnds (active : List String) (root : ScopeRoot) (d : Definition) (parent : NodeId)
    (parentKind : Kind) (e : Element) : Prop :=
  ∀ s : Run H, AreSound [e] → walkAll [e] ⊆ d.elements →
    Live.Ends s (a.place active root d parent parentKind e)
      (fun _ s' => s'.placed.map (·.element) = s.placed.map (·.element) ++ walkAll [e])
      (a.Blames active d)

/-- What is to be shown of applying the definition of a component. -/
def ReferenceEnds (active : List String) (typeName element : String) (id : NodeId)
    (r : Option TypeReference) : Prop :=
  ∀ s : Run H, (∀ d, r = some (.inline d) → AreSound d.children) →
    Live.Ends s (a.applyReference active typeName element id r)
      (fun _ s' => s'.placed = s.placed)
      (fun error => ∃ nested, a.enters? active r = some nested ∧
        a.Blames (nested.typeName :: active) nested error)

variable {a}

/-- A scope ends as it should if its elements do. -/
lemma scopeEnds {root : ScopeRoot}
    (h : a.AllEnd active root d root.node .container d.children) : a.ScopeEnds active root d := by
  intro s S hplaced
  rw [applyScope]
  refine Live.Ends.bind ((a.beginScope_ends root d s).imp (fun _ s₁ h₁ => ?_) fun _ hp => .inl hp)
  refine Live.Ends.bind ((h s₁ S (List.Subset.refl _)).imp (fun _ s₂ h₂ => ?_) fun _ h => h)
  exact constrain_ends (by rw [h₂, h₁, hplaced]; rfl)

/-- The step of the induction: an element ends as it should if its reference does, and the elements
inside it. -/
lemma oneEnds {root : ScopeRoot} {parent : NodeId} {parentKind : Kind} {e : Element}
    (hr : ∀ id, a.ReferenceEnds active d.typeName e.name id e.reference)
    (hc : ∀ id, a.AllEnd active root d id e.kind e.children) :
    a.OneEnds active root d parent parentKind e := by
  intro s S hes
  rw [walkAll_cons, walkAll, List.append_nil, List.cons_subset] at hes
  rw [walkAll_cons, walkAll, List.append_nil, place]
  refine Live.Ends.bind ((a.placeOne_ends root d parent parentKind e s).imp (fun id s₁ h₁ => ?_)
    fun _ hp => .inl hp)
  simp only
  by_cases hk : e.kind.acceptsChildren = true
  · have hcomp : e.kind ≠ .component := by
      intro h
      rw [h] at hk
      cases hk
    rw [if_pos hk, if_neg hcomp]
    refine Live.Ends.bind ((hc id s₁ S.children hes.2).imp (fun _ s₂ h₂ => ?_) fun _ h => h)
    change s₂.placed.map (·.element) = _
    rw [h₂, h₁, List.append_assoc]
    rfl
  · rw [if_neg hk]
    have hnil : e.children = [] := S.children_eq_nil e (by
      rw [walkAll_cons]
      exact List.mem_cons_self) (by simpa using hk)
    rw [hnil, walkAll]
    by_cases hcomp : e.kind = .component
    · rw [if_pos hcomp]
      refine (hr id s₁ fun d' hd' => Definition.areSound_inline S hd').imp (fun _ s₂ h₂ => ?_) ?_
      · rw [h₂, h₁]
      · rintro error ⟨nested, hn, hb⟩
        exact hb.inside hes.1 ((if_pos hcomp).trans hn)
    · rw [if_neg hcomp]
      exact h₁

/-- The definition of a component is entered. -/
lemma ends_entered {id : NodeId} (S : AreSound nested.children)
    (h : a.ScopeEnds (nested.typeName :: active) ⟨id, nested.typeName, true⟩ nested) (s : Run H) :
    Live.Ends s
      (inNewScope do
        let _ ← a.applyScope (nested.typeName :: active) ⟨id, nested.typeName, true⟩ nested)
      (fun _ s' => s'.placed = s.placed)
      (fun error => ∃ nested', some nested = some nested' ∧
        a.Blames (nested'.typeName :: active) nested' error) :=
  Live.Ends.inNewScope (Live.Ends.bind ((h _ S rfl).imp (fun _ _ h => h) fun _ hb =>
    ⟨nested, rfl, hb⟩))

variable (a)

/-- **Every error of an application says where it went wrong.**

**Proof sketch.** Induction over the application, with one case for each of its functions. When the
constraints of a scope are set, the elements placed are those of the scope, so a target is found
among them if and only if it means something in the scope. -/
theorem applyScope_blames (active : List String) (root : ScopeRoot) (d : Definition)
    (hlib : ∀ name d, a.library.get? name = some d → AreSound d.children) :
    a.ScopeEnds active root d := by
  refine (applyScope.mutual_induct a a.ScopeEnds a.AllEnd a.OneEnds a.ReferenceEnds
    ?scope ?nil ?cons ?one ?none ?inlineActive ?inline ?unknown ?namedActive ?named).1
    active root d
  case scope => exact fun _ _ _ h => scopeEnds h
  case nil =>
    intro active root d parent parentKind s _ _
    rw [placeAll]
    exact (List.append_nil _).symm
  case cons =>
    intro active root d parent parentKind e es h h' s S hes
    have hwalk : walkAll (e :: es) = walkAll [e] ++ walkAll es := by simp [walkAll]
    rw [hwalk, List.append_subset] at hes
    rw [placeAll]
    refine Live.Ends.bind ((h s S.head hes.1).imp (fun _ s₁ h₁ => ?_) fun _ hb => hb)
    refine (h' s₁ S.tail hes.2).imp (fun _ s₂ h₂ => ?_) fun _ hb => hb
    rw [h₂, h₁, hwalk, List.append_assoc]
  case one => exact fun _ _ _ _ _ _ hr hc => oneEnds hr hc
  case none =>
    intro active typeName element id s _
    rw [applyReference]
    exact rfl
  case inlineActive =>
    intro active typeName element id nested hn s _
    rw [applyReference, if_pos hn]
    exact rfl
  case inline =>
    intro active typeName element id nested hn h s S
    rw [applyReference, if_neg hn, enters?, if_neg hn]
    exact ends_entered (S nested rfl) h s
  case unknown =>
    intro active typeName element id name hname s _
    rw [applyReference_named, hname]
    exact rfl
  case namedActive =>
    intro active typeName element id name nested hname hn s _
    rw [applyReference_named, hname]
    simp only [if_pos hn]
    exact rfl
  case named =>
    intro active typeName element id name nested hname hn h s _
    have hn' : a.enters? active (some (.named name)) = some nested := by
      rw [enters?, hname, Option.filter_some, if_pos (by simpa using hn)]
    rw [hn', applyReference_named, hname]
    simp only [if_neg hn]
    exact ends_entered (hlib name nested hname) h s

end Induction

end Applier

end ViewMarkup
