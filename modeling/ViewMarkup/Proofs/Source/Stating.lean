import ViewMarkup.Proofs.Constraint.Words
import ViewMarkup.Proofs.Source.Faithfulness

/-!
# What a routine states

A routine goes through the elements of a definition together with those of the anonymous components
inside it, and activates their constraints one by one in document order. A constraint that is captured
under a name is assigned to the field of that name. Such names are words of the constraint language, so
the field is the one that was meant; other texts may read differently as identifiers.

## Main definitions

* `Element.inlinedAll` — the elements that a routine goes through.
* `Stated`, `Definition.stated` — their constraints, in document order.
* `Routine.constraints`, `Routine.captured` — the constraints of a routine, and those that it assigns.
* `Routine.denoted?` — what a local name of a routine stands for.
* `BuiltConstraint.States` — a statement means a constraint.

## Main statements

* `Routine.find?_of_run` — what local names stand for is what they mean in a run.
* `Element.map_filter_inlinedAll` — the elements of the component's own scope among all.
* `Routine.Consists.states` — the constraints of a routine, one by one.
-/

namespace ViewMarkup

open Element

/-! ### The elements that a routine goes through -/

namespace Element

mutual

/-- An element with those inside it, in document order, and with the elements of anonymous components
in place. Each is marked by whether it belongs to the component's own scope. -/
def inlined (own : Bool) : Element → List (Element × Bool)
  | ⟨kind, field, layout, properties, styles, children, reference, name⟩ =>
      (⟨kind, field, layout, properties, styles, children, reference, name⟩, own) ::
        if kind.acceptsChildren then inlinedAll own children else inlinedInside kind reference

/-- Elements with all that is inside them, one after the other. -/
def inlinedAll (own : Bool) : List Element → List (Element × Bool)
  | [] => []
  | e :: es => inlined own e ++ inlinedAll own es

/-- The elements of an anonymous component in place. -/
def inlinedInside (kind : Kind) : Option TypeReference → List (Element × Bool)
  | some (.inline ⟨_, _, isAnonymous, _, _, children⟩) =>
      if isAnonymous ∧ kind = .component then inlinedAll false children else []
  | _ => []

end

/-- An element is gone through first, and then those inside it. -/
lemma inlined_eq (own : Bool) (e : Element) :
    inlined own e = (e, own) ::
      if e.kind.acceptsChildren then inlinedAll own e.children
      else inlinedInside e.kind e.reference := by
  cases e
  rw [inlined]

mutual

/-- An element that is in the component's own scope is inside one that is. -/
lemma own_of_mem_inlined {own : Bool} : (e : Element) → ∀ p ∈ inlined own e, p.2 = true → own = true
  | ⟨kind, field, layout, properties, styles, children, reference, name⟩ => by
      rw [inlined, List.forall_mem_cons]
      refine ⟨id, fun p hp h => ?_⟩
      split at hp
      · exact own_of_mem_inlinedAll children p hp h
      · exact absurd h (Bool.eq_false_iff.1 (not_own_of_mem_inlinedInside reference p hp))

/-- So it is with several elements. -/
lemma own_of_mem_inlinedAll {own : Bool} :
    (es : List Element) → ∀ p ∈ inlinedAll own es, p.2 = true → own = true
  | [] => fun _ hp => (List.not_mem_nil hp).elim
  | e :: es => fun p hp => by
      rw [inlinedAll, List.mem_append] at hp
      exact hp.elim (own_of_mem_inlined e p) (own_of_mem_inlinedAll es p)

/-- The elements of anonymous components belong to scopes of their own. -/
lemma not_own_of_mem_inlinedInside {kind : Kind} :
    (r : Option TypeReference) → ∀ p ∈ inlinedInside kind r, p.2 = false
  | none => fun _ hp => (List.not_mem_nil hp).elim
  | some (.named _) => fun _ hp => (List.not_mem_nil hp).elim
  | some (.inline ⟨_, _, isAnonymous, _, _, children⟩) => fun p hp => by
      rw [inlinedInside] at hp
      split at hp
      · exact Bool.eq_false_iff.2 fun h =>
          absurd (own_of_mem_inlinedAll children p hp h) Bool.false_ne_true
      · exact (List.not_mem_nil hp).elim

end

mutual

/-- The elements of the own scope are those of a walk. -/
lemma map_filter_inlined : (e : Element) →
    (∀ x ∈ walk e, x.kind.acceptsChildren = false → x.children = []) →
    ((inlined true e).filter (·.2)).map (·.1) = walk e
  | ⟨kind, field, layout, properties, styles, children, reference, name⟩ => fun h => by
      rw [walk, List.forall_mem_cons] at h
      rw [inlined, walk, List.filter_cons_of_pos rfl, List.map_cons]
      refine congrArg _ ?_
      split
      · exact map_filter_inlinedAll children h.2
      · next hk =>
        obtain rfl : children = [] := h.1 (Bool.eq_false_iff.2 hk)
        rw [List.filter_eq_nil_iff.2 fun p hp =>
          Bool.eq_false_iff.1 (not_own_of_mem_inlinedInside reference p hp)]
        rfl

/-- **The elements of the own scope** are those of the definition. -/
theorem map_filter_inlinedAll : (es : List Element) →
    (∀ x ∈ walkAll es, x.kind.acceptsChildren = false → x.children = []) →
    ((inlinedAll true es).filter (·.2)).map (·.1) = walkAll es
  | [] => fun _ => rfl
  | e :: es => fun h => by
      rw [walkAll, List.forall_mem_append] at h
      rw [inlinedAll, walkAll, List.filter_append, List.map_append, map_filter_inlined e h.1,
        map_filter_inlinedAll es h.2]

end

end Element

/-- The drafted elements are those that a routine goes through, and the first scope is the
component's own. -/
lemma Drafts.inlinedAll_eq {at_ : Place} {es : List Element} {n n' : Nat} {ws : List Drafted}
    (h : Drafts at_ es n n' ws) (hn : 0 < n) :
    ws.map (fun w => (w.placed.element, decide (w.placed.scope = 0))) =
      inlinedAll (decide (at_.scope = 0)) es := by
  induction h with
  | nil => rfl
  | @cons at_ at' e es es' n n₁ n₂ n' w inside after hw hi hin hafter ih ih' =>
    have hscopes := hi.scope.1
    have hle := hin.scopes_le
    have hinside : inside.map (fun w => (w.placed.element, decide (w.placed.scope = 0))) =
        if e.kind.acceptsChildren then inlinedAll (decide (at_.scope = 0)) e.children
        else inlinedInside e.kind e.reference := by
      rw [ih (by omega)]
      cases hi with
      | nothing hk hno =>
        rw [if_neg (by simp [hk]), inlinedAll, inlinedInside.eq_def]
        split
        · next hr =>
          rw [if_neg]
          rintro ⟨ha, hcomp⟩
          exact Bool.false_ne_true ((hno _ hr hcomp).symm.trans ha)
        · rfl
      | children hk => rw [if_pos hk]
      | @component d hk hr ha =>
        obtain ⟨typeName, isRoot, isAnonymous, styles, properties, children⟩ := d
        rw [if_neg (by rw [hk]; decide), hr, inlinedInside, if_pos ⟨ha, hk⟩]
        simp only [Nat.ne_of_gt hn, decide_false]
    rw [inlinedAll, inlined_eq, List.map_cons, List.map_append, hinside, ih' (by omega), hw.placed_eq,
      List.cons_append]

/-! ### The constraints that a routine states -/

/-- A constraint of an element that a routine goes through. -/
structure Stated where
  /-- The place of the element among those that the routine goes through. -/
  place : Nat
  /-- The element. -/
  element : Element
  /-- Whether the element belongs to the component's own scope. -/
  own : Bool
  /-- The place of the constraint among those of the element. -/
  index : Nat
  /-- The constraint. -/
  constraint : Constraint

namespace Definition

/-- **The constraints of a definition** and of the anonymous components inside it, in document
order. -/
def stated (d : Definition) : List Stated :=
  (inlinedAll true d.children).zipIdx.flatMap fun (p, place) =>
    p.1.layout.constraints.zipIdx.map fun (c, index) => ⟨place, p.1, p.2, index, c⟩

/-- The constraints that are captured under a name, in document order. -/
def captured (d : Definition) (name : String) : List Stated :=
  d.stated.filter fun s => s.constraint.captureName = some name

end Definition

/-- The constraint that a statement activates. -/
def Statement.constraint? : Statement → Option BuiltConstraint
  | .constrain c => some c
  | _ => none

namespace Routine

/-- The constraints of a routine, in order. -/
def constraints (r : Routine) : List BuiltConstraint := r.statements.filterMap Statement.constraint?

/-- The constraints that a routine assigns to a field, in order; the last one is what the field
holds in the end. -/
def captured (r : Routine) (name : String) : List BuiltConstraint :=
  r.constraints.filter fun b => b.capture.map (·.text) = some name

end Routine

/-! ### What local names stand for -/

namespace Routine

/-- **What a local name stands for** when all elements are created: the place of the last one that it
was given to. -/
def denoted? (r : Routine) (name : Identifier) : Option Nat :=
  r.localNames.zipIdx.reverse.lookup name.name

/-- Where local names are different, each stands for the element that it was given to. -/
lemma denoted?_eq {r : Routine} (hn : r.localNames.Nodup) {name : Identifier} {place : Nat}
    (h : r.localNames[place]? = some name.name) : r.denoted? name = some place := by
  rw [denoted?, List.lookup_eq_some_iff]
  obtain ⟨front, back, hsplit⟩ :=
    List.append_of_mem (List.mem_reverse.2 (List.mk_mem_zipIdx_iff_getElem?.2 h))
  refine ⟨front, back, hsplit, fun q hq => bne_iff_ne.2 fun hname => ?_⟩
  have hkeys : (r.localNames.zipIdx.reverse.map Prod.fst).Nodup := by
    rw [List.map_reverse, List.zipIdx_map_fst, List.nodup_reverse]
    exact hn
  rw [hsplit, List.map_append, List.map_cons] at hkeys
  exact (List.nodup_append.1 hkeys).2.2 _ (List.mem_map_of_mem hq) _ List.mem_cons_self hname.symm

end Routine

/-- The names that statements give out mean the views that they create, the last given first. -/
lemma Assembly.names_of_run {m m' : Assembly} {ss : List Statement} (h : m.run ss = some m') :
    m'.names = ((ss.filterMap Statement.created?).zipIdx m.views.length).reverse ++ m.names := by
  induction ss generalizing m with
  | nil =>
    cases h
    rfl
  | cons s ss ih =>
    obtain ⟨m₁, hstep, hrun⟩ := Option.bind_eq_some_iff.1 ((run_cons s ss).symm.trans h)
    have := ih hrun
    cases s with
    | create name construction =>
      cases hstep
      rw [this, List.filterMap_cons_some (f := Statement.created?) (b := name.name) rfl]
      simp
    | assign holder p =>
      obtain ⟨i, -, rfl⟩ := Option.map_eq_some_iff.1 hstep
      rw [this, length_update]
      rfl
    | useTemplate list typeName =>
      obtain ⟨i, -, rfl⟩ := Option.map_eq_some_iff.1 hstep
      exact this
    | useCell list type =>
      obtain ⟨i, -, rfl⟩ := Option.map_eq_some_iff.1 hstep
      exact this
    | attach parent child arranged =>
      obtain ⟨p, -, hstep⟩ := Option.bind_eq_some_iff.1 hstep
      obtain ⟨c, -, hstep⟩ := Option.bind_eq_some_iff.1 hstep
      cases hstep
      rw [this, length_update]
      rfl
    | constrain c =>
      obtain ⟨p, -, hstep⟩ := Option.bind_eq_some_iff.1 hstep
      obtain ⟨c, -, hstep⟩ := Option.bind_eq_some_iff.1 hstep
      cases hstep
      rw [this, length_update]
      rfl

/-- **What a local name stands for is what it means** once the routine has been run: the component is
the first view, and the elements come after it. -/
theorem Routine.find?_of_run {r : Routine} {m : Assembly}
    (h : Assembly.start.run r.statements = some m) (name : Identifier) :
    m.find? (.element name) = (r.denoted? name).map (· + 1) := by
  have hnames : m.names = (r.localNames.zipIdx 1).reverse ++ [] := Assembly.names_of_run h
  rw [Assembly.find?, hnames, List.append_nil, denoted?, ← Nat.zero_add 1, List.zipIdx_succ,
    ← List.map_reverse]
  generalize r.localNames.zipIdx.reverse = entries
  induction entries with
  | nil => rfl
  | cons e es ih =>
    rw [List.map_cons, List.lookup_cons, List.lookup_cons]
    split <;> simp_all

/-- **A statement means a constraint**: it is about the local name that the routine gave out for the
element, and says what the constraint says. -/
structure BuiltConstraint.States (r : Routine) (b : BuiltConstraint) (s : Stated) : Prop where
  /-- The local name is that of the element. -/
  element_eq : r.localNames[s.place]? = some b.element.name
  /-- It is captured under the same name. -/
  capture_eq : b.capture.map (·.text) = s.constraint.captureName
  /-- The same anchor is constrained. -/
  anchor_eq : b.anchor = s.constraint.anchor
  /-- The sides compare in the same way. -/
  relation_eq : b.relation = s.constraint.relation
  /-- The factor is the same. -/
  multiplier_eq : b.multiplier = s.constraint.multiplier
  /-- The offset is the same. -/
  constant_eq : b.constant = s.constraint.constant
  /-- The weight is the same. -/
  priority_eq : b.priority = s.constraint.priority

/-! ### Names of captured constraints -/

/-- The constraints of a layout were read from attributes. -/
lemma Layout.exists_ofText_of_set {l l' : Layout} {name value : String}
    (h : l.set name value = .ok l') {c : Constraint} (hc : c ∈ l'.constraints) :
    c ∈ l.constraints ∨ ∃ cs, Constraint.ofText name value = .ok cs ∧ c ∈ cs := by
  unfold Layout.set at h
  split at h
  · cases h
    exact .inl hc
  all_goals
    obtain ⟨cs, hcs, rfl⟩ := Except.map_eq_ok.1 h
  iterate 6 exact .inl hc
  exact (List.mem_append.1 hc).imp_right fun hc => ⟨cs, hcs, hc⟩

/-- The names of captured constraints in a document are words. -/
lemma Declared.isWord_captureName {kind : Kind} {tag : String} {attributes : List Xml.Attribute}
    {d : Declared} (h : ofAttributes kind tag attributes = .ok d) :
    ∀ c ∈ d.layout.constraints, ∀ x, c.captureName = some x → Token.IsWord x := by
  unfold ofAttributes at h
  induction attributes using List.reverseRecOn generalizing d with
  | nil =>
    cases h
    exact fun _ hc => (List.not_mem_nil hc).elim
  | append_singleton attributes a ih =>
    rw [List.foldlM_append] at h
    obtain ⟨d₀, h₀, h⟩ := Except.bind_eq_ok.1 h
    rw [List.foldlM_cons] at h
    obtain ⟨d₁, h, h₁⟩ := Except.bind_eq_ok.1 h
    cases h₁
    have before := ih h₀
    unfold add at h
    split at h
    · split at h
      · next hset =>
        cases h
        intro c hc
        rcases Layout.exists_ofText_of_set hset hc with hc | ⟨cs, hcs, hc⟩
        · exact before c hc
        · exact Constraint.isWord_captureName hcs c hc
      · cases h
    · cases h
      exact before
    · cases h
      exact before
    · cases h
      exact before
    · split at h <;> cases h <;> exact before

/-- The captured names of a declared element are words. -/
lemma Element.IsDeclared.isWord_captureName {e : Element} (h : e.IsDeclared) :
    ∀ c ∈ e.layout.constraints, ∀ x, c.captureName = some x → Token.IsWord x := by
  obtain ⟨tag, attributes, d, hd, -, hlayout, -, -⟩ := h
  rw [hlayout]
  exact Declared.isWord_captureName hd

/-! ### What a routine assigns -/

/-- A constraint that is captured under a word is assigned to the field of that name. -/
lemma Draft.capture_of_constrain {D : Draft} {p : Placed} {c : Constraint} {typeName : String}
    {b : BuiltConstraint} (h : D.constrain typeName p c = .ok (.constrain b))
    (hword : ∀ x, c.captureName = some x → Token.IsWord x) :
    b.capture.map (·.text) = c.captureName := by
  obtain ⟨capture, target, -, hsome, hnone, hb⟩ := constrain_spec h
  cases hb
  cases hc : c.captureName with
  | none =>
    rw [hnone hc]
    rfl
  | some field =>
    obtain ⟨i, hi, rfl⟩ := hsome field hc
    unfold Identifier.ofText at hi
    split at hi
    · next hi' =>
      cases hi
      rw [(hword field hc).eq_of_ofText? hi']
      rfl
    · cases hi

/-- A drafted element with its place, and one of its constraints with its own. -/
structure Drafted.Constrained where
  /-- The element. -/
  drafted : Drafted
  /-- The place of the element. -/
  place : Nat
  /-- The constraint. -/
  constraint : Constraint
  /-- The place of the constraint. -/
  index : Nat

namespace Drafted

/-- The constraints of drafted elements, in order. -/
def constrained (ws : List Drafted) : List Constrained :=
  ws.zipIdx.flatMap fun (w, place) =>
    w.placed.element.layout.constraints.zipIdx.map fun (c, index) => ⟨w, place, c, index⟩

/-- A constraint as one of those that a routine states. -/
def Constrained.stated (y : Constrained) : Stated :=
  ⟨y.place, y.drafted.placed.element, decide (y.drafted.placed.scope = 0), y.index, y.constraint⟩

variable {ws : List Drafted}

/-- A constraint is declared by the element at its place. -/
lemma getElem?_of_mem_constrained {y : Constrained} (h : y ∈ constrained ws) :
    ws[y.place]? = some y.drafted ∧ y.constraint ∈ y.drafted.placed.element.layout.constraints := by
  obtain ⟨⟨w, place⟩, hw, hy⟩ := List.mem_flatMap.1 h
  obtain ⟨⟨c, index⟩, hc, rfl⟩ := List.mem_map.1 hy
  exact ⟨List.mem_zipIdx_iff_getElem?.1 hw,
    List.mem_of_getElem? (List.mem_zipIdx_iff_getElem?.1 hc)⟩

/-- They are written in the same order. -/
lemma map_constrained :
    (constrained ws).map (fun y => (y.drafted.placed, y.constraint)) =
      (ws.map (·.placed)).flatMap fun p => p.element.layout.constraints.map fun c => (p, c) := by
  have one : ∀ w : Drafted, ∀ place, (w.placed.element.layout.constraints.zipIdx.map
      fun (c, index) => (⟨w, place, c, index⟩ : Constrained)).map
        (fun y => (y.drafted.placed, y.constraint)) =
      w.placed.element.layout.constraints.map fun c => (w.placed, c) := by
    intro w place
    rw [List.map_map]
    conv_rhs => rw [← List.zipIdx_map_fst 0 w.placed.element.layout.constraints, List.map_map]
    rfl
  rw [constrained, List.map_flatMap, List.flatMap_map]
  simp only [one]
  conv_rhs => rw [← List.zipIdx_map_fst 0 ws, List.flatMap_map]

/-- What is stated by drafts is what their elements declare, one place after the other. -/
lemma map_stated_constrained :
    (constrained ws).map (·.stated) =
      (ws.map fun w => (w.placed.element, decide (w.placed.scope = 0))).zipIdx.flatMap
        fun (p, place) => p.1.layout.constraints.zipIdx.map fun (c, index) =>
          ⟨place, p.1, p.2, index, c⟩ := by
  rw [constrained, List.map_flatMap, List.zipIdx_map, List.flatMap_map]
  simp only [List.map_map]
  rfl

end Drafted

/-- The statements of an element activate no constraints. -/
lemma Drafted.IsOf.filterMap_constraint? {sheets : StyleSheets} {at_ : Place} {e : Element}
    {w : Drafted} (hw : w.IsOf at_ e) : (w.statements sheets).filterMap Statement.constraint? = [] := by
  have hrows : ∀ s ∈ w.rows, s.constraint? = none := by
    have h := hw.rows_eq
    unfold Draft.cell at h
    split at h
    · split at h
      · rw [← Except.ok.inj h]
        exact List.forall_mem_singleton.2 rfl
      · obtain ⟨type, -, hs⟩ := Except.map_eq_ok.1 h
        rw [← hs]
        exact List.forall_mem_singleton.2 rfl
    · rw [← Except.ok.inj h]
      exact fun _ hs => (List.not_mem_nil hs).elim
  refine List.filterMap_eq_nil_iff.2 ?_
  rw [Drafted.statements, List.forall_mem_cons, List.forall_mem_append, List.forall_mem_append]
  refine ⟨rfl, fun s hs => ?_, hrows, List.forall_mem_singleton.2 rfl⟩
  obtain ⟨p, -, rfl⟩ := List.mem_map.1 hs
  rfl

namespace Routine.Consists

variable {sheets : StyleSheets} {d : Definition} {r : Routine} {D : Draft} {ws : List Drafted}
  {css : List (List BuiltConstraint)}

/-- There are no constraints but those that are written element by element. -/
lemma constraints_eq_flatten (h : r.Consists sheets d D ws css) : r.constraints = css.flatten := by
  obtain ⟨n', hdrafts⟩ := h.drafts
  have hroot : ((sheets.resolveRoot d).properties.map (Statement.assign .component)).filterMap
      Statement.constraint? = [] := List.filterMap_eq_nil_iff.2 fun s hs => by
    obtain ⟨p, -, rfl⟩ := List.mem_map.1 hs
    rfl
  have helements : (ws.flatMap (·.statements sheets)).filterMap Statement.constraint? = [] := by
    rw [List.filterMap_flatMap]
    refine List.flatMap_eq_nil_iff.2 fun w hw => ?_
    obtain ⟨at_, e, hw⟩ := hdrafts.exists_isOf w hw
    exact hw.filterMap_constraint?
  rw [constraints, h.statements_eq, List.filterMap_append, List.filterMap_append, hroot, helements,
    List.nil_append, List.nil_append, List.filterMap_map]
  exact List.filterMap_some

/-- A definition states what is declared by the drafts of its routine. -/
lemma stated_eq (h : r.Consists sheets d D ws css) :
    d.stated = (Drafted.constrained ws).map (·.stated) := by
  obtain ⟨n', hdrafts⟩ := h.drafts
  rw [Drafted.map_stated_constrained, hdrafts.inlinedAll_eq Nat.zero_lt_one]
  rfl

/-- **The constraints of a routine** are those of its elements, one by one. -/
theorem states (h : r.Consists sheets d D ws css) (hd : d.IsParsed) :
    List.Forall₂ (BuiltConstraint.States r) r.constraints d.stated := by
  obtain ⟨n', hdrafts⟩ := h.drafts
  have hdeclared := hdrafts.isDeclared (AreParsed.of_isParsed hd)
  have each := Except.mapM_eq_ok.1 h.constraints_eq
  rw [h.placed_eq, ← Drafted.map_constrained, List.forall₂_map_left_iff,
    List.forall₂_map_right_iff] at each
  have placed := (List.forall₂_and_left _ _).2
    ⟨fun y hy => Drafted.getElem?_of_mem_constrained hy, each⟩
  rw [h.constraints_eq_flatten, h.stated_eq, List.forall₂_map_right_iff]
  refine placed.flip.imp fun b y ⟨⟨hw, hc⟩, hb⟩ => ?_
  have hword := (hdeclared _ (List.mem_of_getElem? hw)).isWord_captureName y.constraint hc
  have hcapture := Draft.capture_of_constrain hb hword
  obtain ⟨capture, target, -, -, -, heq⟩ := Draft.constrain_spec hb
  cases heq
  exact
    { element_eq := by
        rw [h.localNames_eq, List.getElem?_map]
        exact congrArg (Option.map _) hw
      capture_eq := hcapture
      anchor_eq := rfl
      relation_eq := rfl
      multiplier_eq := rfl
      constant_eq := rfl
      priority_eq := rfl }

end Routine.Consists

end ViewMarkup
