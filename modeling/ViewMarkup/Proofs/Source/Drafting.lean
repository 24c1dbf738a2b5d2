import ViewMarkup.Proofs.Document.InPlace
import ViewMarkup.Source.Build

/-!
# Drafts element by element

The statements of a draft are those of its elements, one after the other: each element is created,
gets its properties and is attached, and then follows what is inside it. So a draft is a list of
drafted elements, and what is known of it is read off that list.

## Main definitions

* `Drafted` — an element of a draft with all that its statements say.
* `Drafts` — the drafted elements for the elements of a scope, with what is inside them.

## Main statements

* `Drafts.of_placeAll` — what the placing of elements adds to a draft.
* `Drafts.elements_eq`, `Drafts.exists_scope` — the elements of the scopes.
-/

namespace ViewMarkup

open Element

/-- An element of a draft. -/
structure Drafted where
  /-- The element with its local name. -/
  placed : Placed
  /-- How it is constructed. -/
  construction : Construction
  /-- The statements about its rows, if it is a list. -/
  rows : List Statement
  /-- Whether what it is attached to lines it up. -/
  arranged : Bool

namespace Drafted

/-- The name under which an element is found. -/
def name (w : Drafted) : String := w.placed.name.name

/-- The properties that an element gets. -/
def properties (sheets : StyleSheets) (w : Drafted) : List Property :=
  (sheets.cascade w.placed.element.kind w.placed.element.styles w.placed.element.properties
    w.placed.styles).properties

/-- The statements of an element. -/
def statements (sheets : StyleSheets) (w : Drafted) : List Statement :=
  .create w.placed.name w.construction ::
    ((w.properties sheets).map (.assign (.element w.placed.name)) ++
      (w.rows ++ [.attach w.placed.parent w.placed.name w.arranged]))

/-- What an element is drafted as, in given surroundings. -/
structure IsOf (at_ : Place) (e : Element) (w : Drafted) : Prop where
  /-- It is the element, with its surroundings. -/
  placed_eq : w.placed = ⟨e, w.placed.name, at_.parent, at_.scope, at_.styles⟩
  /-- It is lined up if its surroundings say so. -/
  arranged_eq : w.arranged = at_.arranged
  /-- Its construction can be written. -/
  construction_eq : Draft.construction e at_.scope = .ok w.construction
  /-- The statements about rows can be written. -/
  rows_eq : Draft.cell e w.placed.name = .ok w.rows

end Drafted

/-- What is drafted inside an element, as the surroundings, the elements and the number of scopes:
nothing; the elements inside it, in the same scope; or the elements of its anonymous component, in a
scope of their own. -/
inductive Inside (at_ : Place) (e : Element) (name : Identifier) (n : Nat) :
    Place → List Element → Nat → Prop where
  /-- The element is no component in place. -/
  | nothing : e.kind.acceptsChildren = false →
      (∀ d, e.reference = some (.inline d) → e.kind = .component → d.isAnonymous = false) →
      Inside at_ e name n at_ [] n
  /-- The element takes others. -/
  | children : e.kind.acceptsChildren = true →
      Inside at_ e name n
        { at_ with parent := .element name, arranged := e.kind.arrangesChildren } e.children n
  /-- The element is an anonymous component. -/
  | component {d : Definition} : e.kind = .component → e.reference = some (.inline d) →
      d.isAnonymous = true →
      Inside at_ e name n ⟨.element name, false, n, some name.text, d.styles⟩ d.children (n + 1)

/-- **The drafted elements** for elements in given surroundings, with what is inside them, and the
numbers of scopes before and after. -/
inductive Drafts : Place → List Element → Nat → Nat → List Drafted → Prop where
  /-- No elements. -/
  | nil {at_ : Place} {n : Nat} : Drafts at_ [] n n []
  /-- An element, what is inside it, and the elements after it. -/
  | cons {at_ at' : Place} {e : Element} {es es' : List Element} {n n₁ n₂ n' : Nat} {w : Drafted}
      {inside after : List Drafted} : w.IsOf at_ e → Inside at_ e w.placed.name n at' es' n₁ →
      Drafts at' es' n₁ n₂ inside → Drafts at_ es n₂ n' after →
      Drafts at_ (e :: es) n n' (w :: (inside ++ after))

/-! ### What the placing of elements adds -/

namespace Draft

variable {sheets : StyleSheets} {at_ : Place} {D D' : Draft} {e : Element} {es : List Element}

/-- A draft goes on from another by drafted elements. -/
structure Extends (sheets : StyleSheets) (D : Draft) (ws : List Drafted) (D' : Draft) : Prop where
  /-- They are placed. -/
  placed_eq : D'.placed = D.placed ++ ws.map (·.placed)
  /-- Their statements come last. -/
  statements_eq : D'.statements = D.statements ++ ws.flatMap (·.statements sheets)

/-- Some elements are placed and then others. -/
lemma Extends.trans {D'' : Draft} {ws ws' : List Drafted} (h : Extends sheets D ws D')
    (h' : Extends sheets D' ws' D'') : Extends sheets D (ws ++ ws') D'' where
  placed_eq := by rw [h'.placed_eq, h.placed_eq, List.map_append, List.append_assoc]
  statements_eq := by
    rw [h'.statements_eq, h.statements_eq, List.flatMap_append, List.append_assoc]

/-- The statements that assign properties are one for each. -/
lemma assignments_eq {holder : Holder} {ps : List Property} {ss : List Statement}
    (h : assignments holder ps = .ok ss) : ss = ps.map (.assign holder) := by
  induction ps generalizing ss with
  | nil =>
    cases h
    rfl
  | cons p ps ih =>
    obtain ⟨_, _, h⟩ := Except.bind_eq_ok.1 h
    obtain ⟨rest, hrest, h⟩ := Except.bind_eq_ok.1 h
    cases h
    rw [ih hrest, List.map_cons]

/-- Placing one element adds it. -/
lemma placeOne_spec {name : Identifier} (h : placeOne sheets at_ D e = .ok (name, D')) :
    ∃ w : Drafted, w.IsOf at_ e ∧ w.placed.name = name ∧ Extends sheets D [w] D' ∧
      D'.scopes = D.scopes := by
  obtain ⟨⟨name', D₁⟩, hname, h⟩ := Except.bind_eq_ok.1 h
  obtain ⟨c, hc, h⟩ := Except.bind_eq_ok.1 h
  obtain ⟨ps, hps, h⟩ := Except.bind_eq_ok.1 h
  obtain ⟨rows, hrows, h⟩ := Except.bind_eq_ok.1 h
  have hD₁ : D₁.placed = D.placed ∧ D₁.statements = D.statements ∧ D₁.scopes = D.scopes := by
    obtain ⟨_, _, hname⟩ := Except.bind_eq_ok.1 hname
    obtain ⟨_, _, hname⟩ := Except.bind_eq_ok.1 hname
    cases hname
    exact ⟨rfl, rfl, rfl⟩
  obtain ⟨hplaced, hstatements, hscopes⟩ := hD₁
  cases h
  refine ⟨⟨⟨e, name, at_.parent, at_.scope, at_.styles⟩, c, rows, at_.arranged⟩,
    ⟨rfl, rfl, hc, hrows⟩, rfl, ⟨?_, ?_⟩, hscopes⟩
  · rw [← hplaced]
    rfl
  · rw [← hstatements, assignments_eq hps]
    simp [add, Drafted.statements, Drafted.properties]

/-- An element is placed first and then those inside it. -/
lemma place_eq : place sheets at_ D e = (do
    let (name, D) ← D.placeOne sheets at_ e
    if e.kind.acceptsChildren then
      placeAll sheets
        { at_ with parent := .element name, arranged := e.kind.arrangesChildren } D e.children
    else placeInline sheets e.kind name D e.reference) := by
  cases e
  rw [place]

end Draft

section Placing

variable {sheets : StyleSheets}

/-- What is to be shown of placing an element. -/
def Draft.PlaceDrafts (sheets : StyleSheets) (at_ : Place) (D : Draft) (e : Element) : Prop :=
  ∀ D', D.place sheets at_ e = .ok D' → ∃ (w : Drafted) (at' : Place) (es' : List Element) (n : Nat)
    (inside : List Drafted), w.IsOf at_ e ∧ Inside at_ e w.placed.name D.scopes at' es' n ∧
      Drafts at' es' n D'.scopes inside ∧ Draft.Extends sheets D (w :: inside) D'

/-- What is to be shown of placing what is inside a component. -/
def Draft.InlineDrafts (sheets : StyleSheets) (kind : Kind) (name : Identifier) (D : Draft)
    (r : Option TypeReference) : Prop :=
  ∀ (at_ : Place) (e : Element), e.kind = kind → e.reference = r → e.kind.acceptsChildren = false →
    ∀ D', D.placeInline sheets kind name r = .ok D' → ∃ (at' : Place) (es' : List Element) (n : Nat)
      (inside : List Drafted), Inside at_ e name D.scopes at' es' n ∧
        Drafts at' es' n D'.scopes inside ∧ Draft.Extends sheets D inside D'

/-- What is to be shown of placing elements. -/
def Draft.AllDraft (sheets : StyleSheets) (at_ : Place) (D : Draft) (es : List Element) : Prop :=
  ∀ D', D.placeAll sheets at_ es = .ok D' → ∃ ws, Drafts at_ es D.scopes D'.scopes ws ∧
    Draft.Extends sheets D ws D'

/-- **What the placing of elements adds to a draft.** -/
theorem Drafts.of_placeAll (at_ : Place) (D : Draft) (es : List Element) :
    D.AllDraft sheets at_ es := by
  refine (Draft.place.mutual_induct (Draft.PlaceDrafts sheets) (Draft.InlineDrafts sheets)
    (Draft.AllDraft sheets) ?one ?nil ?cons ?component ?declared ?none).2.2 at_ D es
  case one =>
    intro at_ D kind field layout properties styles children reference name hchildren hinline D' h
    rw [Draft.place_eq] at h
    obtain ⟨⟨i, D₁⟩, hone, h⟩ := Except.bind_eq_ok.1 h
    obtain ⟨w, hw, rfl, hext, hscopes⟩ := Draft.placeOne_spec hone
    simp only at h
    split at h
    · next hk =>
      obtain ⟨inside, hin, hext'⟩ := hchildren _ _ D' h
      exact ⟨w, _, _, _, inside, hw, .children hk, hscopes ▸ hin, hext.trans hext'⟩
    · next hk =>
      obtain ⟨at', es', n, inside, hinside, hin, hext'⟩ := hinline w.placed.name D₁ at_
        ⟨kind, field, layout, properties, styles, children, reference, name⟩ rfl rfl
        (Bool.eq_false_iff.2 hk) D' h
      exact ⟨w, at', es', n, inside, hw, hscopes ▸ hinside, hin, hext.trans hext'⟩
  case nil =>
    intro at_ D D' h
    cases h
    exact ⟨[], .nil, by simp, by simp⟩
  case cons =>
    intro at_ D e es hone hall D' h
    rw [Draft.placeAll] at h
    obtain ⟨D₁, hplace, h⟩ := Except.bind_eq_ok.1 h
    obtain ⟨w, at', es', n, inside, hw, hinside, hin, hext⟩ := hone D₁ hplace
    obtain ⟨after, hafter, hext'⟩ := hall D₁ D' h
    exact ⟨w :: (inside ++ after), .cons hw hinside hin hafter, hext.trans hext'⟩
  case component =>
    intro kind name D typeName isRoot isAnonymous styles properties children hc hall at_ e hk hr _ D' h
    rw [Draft.placeInline, if_pos hc] at h
    obtain ⟨ws, hws, hext⟩ := hall D' h
    exact ⟨_, _, _, ws, .component (hk.trans hc.2) hr hc.1, hws, hext.placed_eq, hext.statements_eq⟩
  case declared =>
    intro kind name D typeName isRoot isAnonymous styles properties children hc at_ e hk hr ha D' h
    rw [Draft.placeInline, if_neg hc] at h
    cases h
    refine ⟨at_, [], D.scopes, [], .nothing ha fun d hd hcomp => ?_, .nil, by simp, by simp⟩
    rw [hr] at hd
    cases hd
    exact Bool.eq_false_iff.2 fun h => hc ⟨h, hk ▸ hcomp⟩
  case none =>
    intro r kind name D hr at_ e hk he ha D' h
    rw [Draft.placeInline] at h
    · cases h
      refine ⟨at_, [], D.scopes, [], .nothing ha fun d hd _ => ?_, .nil, by simp, by simp⟩
      obtain ⟨typeName, isRoot, isAnonymous, styles, properties, children⟩ := d
      exact (hr _ _ _ _ _ _ (he.symm.trans hd)).elim
    · exact hr

end Placing

/-! ### The elements of the scopes -/

/-- The drafted elements of a scope. -/
def Drafted.inScope (scope : Nat) (ws : List Drafted) : List Drafted :=
  ws.filter fun w => w.placed.scope = scope

/-- What is inside an element is in the same scope or in the next new one. -/
lemma Inside.scope {at_ at' : Place} {e : Element} {name : Identifier} {n n₁ : Nat}
    {es' : List Element} (h : Inside at_ e name n at' es' n₁) :
    n ≤ n₁ ∧ (at'.scope = at_.scope ∨ n ≤ at'.scope ∧ at'.scope < n₁) := by
  cases h with
  | nothing => exact ⟨n.le_refl, .inl rfl⟩
  | children => exact ⟨n.le_refl, .inl rfl⟩
  | component => exact ⟨n.le_succ, .inr ⟨n.le_refl, n.lt_succ_self⟩⟩

namespace Drafts

variable {at_ : Place} {es : List Element} {n n' : Nat} {ws : List Drafted} {typeName : String}

/-- Placing elements counts scopes upwards. -/
lemma scopes_le (h : Drafts at_ es n n' ws) : n ≤ n' := by
  induction h with
  | nil => exact Nat.le_refl _
  | cons _ hi _ _ ih ih' => exact Nat.le_trans hi.scope.1 (Nat.le_trans ih ih')

/-- Every drafted element is what some element is drafted as. -/
lemma exists_isOf (h : Drafts at_ es n n' ws) : ∀ w ∈ ws, ∃ at_ e, w.IsOf at_ e := by
  induction h with
  | nil => exact fun _ h => (List.not_mem_nil h).elim
  | cons hw _ _ _ ih ih' =>
    exact List.forall_mem_cons.2 ⟨⟨_, _, hw⟩, List.forall_mem_append.2 ⟨ih, ih'⟩⟩

/-- Elements are in the scope around or in one of the new scopes. -/
lemma scope_eq_or (h : Drafts at_ es n n' ws) :
    ∀ w ∈ ws, w.placed.scope = at_.scope ∨ n ≤ w.placed.scope ∧ w.placed.scope < n' := by
  induction h with
  | nil => exact fun _ h => (List.not_mem_nil h).elim
  | cons hw hi hin hafter ih ih' =>
    have := hi.scope
    have := hin.scopes_le
    have := hafter.scopes_le
    refine List.forall_mem_cons.2 ⟨.inl (by rw [hw.placed_eq]), List.forall_mem_append.2
      ⟨fun w hm => ?_, fun w hm => ?_⟩⟩
    · have := ih w hm
      omega
    · have := ih' w hm
      omega

/-- There are no elements of other scopes. -/
lemma inScope_eq_nil (h : Drafts at_ es n n' ws) {scope : Nat} (hs : scope ≠ at_.scope)
    (hn : scope < n ∨ n' ≤ scope) : Drafted.inScope scope ws = [] := by
  refine List.filter_eq_nil_iff.2 fun w hw => ?_
  have := h.scope_eq_or w hw
  rw [decide_eq_true_eq]
  omega

/-- **The elements of the scope around** are those given and those inside them. -/
theorem elements_eq (h : Drafts at_ es n n' ws) (hs : at_.scope < n)
    (hr : ∀ e ∈ walkAll es, e.kind.acceptsChildren = false → e.children = []) :
    (Drafted.inScope at_.scope ws).map (·.placed.element) = walkAll es := by
  induction h with
  | nil => rfl
  | @cons at_ at' e es es' n n₁ n₂ n' w inside after hw hi hin hafter ih ih' =>
    rw [walkAll_cons, List.forall_mem_cons, List.forall_mem_append] at hr
    obtain ⟨he, hrin, hrafter⟩ := hr
    have hhead : w.placed.scope = at_.scope ∧ w.placed.element = e := by
      rw [hw.placed_eq]
      exact ⟨rfl, rfl⟩
    have hinside : (Drafted.inScope at_.scope inside).map (·.placed.element) =
        walkAll e.children := by
      cases hi with
      | nothing hk =>
        cases hin
        rw [he hk]
        rfl
      | children hk => exact ih hs hrin
      | component hk =>
        rw [hin.inScope_eq_nil (Nat.ne_of_lt hs) (.inl (Nat.lt_succ_of_lt hs)),
          he (by rw [hk]; rfl)]
        rfl
    have hscopes := hi.scope.1
    have hle := hin.scopes_le
    have hafter := ih' (by omega) hrafter
    unfold Drafted.inScope at hinside hafter ⊢
    rw [List.filter_cons_of_pos (by simpa using hhead.1), List.filter_append, List.map_cons,
      List.map_append, hinside, hafter, hhead.2, walkAll_cons]

/-- **Every component in place has a scope** for its elements. -/
theorem exists_scope (h : Drafts at_ es n n' ws) (hs : at_.scope < n)
    (hp : AreInPlace typeName es) : ∀ d ∈ definitionsAll es, ∃ scope, n ≤ scope ∧ scope < n' ∧
      (Drafted.inScope scope ws).map (·.placed.element) = d.elements := by
  induction h generalizing typeName with
  | nil => exact fun _ h => (List.not_mem_nil h).elim
  | @cons at_ at' e es es' n n₁ n₂ n' w inside after hw hi hin hafter ih ih' =>
    have hscopes := hi.scope
    have hle := hin.scopes_le
    have hle' := hafter.scopes_le
    have hhead : w.placed.scope = at_.scope := by rw [hw.placed_eq]
    have split : ∀ scope, scope ≠ at_.scope → Drafted.inScope scope (w :: (inside ++ after)) =
        Drafted.inScope scope inside ++ Drafted.inScope scope after := by
      intro scope hne
      unfold Drafted.inScope
      rw [List.filter_cons_of_neg (by simpa [hhead] using hne.symm), List.filter_append]
    -- A scope that begins inside the element has no elements after it.
    have within : ∀ (scope : Nat) (d : Definition), n ≤ scope → scope < n₂ →
        (Drafted.inScope scope inside).map (·.placed.element) = d.elements →
        ∃ scope, n ≤ scope ∧ scope < n' ∧
          (Drafted.inScope scope (w :: (inside ++ after))).map (·.placed.element) = d.elements := by
      intro scope d hn hn' hd
      have hne : scope ≠ at_.scope := by omega
      refine ⟨scope, hn, by omega, ?_⟩
      rw [split scope hne, hafter.inScope_eq_nil hne (.inl hn'), List.append_nil, hd]
    intro d hd
    rw [definitionsAll_cons, List.mem_append] at hd
    rcases hd with hd | hd
    swap
    · obtain ⟨scope, hn, hn', heq⟩ := ih' (by omega) hp.tail d hd
      have hne : scope ≠ at_.scope := by omega
      refine ⟨scope, by omega, hn', ?_⟩
      rw [split scope hne, hin.inScope_eq_nil (by omega) (.inr hn), List.nil_append, heq]
    · have hplace := hp.isInPlace e AreInPlace.mem_head
      have hreg := hp.regular e AreInPlace.mem_head
      cases hi with
      | nothing hk hno =>
        rw [hreg.children_eq_nil hk, definitionsAll, List.append_nil] at hd
        unfold IsInPlace at hplace
        split at hplace
        · next hcomp =>
          obtain ⟨nested, hr, ha⟩ := hplace
          rw [hno nested hr hcomp] at ha
          cases ha
        · next hcomp =>
          rw [inline?_eq_none hplace] at hd
          cases hd
      | children hk =>
        have hcomp : e.kind ≠ .component := by
          intro hcomp
          rw [hcomp] at hk
          cases hk
        rw [IsInPlace, if_neg hcomp] at hplace
        rw [inline?_eq_none hplace] at hd
        obtain ⟨scope, hn, hn', heq⟩ := ih hs hp.children d hd
        exact within scope d hn hn' heq
      | @component nested hk hr ha =>
        have hkids : e.kind.acceptsChildren = false := by rw [hk]; rfl
        rw [hreg.children_eq_nil hkids, definitionsAll, List.append_nil, inline?_eq_some hr] at hd
        have hnested := hp.inline hr
        obtain rfl | hd := Definition.mem_definitions_iff.1 hd
        · refine within n d n.le_refl hle ?_
          have := hin.elements_eq n.lt_succ_self fun e he => (hnested.regular e he).children_eq_nil
          exact this
        · obtain ⟨scope, hn, hn', heq⟩ := ih n.lt_succ_self hnested d hd
          exact within scope d (by omega) hn' heq

end Drafts

end ViewMarkup
