import Mathlib.Data.List.Induction
import ViewMarkup.Proofs.Source.Drafting

/-!
# What a routine builds

The statements of a routine act on views that are numbered in the order of their creation; the
component itself is the first. A local name means the view that it was given last, and the mark that
admits keywords is no part of the name. Modifiers of a constraint that are not written leave the
other side as it is.

## Main definitions

* `BuiltView`, `ActiveConstraint` — a view and its constraints.
* `Assembly` — the views built so far, and what the local names mean.
* `Assembly.step`, `Assembly.run` — what statements do.
* `Assembly.Built` — the views built by drafted elements.

## Main statements

* `Assembly.run_statements` — what the statements of one element do.
* `Assembly.run_drafted` — what the statements of all elements do.
-/

namespace ViewMarkup

/-! ### Views and their constraints -/

/-- What an active constraint relates to. -/
inductive ActiveTarget where
  /-- A number. -/
  | constant (value : Float)
  /-- An anchor of a view. -/
  | anchor (view : Nat) (anchor : Anchor)

/-- A constraint that was activated. -/
structure ActiveConstraint where
  /-- The constrained anchor. -/
  anchor : Anchor
  /-- How the two sides compare. -/
  relation : Relation
  /-- The other side. -/
  target : ActiveTarget
  /-- The factor of the other side. -/
  multiplier : Float
  /-- What is added to the other side. -/
  constant : Float
  /-- The weight. -/
  priority : Priority

/-- A view that a routine has built. -/
structure BuiltView where
  /-- How it was constructed; the component itself was there before. -/
  construction : Option Construction
  /-- The properties that were assigned, each name once. -/
  properties : List Property := []
  /-- The views attached to it, in order, and whether it lines them up. -/
  children : List (Nat × Bool) := []
  /-- The constraints activated on it, in order. -/
  constraints : List ActiveConstraint := []

/-- The properties after assignments. -/
def Property.assignAll (ps : List Property) (start : List Property) : List Property :=
  ps.foldl (fun qs p => p.assign qs) start

/-- What a modifier does to a constraint. -/
def BuiltModifier.on (c : ActiveConstraint) : BuiltModifier → ActiveConstraint
  | multipliedBy x => { c with multiplier := x }
  | offset x => { c with constant := x }
  | priority p => { c with priority := p }

/-! ### Statements -/

/-- The views built so far. -/
structure Assembly where
  /-- The views, by number. -/
  views : List BuiltView
  /-- What the local names mean, the last given first. -/
  names : List (String × Nat) := []

namespace Assembly

/-- The component before anything is built. -/
def start : Assembly where
  views := [{ construction := none }]

/-- The view that a holder means. -/
def find? (m : Assembly) : Holder → Option Nat
  | .component => some 0
  | .element name => m.names.lookup name.name

/-- The views with one changed. -/
def update (m : Assembly) (i : Nat) (f : BuiltView → BuiltView) : Assembly :=
  { m with views := m.views.modify i f }

/-- The other side of a constraint. -/
def target? (m : Assembly) : BuiltTarget → Option ActiveTarget
  | .constant v => some (.constant v)
  | .anchor holder a => (m.find? holder).map fun i => .anchor i a

/-- A constraint as it is activated: with a factor of one, no offset and the highest priority, until
its modifiers change them. -/
def active? (m : Assembly) (c : BuiltConstraint) : Option ActiveConstraint :=
  (m.target? c.target).map fun target =>
    c.modifiers.foldl BuiltModifier.on
      { anchor := c.anchor
        relation := c.relation
        target
        multiplier := 1.0
        constant := 0.0
        priority := .required }

/-- What a statement does; nothing is done if a name means nothing. The rows of lists are none of
the views, and neither are constraints that are kept. -/
def step (m : Assembly) : Statement → Option Assembly
  | .create name construction =>
      some {
        views := m.views ++ [{ construction := some construction }]
        names := (name.name, m.views.length) :: m.names }
  | .assign holder p =>
      (m.find? holder).map fun i => m.update i fun v => { v with properties := p.assign v.properties }
  | .useTemplate list _ | .useCell list _ => (m.find? (.element list)).map fun _ => m
  | .attach parent child arranged => do
      let p ← m.find? parent
      let c ← m.find? (.element child)
      some (m.update p fun v => { v with children := v.children ++ [(c, arranged)] })
  | .constrain c => do
      let i ← m.find? (.element c.element)
      let active ← m.active? c
      some (m.update i fun v => { v with constraints := v.constraints ++ [active] })

/-- What statements do, one after the other. -/
def run (m : Assembly) (ss : List Statement) : Option Assembly := ss.foldlM step m

variable {m m' : Assembly} {i j : Nat}

/-- One statement is run and then others. -/
lemma run_cons (s : Statement) (ss : List Statement) :
    m.run (s :: ss) = (m.step s).bind fun m' => m'.run ss := List.foldlM_cons ..

/-- Some statements are run and then others. -/
lemma run_append (ss ss' : List Statement) :
    m.run (ss ++ ss') = (m.run ss).bind fun m' => m'.run ss' := List.foldlM_append ..

/-- What an update does to the views. -/
lemma getElem?_update (f : BuiltView → BuiltView) :
    (m.update i f).views[j]? = if i = j then m.views[j]?.map f else m.views[j]? := by
  rw [update, List.getElem?_modify]
  split <;> simp

/-- An update adds no view. -/
@[simp]
lemma length_update (f : BuiltView → BuiltView) :
    (m.update i f).views.length = m.views.length := List.length_modify ..

/-- It changes no name. -/
@[simp]
lemma find?_update (f : BuiltView → BuiltView) (holder : Holder) :
    (m.update i f).find? holder = m.find? holder := by
  cases holder <;> rfl

/-- Assignments give a view its properties. -/
lemma run_assign {holder : Holder} (h : m.find? holder = some i) (ps : List Property) :
    m.run (ps.map (.assign holder)) =
      some (m.update i fun v => { v with properties := Property.assignAll ps v.properties }) := by
  induction ps generalizing m with
  | nil =>
    have : (fun v : BuiltView => { v with properties := Property.assignAll [] v.properties }) = id :=
      rfl
    rw [this, update, List.modify_id]
    rfl
  | cons p ps ih =>
    rw [List.map_cons, run_cons, step, h, Option.map_some, Option.bind_some,
      ih ((find?_update _ _).trans h), update, update, List.modify_modify_eq]
    rfl

/-- Statements about rows change no view. -/
lemma run_rows {e : Element} {name : Identifier} {rows : List Statement}
    (h : Draft.cell e name = .ok rows) (hi : m.find? (.element name) = some i) :
    m.run rows = some m := by
  have one : ∀ s, m.step s = (m.find? (.element name)).map (fun _ => m) → m.run [s] = some m := by
    intro s hs
    rw [run_cons, hs, hi]
    rfl
  unfold Draft.cell at h
  split at h
  · next r _ _ =>
    split at h
    · cases h
      exact one _ rfl
    · cases ht : Identifier.ofText r.typeName with
      | error e =>
        rw [ht] at h
        cases h
      | ok type =>
        rw [ht] at h
        cases h
        exact one _ rfl
  · cases h
    rfl

/-- The views with a new one, and what its name means. -/
def create (m : Assembly) (name : Identifier) (construction : Construction) : Assembly where
  views := m.views ++ [{ construction := some construction }]
  names := (name.name, m.views.length) :: m.names

/-- A name that is given out means the view that was created with it. -/
lemma find?_create (name : Identifier) (construction : Construction) :
    (m.create name construction).find? (.element name) = some m.views.length :=
  List.lookup_cons_self

/-- The other names mean what they meant. -/
lemma find?_create_of_ne {name : Identifier} {construction : Construction} {holder : Holder}
    (h : ∀ i, holder = .element i → i.name ≠ name.name) :
    (m.create name construction).find? holder = m.find? holder := by
  cases holder with
  | component => rfl
  | element i =>
    rw [find?, create, List.lookup_cons, beq_eq_false_iff_ne.2 (h i rfl)]
    rfl

/-- The views with one for an element, below another. -/
def add (m : Assembly) (sheets : StyleSheets) (w : Drafted) (parent : Nat) : Assembly :=
  ((m.create w.placed.name w.construction).update m.views.length fun v =>
    { v with properties := Property.assignAll (w.properties sheets) v.properties }).update parent
      fun v => { v with children := v.children ++ [(m.views.length, w.arranged)] }

section Add

variable {sheets : StyleSheets} {w : Drafted} {p : Nat}

/-- Adding an element changes the names as its creation does. -/
lemma find?_add (holder : Holder) :
    (m.add sheets w p).find? holder = (m.create w.placed.name w.construction).find? holder := by
  rw [add, find?_update, find?_update]

/-- It adds one view. -/
lemma length_add : (m.add sheets w p).views.length = m.views.length + 1 := by
  simp [add, create]

/-- The views that were there are changed only in that one of them has one more below it. -/
lemma getElem?_add_of_lt (hi : i < m.views.length) :
    (m.add sheets w p).views[i]? = m.views[i]?.map fun v =>
      { v with
        children := v.children ++ if p = i then [(m.views.length, w.arranged)] else [] } := by
  rw [add, getElem?_update, getElem?_update, if_neg (Nat.ne_of_gt hi)]
  have hcreate : (m.create w.placed.name w.construction).views[i]? = m.views[i]? :=
    List.getElem?_append_left hi
  rw [hcreate]
  by_cases hp : p = i <;> simp [hp]

/-- The new view. -/
lemma getElem?_add_length (hp : p < m.views.length) :
    (m.add sheets w p).views[m.views.length]? = some
      { construction := some w.construction
        properties := Property.assignAll (w.properties sheets) [] } := by
  rw [add, getElem?_update, if_neg (Nat.ne_of_lt hp), getElem?_update, if_pos rfl]
  have hcreate : (m.create w.placed.name w.construction).views[m.views.length]? =
      some { construction := some w.construction } := List.getElem?_concat_length
  rw [hcreate, Option.map_some]

/-- **What the statements of one element do**: a new view gets the properties and goes below its
parent. -/
theorem run_statements {e : Element} (hrows : Draft.cell e w.placed.name = .ok w.rows)
    (hp : m.find? w.placed.parent = some p)
    (hne : ∀ i, w.placed.parent = .element i → i.name ≠ w.name) :
    m.run (w.statements sheets) = some (m.add sheets w p) := by
  have hnew : (m.create w.placed.name w.construction).find? (.element w.placed.name) =
      some m.views.length := find?_create _ _
  have hparent : (m.create w.placed.name w.construction).find? w.placed.parent = some p :=
    (find?_create_of_ne hne).trans hp
  rw [Drafted.statements, run_cons, step, Option.bind_some, run_append]
  change ((m.create w.placed.name w.construction).run _).bind _ = _
  rw [run_assign hnew, Option.bind_some, run_append,
    run_rows hrows ((find?_update _ _).trans hnew), Option.bind_some, run_cons, step,
    find?_update, find?_update, hparent, hnew]
  rfl

end Add

end Assembly

/-! ### All elements -/

namespace Drafted

/-- The numbers of the elements attached to a holder, and whether it lines them up. The first of all
elements is the second view. -/
def attachedTo (holder : Holder) (ws : List Drafted) : List (Nat × Bool) :=
  (ws.zipIdx 1).filterMap fun (w, i) =>
    if w.placed.parent = holder then some (i, w.arranged) else none

/-- What is attached to a holder when one more element is there. -/
lemma attachedTo_concat (holder : Holder) (ws : List Drafted) (w : Drafted) :
    attachedTo holder (ws ++ [w]) = attachedTo holder ws ++
      if w.placed.parent = holder then [(ws.length + 1, w.arranged)] else [] := by
  rw [attachedTo, List.zipIdx_append, List.filterMap_append, Nat.add_comm]
  congr 1
  rw [List.zipIdx_singleton, List.filterMap_cons, List.filterMap_nil]
  by_cases h : w.placed.parent = holder
  · simp only [h, ↓reduceIte]
  · simp only [h, ↓reduceIte]

/-- Nothing is attached to a holder that is nobody's parent. -/
lemma attachedTo_eq_nil {holder : Holder} {ws : List Drafted}
    (h : ∀ w ∈ ws, w.placed.parent ≠ holder) : attachedTo holder ws = [] := by
  refine List.filterMap_eq_nil_iff.2 fun ⟨w, i⟩ hm => if_neg (h w ?_)
  exact List.fst_mem_of_mem_zipIdx hm

/-- Elements are attached to the component or to an element drafted before. -/
def AreRooted (ws : List Drafted) : Prop :=
  ∀ before w after, ws = before ++ w :: after → w.placed.parent = .component ∨
    ∃ w' ∈ before, w.placed.parent = .element w'.placed.name

/-- Elements are rooted without the last one, and it hangs on one of them or on the component. -/
lemma AreRooted.of_concat {ws : List Drafted} {w : Drafted} (h : AreRooted (ws ++ [w])) :
    AreRooted ws ∧ (w.placed.parent = .component ∨
      ∃ w' ∈ ws, w.placed.parent = .element w'.placed.name) :=
  ⟨fun before w' after hws => h before w' (after ++ [w]) (by rw [hws]; simp), h ws w [] rfl⟩

end Drafted

namespace Assembly

/-- **The views built by drafted elements**: each has the properties of its element, and those below
it are the views of the elements attached to it. -/
structure Built (sheets : StyleSheets) (root : List Property) (ws : List Drafted) (m : Assembly) :
    Prop where
  /-- There are no other views. -/
  length_eq : m.views.length = ws.length + 1
  /-- The component itself. -/
  component : m.views[0]? = some
    { construction := none, properties := root, children := Drafted.attachedTo .component ws }
  /-- The view of an element. -/
  view : ∀ i w, ws[i]? = some w → m.views[i + 1]? = some
    { construction := some w.construction
      properties := Property.assignAll (w.properties sheets) []
      children := Drafted.attachedTo (.element w.placed.name) ws }
  /-- The name of an element means its view. -/
  find?_eq : ∀ i w, ws[i]? = some w → m.find? (.element w.placed.name) = some (i + 1)

variable {sheets : StyleSheets} {root : List Property} {m : Assembly}

/-- Where a list has one member more, that member is the only one behind the others. -/
lemma eq_of_getElem?_concat {α : Type} {xs : List α} {x y : α} {i : Nat} (hi : xs.length ≤ i)
    (h : (xs ++ [x])[i]? = some y) : i = xs.length ∧ y = x := by
  rw [List.getElem?_append_right hi, List.getElem?_singleton] at h
  split at h
  · cases h
    exact ⟨by omega, rfl⟩
  · cases h

/-- The view that an element is attached to. -/
lemma Built.exists_parent {ws : List Drafted} {w : Drafted} (h : m.Built sheets root ws)
    (hparent : w.placed.parent = .component ∨ ∃ w' ∈ ws, w.placed.parent = .element w'.placed.name)
    (hn : (ws.map (·.name)).Nodup) :
    ∃ p, m.find? w.placed.parent = some p ∧ p < m.views.length ∧
      (p = 0 ↔ w.placed.parent = .component) ∧
      ∀ i w', ws[i]? = some w' → (p = i + 1 ↔ w.placed.parent = .element w'.placed.name) := by
  rw [h.length_eq]
  rcases hparent with hparent | ⟨w', hw', hparent⟩
  · rw [hparent]
    exact ⟨0, rfl, Nat.succ_pos _, iff_of_true rfl rfl, fun i w' _ => by simp⟩
  · obtain ⟨j, hj, rfl⟩ := List.mem_iff_getElem.1 hw'
    rw [hparent]
    refine ⟨j + 1, h.find?_eq j _ (List.getElem?_eq_getElem hj), by omega, by simp, ?_⟩
    intro i w' hi
    obtain ⟨hi', rfl⟩ := List.getElem?_eq_some_iff.1 hi
    refine ⟨fun hij => ?_, fun hij => ?_⟩
    · obtain rfl : j = i := by omega
      rfl
    · have hws : ws[j] = ws[i] := List.inj_on_of_nodup_map hn (List.getElem_mem _)
        (List.getElem_mem _) (congrArg Identifier.name (Holder.element.inj hij))
      rw [hn.of_map.getElem_inj_iff.1 hws]

/-- One more element is built. -/
lemma Built.concat {ws : List Drafted} {w : Drafted} {e : Element} (h : m.Built sheets root ws)
    (hrows : Draft.cell e w.placed.name = .ok w.rows)
    (hparent : w.placed.parent = .component ∨ ∃ w' ∈ ws, w.placed.parent = .element w'.placed.name)
    (hrooted : Drafted.AreRooted ws) (hn : ((ws ++ [w]).map (·.name)).Nodup) :
    ∃ m', m.run (w.statements sheets) = some m' ∧ m'.Built sheets root (ws ++ [w]) := by
  rw [List.map_append] at hn
  have fresh : ∀ w' ∈ ws, w'.name ≠ w.name := fun w' hw' hname =>
    (List.nodup_append.1 hn).2.2 _ (List.mem_map_of_mem hw') _ (List.mem_singleton_self _) hname
  obtain ⟨p, hp, hlt, hroot, hview⟩ := h.exists_parent hparent hn.of_append_left
  have hne : ∀ i, w.placed.parent = .element i → i.name ≠ w.name := by
    rintro i hi
    rcases hparent with hparent | ⟨w', hw', hparent⟩
    · rw [hparent] at hi
      cases hi
    · rw [hparent] at hi
      cases hi
      exact fresh w' hw'
  refine ⟨_, run_statements hrows hp hne, ?_⟩
  have hlen := h.length_eq
  have old : ∀ k v holder, m.views[k]? = some v → (p = k ↔ w.placed.parent = holder) →
      v.children = Drafted.attachedTo holder ws → (m.add sheets w p).views[k]? =
        some { v with children := Drafted.attachedTo holder (ws ++ [w]) } := by
    intro k v holder hk hpk hv
    rw [getElem?_add_of_lt (List.getElem?_eq_some_iff.1 hk).1, hk, Option.map_some,
      Drafted.attachedTo_concat, ← hv, hlen]
    by_cases hpk' : p = k
    · rw [if_pos hpk', if_pos (hpk.1 hpk')]
    · rw [if_neg hpk', if_neg fun hh => hpk' (hpk.2 hh)]
  -- Nothing is attached to the new view yet.
  have bare : ∀ w' ∈ ws ++ [w], w'.placed.parent ≠ .element w.placed.name := by
    rw [List.forall_mem_append, List.forall_mem_singleton]
    refine ⟨fun w' hw' hparent' => ?_, fun hparent' => hne _ hparent' rfl⟩
    obtain ⟨before, after, hws⟩ := List.append_of_mem hw'
    rcases hrooted before w' after hws with hc | ⟨w'', hw'', he⟩
    · rw [hc] at hparent'
      cases hparent'
    · rw [he] at hparent'
      exact fresh w'' (hws ▸ List.mem_append_left _ hw'')
        (congrArg Identifier.name (Holder.element.inj hparent'))
  refine
    { length_eq := by rw [length_add, hlen, List.length_append, List.length_singleton]
      component := old 0 _ .component h.component hroot rfl
      view := fun i w' hi => ?_
      find?_eq := fun i w' hi => ?_ }
  · rcases Nat.lt_or_ge i ws.length with hlt' | hge
    · rw [List.getElem?_append_left hlt'] at hi
      exact old (i + 1) _ _ (h.view i w' hi) (hview i w' hi) rfl
    · obtain ⟨rfl, rfl⟩ := eq_of_getElem?_concat hge hi
      rw [← hlen, getElem?_add_length hlt, Drafted.attachedTo_eq_nil bare]
  · rw [find?_add]
    rcases Nat.lt_or_ge i ws.length with hlt' | hge
    · rw [List.getElem?_append_left hlt'] at hi
      rw [find?_create_of_ne, h.find?_eq i w' hi]
      rintro _ ⟨⟩
      exact fresh w' (List.mem_of_getElem? hi)
    · obtain ⟨rfl, rfl⟩ := eq_of_getElem?_concat hge hi
      rw [find?_create, hlen]

/-- Before any elements, the component gets the properties of its root. -/
lemma exists_built_nil (sheets : StyleSheets) (ps : List Property) : ∃ m,
    start.run (ps.map (.assign .component)) = some m ∧
      m.Built sheets (Property.assignAll ps []) [] :=
  ⟨_, run_assign rfl ps,
    { length_eq := rfl
      component := rfl
      view := fun _ _ h => by cases h
      find?_eq := fun _ _ h => by cases h }⟩

/-- **What the statements of all elements do.** -/
theorem run_drafted (hm : m.Built sheets root []) (ws : List Drafted)
    (hrows : ∀ w ∈ ws, Draft.cell w.placed.element w.placed.name = .ok w.rows)
    (hrooted : Drafted.AreRooted ws) (hn : (ws.map (·.name)).Nodup) :
    ∃ m', m.run (ws.flatMap (·.statements sheets)) = some m' ∧ m'.Built sheets root ws := by
  induction ws using List.reverseRecOn with
  | nil => exact ⟨m, rfl, hm⟩
  | append_singleton ws w ih =>
    obtain ⟨hws, hparent⟩ := hrooted.of_concat
    rw [List.forall_mem_append, List.forall_mem_singleton] at hrows
    obtain ⟨m₁, hrun, h₁⟩ := ih hrows.1 hws (by
      rw [List.map_append] at hn
      exact hn.of_append_left)
    obtain ⟨m', hrun', h'⟩ := h₁.concat hrows.2 hparent hws hn
    refine ⟨m', ?_, h'⟩
    rw [List.flatMap_append, run_append, hrun, Option.bind_some, List.flatMap_singleton, hrun']

/-! ### Constraints -/

/-- What a constraint means does not depend on the properties of views. -/
@[simp]
lemma active?_update (i : Nat) (f : BuiltView → BuiltView) (c : BuiltConstraint) :
    (m.update i f).active? c = m.active? c := by
  have : (m.update i f).target? c.target = m.target? c.target := by
    cases c.target with
    | constant v => rfl
    | anchor holder a => rw [target?, target?, find?_update]
  rw [active?, this, active?]

/-- Constraints of one view are activated on it. -/
lemma run_constrain {i : Nat} {cs : List BuiltConstraint} {active : List ActiveConstraint}
    (hi : ∀ c ∈ cs, m.find? (.element c.element) = some i)
    (h : List.Forall₂ (fun c a => m.active? c = some a) cs active) :
    m.run (cs.map .constrain) =
      some (m.update i fun v => { v with constraints := v.constraints ++ active }) := by
  induction cs generalizing m active with
  | nil =>
    cases h
    have : (fun v : BuiltView => { v with constraints := v.constraints ++ [] }) = id := by
      funext v
      rw [List.append_nil]
      rfl
    rw [this, update, List.modify_id]
    rfl
  | cons c cs ih =>
    obtain ⟨a, active, hc, hcs, rfl⟩ := List.forall₂_cons_left_iff.1 h
    rw [List.forall_mem_cons] at hi
    have hstep : m.step (.constrain c) =
        some (m.update i fun v => { v with constraints := v.constraints ++ [a] }) := by
      rw [step, hi.1, hc]
      rfl
    rw [List.map_cons, run_cons, hstep, Option.bind_some,
      ih (fun c hc => (find?_update _ _).trans (hi.2 c hc))
        (hcs.imp fun c a h => (active?_update _ _ c).trans h),
      update, update, List.modify_modify_eq]
    simp only [Function.comp_def, List.append_assoc, List.singleton_append]
    rfl

/-- **Constraints of views in their order** are activated on these views. -/
theorem run_constraints {k : Nat} {css : List (List BuiltConstraint)}
    {actives : List (List ActiveConstraint)}
    (hfind : ∀ j cs, css[j]? = some cs → ∀ c ∈ cs, m.find? (.element c.element) = some (k + j))
    (h : List.Forall₂ (List.Forall₂ fun c a => m.active? c = some a) css actives) :
    ∃ m' : Assembly, m.run (css.flatten.map .constrain) = some m' ∧
      ∀ i, m'.views[i]? = m.views[i]?.map fun v : BuiltView =>
        { v with
          constraints := v.constraints ++ if k ≤ i then actives[i - k]?.getD [] else [] } := by
  induction css generalizing m k actives with
  | nil =>
    cases h
    exact ⟨m, rfl, fun i => by simp⟩
  | cons cs css ih =>
    obtain ⟨active, actives, hcs, hcss, rfl⟩ := List.forall₂_cons_left_iff.1 h
    have hrun := run_constrain (hfind 0 cs rfl) hcs
    obtain ⟨m', hrun', hm'⟩ := ih (k := k + 1)
      (m := m.update k fun v => { v with constraints := v.constraints ++ active })
      (fun j cs' hj c hc => by
        rw [find?_update, hfind (j + 1) cs' (by simpa using hj) c hc, Nat.add_assoc, Nat.add_comm 1])
      (hcss.imp fun cs active h => h.imp fun c a h => (active?_update _ _ c).trans h)
    refine ⟨m', ?_, fun i => ?_⟩
    · rw [List.flatten_cons, List.map_append, run_append, hrun, Option.bind_some]
      exact hrun'
    · rw [hm', getElem?_update]
      rcases Nat.lt_trichotomy i k with hlt | rfl | hgt
      · rw [if_neg (by omega), if_neg (by omega), if_neg (by omega)]
      · rw [if_pos rfl, if_neg (by omega), if_pos i.le_refl, Option.map_map, Nat.sub_self]
        simp only [List.append_nil]
        rfl
      · have hne : ¬ k = i := by omega
        have hsub : i - k = i - (k + 1) + 1 := by omega
        rw [if_neg hne, if_pos (Nat.succ_le_of_lt hgt), if_pos (Nat.le_of_lt hgt), hsub,
          List.getElem?_cons_succ]

end Assembly

end ViewMarkup
