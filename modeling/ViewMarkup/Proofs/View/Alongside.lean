import ViewMarkup.Proofs.View.Tracking

/-!
# An application elsewhere goes the same way

A definition is applied to a node, and to the counterpart of the node in another tree. The two trees
agree on what the application may touch, and their surroundings may differ. Then both applications
succeed with the same report, or both stop at the same error; and in either case the trees still agree.

Nothing is assumed of the definition, the library, the styles or the host. The two runs are followed
side by side. What is handed on from one step to the next is an identity that was given out before, so
that at the end all that the trees and the components mention was given out.

## Main definitions

* `Live.Together` — two steps end in the same way.
* `Reserve.TracksRun` — a run of an application agrees with another one.
* `Reserve.Tracked` — two steps take runs that agree to runs that agree.
* `Binding.rename`, `ApplyReport.rename` — what is left of an application, with other identities.

## Main statements

* `Reserve.applyScope_tracked` — a whole application and its counterpart.
* `Reserve.apply_tracked` — the same for a component.
-/

namespace ViewMarkup

open ViewTree

variable {H : Type}

/-! ### Steps side by side -/

/-- Two steps end in the same way: both succeed, or both fail with the same error. -/
def Live.Together {α : Type} (s : Run H) (x : Live H α) (r : Run H) (y : Live H α)
    (ok : α → Run H → α → Run H → Prop) (fail : Run H → Run H → Prop) : Prop :=
  match x s, y r with
  | .ok v s', .ok w r' => ok v s' w r'
  | .error e s', .error e' r' => e' = e ∧ fail s' r'
  | _, _ => False

namespace Live.Together

variable {α β : Type} {s r : Run H} {x y : Live H α} {ok : α → Run H → α → Run H → Prop}
  {fail : Run H → Run H → Prop}

/-- Two runs of a composition are side by side if those of the first part are, and then those of the
second. -/
lemma bind {f g : α → Live H β} {ok : β → Run H → β → Run H → Prop}
    (h : Together s x r y (fun v s' w r' => Together s' (f v) r' (g w) ok fail) fail) :
    Together s (x >>= f) r (y >>= g) ok fail := by
  unfold Together at *
  simp only [Bind.bind, EStateM.bind]
  cases hx : x s <;> cases hy : y r <;> rw [hx, hy] at h
  · exact h
  · exact h.elim
  · exact h.elim
  · exact h

/-- Both may look at their states. -/
lemma get {f g : Run H → Live H β} {ok : β → Run H → β → Run H → Prop}
    (h : Together s (f s) r (g r) ok fail) :
    Together s (MonadState.get >>= f) r (MonadState.get >>= g) ok fail := h

/-- Both may replace their states. -/
lemma set {s' r' : Run H} {f g : PUnit → Live H β} {ok : β → Run H → β → Run H → Prop}
    (h : Together s' (f ⟨⟩) r' (g ⟨⟩) ok fail) :
    Together s (MonadStateOf.set s' >>= f) r (MonadStateOf.set r' >>= g) ok fail := h

/-- Less may be asked of two runs. -/
lemma imp {ok' : α → Run H → α → Run H → Prop} {fail' : Run H → Run H → Prop}
    (h : Together s x r y ok fail) (hok : ∀ v s' w r', ok v s' w r' → ok' v s' w r')
    (hfail : ∀ s' r', fail s' r' → fail' s' r') : Together s x r y ok' fail' := by
  unfold Together at *
  cases hx : x s <;> cases hy : y r <;> rw [hx, hy] at h
  · exact hok _ _ _ _ h
  · exact h.elim
  · exact h.elim
  · exact ⟨h.1, hfail _ _ h.2⟩

end Live.Together

/-! ### Other identities -/

section Rename

variable (ρ : NodeId → NodeId)

/-- A component with other identities. -/
def Binding.rename (b : Binding) : Binding :=
  { b with
    node := ρ b.node
    fields := b.fields.map ρ
    captured := b.captured.map (·.rename ρ) }

/-- A report with other identities. -/
def ApplyReport.rename (r : ApplyReport) : ApplyReport := { r with named := r.named.map ρ }

/-- A component whose scope is applied, with another identity. -/
def ScopeRoot.rename (root : ScopeRoot) : ScopeRoot := { root with node := ρ root.node }

end Rename

/-- Replacing constraints adds no node. -/
lemma ViewTree.size_slots_foldl_modify (t : ViewTree H)
    (changes : List (NodeId × List LiveConstraint)) :
    (changes.foldl (fun t (id, cs) => t.modify id fun n => { n with constraints := cs })
      t).slots.size = t.slots.size := by
  induction changes generalizing t with
  | nil => rfl
  | cons change changes ih => exact (ih _).trans (size_slots_modifySlot t change.1 _)

/-- All that a component mentions was given out. -/
structure Binding.IsIssued (t : ViewTree H) (b : Binding) : Prop where
  node : t.Issued b.node
  fields : ∀ id ∈ b.fields.values, t.Issued id
  captured : ∀ h ∈ b.captured.values, t.Issued h.node

/-- What was issued stays so in a tree that has grown. -/
lemma Binding.IsIssued.mono {t t' : ViewTree H} {b : Binding} (h : b.IsIssued t)
    (hsize : t.slots.size ≤ t'.slots.size) : b.IsIssued t' where
  node := h.node.mono hsize
  fields id hid := (h.fields id hid).mono hsize
  captured handle hh := (h.captured handle hh).mono hsize

/-- What a target means is a node of the scope or the one above the element. -/
lemma Applier.node_of_target? {placed : List PlacedView} {p : PlacedView} {target : Target}
    {id : NodeId} (h : target? placed p target = some (.node id)) :
    id = p.parent ∨ ∃ q ∈ placed, q.node = id := by
  have found : ∀ {test : Element → Bool}, findPlaced? placed test = some id →
      ∃ q ∈ placed, q.node = id := fun h => by
    obtain ⟨q, hq, hid⟩ := Option.map_eq_some_iff.1 h
    exact ⟨q, List.mem_reverse.1 (List.mem_of_find?_eq_some hq), hid⟩
  cases target with
  | parent =>
    cases h
    exact .inl rfl
  | constant v => cases h
  | id name =>
    obtain ⟨x, hx, heq⟩ := Option.map_eq_some_iff.1 h
    cases heq
    exact .inr (found hx)
  | field name =>
    obtain ⟨x, hx, heq⟩ := Option.map_eq_some_iff.1 h
    cases heq
    exact .inr ((Option.or_eq_some_iff.1 hx).elim found fun hx => found hx.2)

namespace Reserve

variable {t₀ r₀ : ViewTree H} {E : Reserve t₀} {E' : Reserve r₀} {ρ : NodeId → NodeId}

/-- **A run of an application agrees with another one**: the trees agree on what may be touched, and
what the runs have noted is the same, with other identities. Nothing noted is reserved, and all of it
was given out. -/
structure TracksRun (E : Reserve t₀) (E' : Reserve r₀) (ρ : NodeId → NodeId) (s r : Run H) :
    Prop where
  tree : Tracks E E' ρ s.tree r.tree
  fields_eq : r.fields = s.fields.map ρ
  placed_eq : r.placed = s.placed.map (·.rename ρ)
  warnings_eq : r.warnings = s.warnings
  definitions_eq : r.definitions = s.definitions
  /-- The nodes of fields may be moved. -/
  isMovable : ∀ f id, s.fields.get? f = some id → E.IsMovable id ∧ E'.IsMovable (ρ id)
  /-- They were given out. -/
  issued_field : ∀ id ∈ s.fields.values, s.tree.Issued id
  /-- Placed nodes may be touched. -/
  not_isReserved : ∀ p ∈ s.placed, ¬ E.isReserved p.node
  /-- They were given out, and so were those above them. -/
  issued_placed : ∀ p ∈ s.placed, s.tree.Issued p.node ∧ s.tree.Issued p.parent

/-- **Two steps take runs that agree to runs that agree**, and end in the same way with results that are
related. This holds from a number of slots on; the relation of the results may use how many there are
in the end. -/
def Tracked (E : Reserve t₀) (E' : Reserve r₀) (ρ : NodeId → NodeId) {α : Type} (n : Nat)
    (x y : Live H α) (rel : Nat → α → α → Prop) : Prop :=
  ∀ s r, TracksRun E E' ρ s r → n ≤ s.tree.slots.size →
    Live.Together s x r y
      (fun v s' w r' => (TracksRun E E' ρ s' r' ∧ s.tree.slots.size ≤ s'.tree.slots.size) ∧
        rel s'.tree.slots.size v w)
      fun s' r' => TracksRun E E' ρ s' r' ∧ s.tree.slots.size ≤ s'.tree.slots.size

namespace Tracked

variable {α β : Type} {n : Nat} {x y : Live H α} {rel : Nat → α → α → Prop}

/-- A result without a step is tracked. -/
lemma pure {v w : α} (h : ∀ m, n ≤ m → rel m v w) :
    Tracked E E' ρ n (Pure.pure v : Live H α) (Pure.pure w) rel :=
  fun _ _ T hn => ⟨⟨T, Nat.le_refl _⟩, h _ hn⟩

/-- So is an error. -/
lemma throw (e : ApplyError) :
    Tracked E E' ρ n (MonadExcept.throw e : Live H α) (MonadExcept.throw e) rel :=
  fun _ _ T _ => ⟨rfl, T, Nat.le_refl _⟩

/-- So is one step after the other. -/
lemma bind {f g : α → Live H β} {rel' : Nat → β → β → Prop} (h : Tracked E E' ρ n x y rel)
    (hfg : ∀ m v w, n ≤ m → rel m v w → Tracked E E' ρ m (f v) (g w) rel') :
    Tracked E E' ρ n (x >>= f) (y >>= g) rel' := by
  intro s r T hn
  refine Live.Together.bind ((h s r T hn).imp ?_ fun _ _ h => h)
  rintro v s' w r' ⟨⟨T', hle⟩, hrel⟩
  exact (hfg _ v w (hn.trans hle) hrel s' r' T' (Nat.le_refl _)).imp
    (fun _ _ _ _ h => ⟨⟨h.1.1, hle.trans h.1.2⟩, h.2⟩) fun _ _ h => ⟨h.1, hle.trans h.2⟩

/-- So is a change of the state that is tracked. -/
lemma modify {f g : Run H → Run H} (h : ∀ s r, TracksRun E E' ρ s r → n ≤ s.tree.slots.size →
      TracksRun E E' ρ (f s) (g r) ∧ s.tree.slots.size ≤ (f s).tree.slots.size) :
    Tracked E E' ρ n (modify f : Live H Unit) (modify g) fun _ _ _ => True :=
  fun s r T hn => ⟨h s r T hn, trivial⟩

/-- A scope of its own begins with nothing noted, and the one around it goes on with its own. -/
lemma inNewScope (h : Tracked E E' ρ n x y rel) :
    Tracked E E' ρ n (Applier.inNewScope x) (Applier.inNewScope y) rel := by
  intro s r T hn
  have inside : TracksRun E E' ρ { s with fields := {}, placed := [] }
      { r with fields := {}, placed := [] } :=
    { tree := T.tree
      fields_eq := rfl
      placed_eq := rfl
      warnings_eq := T.warnings_eq
      definitions_eq := T.definitions_eq
      isMovable := fun _ _ h => (nomatch h)
      issued_field := fun _ h => (nomatch h)
      not_isReserved := fun _ h => (nomatch h)
      issued_placed := fun _ h => (nomatch h) }
  have leave : ∀ s' r', TracksRun E E' ρ s' r' → s.tree.slots.size ≤ s'.tree.slots.size →
      TracksRun E E' ρ { s' with fields := s.fields, placed := s.placed }
        { r' with fields := r.fields, placed := r.placed } := fun s' r' T' hle =>
    { tree := T'.tree
      fields_eq := T.fields_eq
      placed_eq := T.placed_eq
      warnings_eq := T'.warnings_eq
      definitions_eq := T'.definitions_eq
      isMovable := T.isMovable
      issued_field := fun id h => (T.issued_field id h).mono hle
      not_isReserved := T.not_isReserved
      issued_placed := fun p h => (T.issued_placed p h).imp (·.mono hle) (·.mono hle) }
  have ends := h _ _ inside hn
  unfold Live.Together at *
  unfold Applier.inNewScope
  cases hx : x { s with fields := {}, placed := [] } <;>
    cases hy : y { r with fields := {}, placed := [] } <;> rw [hx, hy] at ends
  · exact ⟨⟨leave _ _ ends.1.1 ends.1.2, ends.1.2⟩, ends.2⟩
  · exact ends.elim
  · exact ends.elim
  · exact ⟨ends.1, leave _ _ ends.2.1 ends.2.2, ends.2.2⟩

end Tracked

/-! ### The steps of an application -/

/-- A node may be touched, was given out, and has its counterpart. -/
def Open (E : Reserve t₀) (ρ : NodeId → NodeId) (m : Nat) (id id' : NodeId) : Prop :=
  id' = ρ id ∧ ¬ E.isReserved id ∧ id.index < m

/-- A node may be moved, and so may its counterpart. -/
def Loose (E : Reserve t₀) (E' : Reserve r₀) (ρ : NodeId → NodeId) (m : Nat) (id id' : NodeId) :
    Prop := id' = ρ id ∧ E.IsMovable id ∧ E'.IsMovable (ρ id) ∧ id.index < m

variable (M : Transfers E E' ρ) {a : Applier H} {n : Nat}

namespace TracksRun

variable {s r : Run H}

/-- A change of both trees. -/
lemma withTree (T : TracksRun E E' ρ s r) {t t' : ViewTree H} (h : Tracks E E' ρ t t')
    (hle : s.tree.slots.size ≤ t.slots.size) :
    TracksRun E E' ρ { s with tree := t } { r with tree := t' } where
  tree := h
  fields_eq := T.fields_eq
  placed_eq := T.placed_eq
  warnings_eq := T.warnings_eq
  definitions_eq := T.definitions_eq
  isMovable := T.isMovable
  issued_field id hid := (T.issued_field id hid).mono hle
  not_isReserved := T.not_isReserved
  issued_placed p hp := (T.issued_placed p hp).imp (·.mono hle) (·.mono hle)

/-- A scope begins with what is below its node taken apart. -/
lemma begin (T : TracksRun E E' ρ s r) (d : Definition) {t t' : ViewTree H}
    (h : Tracks E E' ρ t t') (hle : s.tree.slots.size ≤ t.slots.size) :
    TracksRun E E' ρ { s with tree := t, definitions := s.definitions ++ [d.typeName] }
      { r with tree := t', definitions := r.definitions ++ [d.typeName] } where
  tree := h
  fields_eq := T.fields_eq
  placed_eq := T.placed_eq
  warnings_eq := T.warnings_eq
  definitions_eq := congrArg (· ++ [d.typeName]) T.definitions_eq
  isMovable := T.isMovable
  issued_field id hid := (T.issued_field id hid).mono hle
  not_isReserved := T.not_isReserved
  issued_placed p hp := (T.issued_placed p hp).imp (·.mono hle) (·.mono hle)

/-- The same warnings are noted. -/
lemma warn (T : TracksRun E E' ρ s r) (ws : List ApplyWarning) :
    TracksRun E E' ρ { s with warnings := s.warnings ++ ws }
      { r with warnings := r.warnings ++ ws } where
  tree := T.tree
  fields_eq := T.fields_eq
  placed_eq := T.placed_eq
  warnings_eq := congrArg (· ++ ws) T.warnings_eq
  definitions_eq := T.definitions_eq
  isMovable := T.isMovable
  issued_field := T.issued_field
  not_isReserved := T.not_isReserved
  issued_placed := T.issued_placed

/-- A field gets a node. -/
lemma insert (T : TracksRun E E' ρ s r) (field : String) {id : NodeId} (hid : E.IsMovable id)
    (hid' : E'.IsMovable (ρ id)) (hissued : s.tree.Issued id) :
    TracksRun E E' ρ { s with fields := s.fields.insert field id }
      { r with fields := r.fields.insert field (ρ id) } where
  tree := T.tree
  fields_eq := by rw [T.fields_eq, Table.map_insert]
  placed_eq := T.placed_eq
  warnings_eq := T.warnings_eq
  definitions_eq := T.definitions_eq
  isMovable f x hx := by
    rw [Table.get?_insert] at hx
    split at hx
    · cases hx
      exact ⟨hid, hid'⟩
    · exact T.isMovable f x hx
  issued_field x hx := by
    rcases Table.mem_values_insert hx with rfl | hx
    · exact hissued
    · exact T.issued_field x hx
  not_isReserved := T.not_isReserved
  issued_placed := T.issued_placed

/-- An element is noted as placed. -/
lemma place (T : TracksRun E E' ρ s r) (e : Element) {id parent : NodeId}
    (hid : ¬ E.isReserved id) (hissued : s.tree.Issued id) (hparent : s.tree.Issued parent) :
    TracksRun E E' ρ { s with placed := s.placed ++ [⟨e, id, parent⟩] }
      { r with placed := r.placed ++ [⟨e, ρ id, ρ parent⟩] } where
  tree := T.tree
  fields_eq := T.fields_eq
  placed_eq := by
    rw [T.placed_eq, List.map_append]
    rfl
  warnings_eq := T.warnings_eq
  definitions_eq := T.definitions_eq
  isMovable := T.isMovable
  issued_field := T.issued_field
  not_isReserved := List.forall_mem_append.2 ⟨T.not_isReserved, List.forall_mem_singleton.2 hid⟩
  issued_placed := List.forall_mem_append.2
    ⟨T.issued_placed, List.forall_mem_singleton.2 ⟨hissued, hparent⟩⟩

end TracksRun

/-- A warning is tracked. -/
lemma warn_tracked (w : ApplyWarning) :
    Tracked E E' ρ n (Applier.warn w : Live H Unit) (Applier.warn w) fun _ _ _ => True :=
  .modify fun _ _ T _ => ⟨T.warn [w], Nat.le_refl _⟩

include M

/-- New nodes of both trees are counterparts. -/
lemma insertNew_tracked (e : Element) :
    Tracked E E' ρ n (a.insertNew e) (a.insertNew e) (Loose E E' ρ) := by
  intro s r T hn
  unfold Live.Together Applier.insertNew
  cases a.create e with
  | error error => exact ⟨rfl, T, Nat.le_refl _⟩
  | ok v =>
    have hle : s.tree.slots.size ≤ (s.tree.insert { element := v }).2.slots.size := by
      simp [ViewTree.insert]
    have hnew := T.tree.fst_insert M v
    have hmovable := T.tree.right.isMovable_insert { element := v }
    rw [hnew] at hmovable
    exact ⟨⟨T.withTree (T.tree.insert M v) hle, hle⟩, hnew,
      T.tree.left.isMovable_insert { element := v }, hmovable, by simp⟩

/-- The node of an element is that of its field or a new one, in both trees. -/
lemma nodeFor_tracked (root : ScopeRoot) (e : Element) :
    Tracked E E' ρ n (a.nodeFor root e) (a.nodeFor (root.rename ρ) e) (Loose E E' ρ) := by
  unfold Applier.nodeFor
  split
  · exact insertNew_tracked M e
  · rename_i field _
    intro s r T hn
    have hfield : (r.fields.get? field).filter r.tree.contains =
        ((s.fields.get? field).filter s.tree.contains).map ρ := by
      rw [T.fields_eq, Table.get?_map]
      cases hg : s.fields.get? field with
      | none => rfl
      | some id =>
        rw [Option.map_some, Option.filter_some, Option.filter_some,
          T.tree.contains_eq (T.isMovable field id hg).1.1]
        split <;> rfl
    refine Live.Together.get ?_
    rw [hfield]
    cases hid : (s.fields.get? field).filter s.tree.contains with
    | some id =>
      obtain ⟨hg, -⟩ := Option.filter_eq_some_iff.1 hid
      exact ⟨⟨T, Nat.le_refl _⟩, rfl, (T.isMovable field id hg).1, (T.isMovable field id hg).2,
        T.issued_field id (Table.mem_values_of_get? hg)⟩
    | none =>
      simp only [Option.map_none]
      by_cases hadopts : root.adopts = true
      · have hadopts' : (root.rename ρ).adopts = true := hadopts
        rw [if_pos hadopts, if_pos hadopts']
        refine ((insertNew_tracked M e).bind fun m id id' hm h => ?_) s r T hn
        obtain ⟨rfl, hid, hid', hlt⟩ := h
        exact (Tracked.modify fun s r T hm =>
          ⟨T.insert field hid hid' (hlt.trans_le hm), Nat.le_refl _⟩).bind
          fun k _ _ hk _ => .pure fun l hl => ⟨rfl, hid, hid', hlt.trans_le (hk.trans hl)⟩
      · have hadopts' : ¬ (root.rename ρ).adopts = true := hadopts
        rw [if_neg hadopts, if_neg hadopts']
        exact Tracked.throw (.unresolvedField field root.typeName) s r T hn

variable [Widget H]

/-- Counterparts get the same properties, with the same warnings. -/
lemma assign_tracked {id : NodeId} (hid : ¬ E.isReserved id) (kind : Kind)
    (typeName element : String) (r : Resolved) :
    Tracked E E' ρ n (a.assign id kind typeName element r)
      (a.assign (ρ id) kind typeName element r) fun _ _ _ => True := by
  refine Tracked.modify fun s s' T _ => ?_
  simp only [T.tree.get?_eq hid]
  cases s.tree.get? id with
  | none => exact ⟨T.warn _, Nat.le_refl _⟩
  | some n =>
    have hle := (ViewTree.size_slots_modifySlot s.tree id fun slot => { slot with
      node := { slot.node with element := (r.properties.foldl (a.setOne kind typeName element)
        (n.element, [])).1 } }).ge
    exact ⟨((T.warn _).warn _).withTree (T.tree.modify M hid (fun _ => rfl) fun _ h => h) hle, hle⟩

/-- An element goes below a node that may be touched, and its node may be touched. -/
lemma placeOne_tracked (root : ScopeRoot) (d : Definition) {parent : NodeId}
    (hparent : ¬ E.isReserved parent) (hlt : parent.index < n) (parentKind : Kind) (e : Element) :
    Tracked E E' ρ n (a.placeOne root d parent parentKind e)
      (a.placeOne (root.rename ρ) d (ρ parent) parentKind e) (Open E ρ) := by
  unfold Applier.placeOne
  refine (nodeFor_tracked M root e).bind fun m id id' hm h => ?_
  obtain ⟨rfl, hid, hid', hidlt⟩ := h
  have prepared : Tracked E E' ρ m
      (modify fun s => { s with tree := s.tree.modify id (Applier.prepare e) } : Live H Unit)
      (modify fun s => { s with tree := s.tree.modify (ρ id) (Applier.prepare e) })
      fun _ _ _ => True := by
    refine .modify fun s r T _ => ?_
    have hle := (ViewTree.size_slots_modifySlot s.tree id fun slot =>
      { slot with node := Applier.prepare e slot.node }).ge
    exact ⟨T.withTree (T.tree.modify M hid.1 (fun _ => rfl)
      fun _ _ _ hc => (List.not_mem_nil hc).elim) hle, hle⟩
  refine prepared.bind fun k _ _ hk _ => ?_
  refine (assign_tracked M hid.1 _ _ _ _).bind fun l _ _ hl _ => ?_
  have hidlt := hidlt.trans_le (hk.trans hl)
  have hlt := hlt.trans_le (hm.trans (hk.trans hl))
  refine (Tracked.modify fun s r T hs => ?_).bind fun j _ _ hj _ => .pure fun i hi =>
    ⟨rfl, hid.1, hidlt.trans_le (hj.trans hi)⟩
  have hle : s.tree.slots.size ≤
      ((s.tree.attach? id parent parentKind.arrangesChildren).getD s.tree).slots.size := by
    cases h : s.tree.attach? id parent parentKind.arrangesChildren with
    | none => exact Nat.le_refl _
    | some t' => exact (ViewTree.size_slots_attach? h).ge
  have issued : ∀ {x : NodeId}, x.index < l → ViewTree.Issued
      ((s.tree.attach? id parent parentKind.arrangesChildren).getD s.tree) x :=
    fun h => h.trans_le (hs.trans hle)
  exact ⟨(T.withTree (T.tree.attach M hid hid' hparent _) hle).place e hid.1 (issued hidlt)
    (issued hlt), hle⟩

/-- A scope begins in both trees or in none. -/
lemma beginScope_tracked {root : ScopeRoot} (hroot : ¬ E.isReserved root.node) (d : Definition) :
    Tracked E E' ρ n (a.beginScope root d) (a.beginScope (root.rename ρ) d) fun _ _ _ => True := by
  unfold Applier.beginScope
  intro s r T hn
  refine Live.Together.get ?_
  beta_reduce
  have halive : r.tree.contains (root.rename ρ).node = s.tree.contains root.node :=
    T.tree.contains_eq hroot
  rw [halive]
  by_cases h : s.tree.contains root.node = true
  · rw [if_pos h, if_pos h]
    have cleared := T.tree.clear M hroot s.fields.values
    rw [← Table.values_map, ← T.fields_eq] at cleared
    have hle := (Applier.size_slots_clear s.tree root.node s.fields.values).ge
    refine Live.Together.set ?_
    have step := assign_tracked (a := a) M hroot .container d.typeName "self"
      (a.sheets.resolveRoot d) _ _ (T.begin d cleared hle) (hn.trans hle)
    exact step.imp
      (fun _ _ _ _ h => ⟨⟨h.1.1, hle.trans h.1.2⟩, trivial⟩) fun _ _ h => ⟨h.1, hle.trans h.2⟩
  · rw [if_neg h, if_neg h]
    have failed : Tracked E E' ρ n (throw (.missingRoot root.typeName) : Live H Unit)
        (throw (.missingRoot root.typeName)) fun _ _ _ => True := .throw _
    exact failed s r T hn

omit [Widget H] in
/-- The constraints of all nodes of a scope are changed in both trees. -/
lemma Tracks.foldl_modify {t r : ViewTree H} (T : Tracks E E' ρ t r)
    {changes : List (NodeId × List LiveConstraint)}
    (h : ∀ change ∈ changes, ¬ E.isReserved change.1 ∧ t.Aims change.2) :
    Tracks E E' ρ
      (changes.foldl (fun t (id, cs) => t.modify id fun n => { n with constraints := cs }) t)
      ((changes.map fun change => (ρ change.1, change.2.map (·.rename ρ))).foldl
        (fun t (id, cs) => t.modify id fun n => { n with constraints := cs }) r) := by
  induction changes generalizing t r with
  | nil => exact T
  | cons change changes ih =>
    obtain ⟨⟨hid, haims⟩, hothers⟩ := List.forall_mem_cons.1 h
    have hle := (ViewTree.size_slots_modifySlot t change.1 fun slot =>
      { slot with node := { slot.node with constraints := change.2 } }).ge
    exact ih (T.modify M hid (fun _ => rfl) fun _ _ => haims) fun c hc =>
      (hothers c hc).imp id (·.mono hle)

omit [Widget H] in
/-- The constraints of a scope and those that are captured are counterparts. -/
lemma constrain_tracked (typeName : String) :
    Tracked E E' ρ n (Applier.constrain typeName : Live H _) (Applier.constrain typeName)
      fun m c c' => c' = c.map (·.rename ρ) ∧ ∀ h ∈ c.values, h.node.index < m := by
  intro s r T hn
  unfold Live.Together Applier.constrain
  have hall := Applier.allConstraints_rename ρ typeName s.placed
  rw [← T.placed_eq] at hall
  rw [hall]
  cases hr : Applier.allConstraints typeName s.placed with
  | error e => exact ⟨rfl, T, Nat.le_refl _⟩
  | ok rebuilt =>
    have known : ∀ change ∈ rebuilt, ∃ p ∈ s.placed, change.1 = p.node ∧
        Applier.liveConstraints typeName s.placed p = .ok change.2 := fun change hm => by
      obtain ⟨p, hp, h⟩ := Except.exists_of_forall₂ (Except.mapM_eq_ok.1 hr).flip hm
      obtain ⟨cs, hcs, rfl⟩ := Except.map_eq_ok.1 h
      exact ⟨p, hp, rfl, hcs⟩
    have tied : ∀ change ∈ rebuilt, ¬ E.isReserved change.1 ∧ s.tree.Aims change.2 :=
      fun change hm => by
        obtain ⟨p, hp, hnode, hcs⟩ := known change hm
        refine ⟨hnode ▸ T.not_isReserved p hp, fun c hc id hid => ?_⟩
        obtain ⟨c', -, h⟩ := Except.exists_of_forall₂ (Except.mapM_eq_ok.1 hcs).flip hc
        cases ht : Applier.target? s.placed p c'.target with
        | none =>
          rw [ht] at h
          cases h
        | some target =>
          rw [ht] at h
          cases h
          cases hid
          obtain rfl | ⟨q, hq, rfl⟩ := Applier.node_of_target? ht
          · exact (T.issued_placed p hp).2
          · exact (T.issued_placed q hq).1
    have hle := (ViewTree.size_slots_foldl_modify s.tree rebuilt).ge
    refine ⟨⟨T.withTree (T.tree.foldl_modify M tied) hle, hle⟩,
      Applier.capturedOf_rename ρ rebuilt, fun h hh => ?_⟩
    rcases Table.mem_values_foldl_insert hh with ⟨entry, he, rfl⟩ | hh
    · obtain ⟨⟨id, cs⟩, hm, he⟩ := List.mem_flatMap.1 he
      obtain ⟨c, -, he⟩ := List.mem_filterMap.1 he
      obtain ⟨name, -, rfl⟩ := Option.map_eq_some_iff.1 he
      obtain ⟨p, hp, rfl, -⟩ := known _ hm
      exact (T.issued_placed p hp).1.trans_le hle
    · cases hh

/-! ### The induction over the application -/

section Induction

variable (E E' ρ a)

/-- What is to be shown of applying a definition: below a node that may be touched it goes as below
its counterpart. -/
def ScopeTracked (active : List String) (root : ScopeRoot) (d : Definition) : Prop :=
  ∀ n, ¬ E.isReserved root.node → root.node.index < n →
    Tracked E E' ρ n (a.applyScope active root d) (a.applyScope active (root.rename ρ) d)
      fun m c c' => c' = c.map (·.rename ρ) ∧ ∀ h ∈ c.values, h.node.index < m

/-- What is to be shown of placing elements. -/
def AllTracked (active : List String) (root : ScopeRoot) (d : Definition) (parent : NodeId)
    (parentKind : Kind) (es : List Element) : Prop :=
  ∀ n, ¬ E.isReserved parent → parent.index < n →
    Tracked E E' ρ n (a.placeAll active root d parent parentKind es)
      (a.placeAll active (root.rename ρ) d (ρ parent) parentKind es) fun _ _ _ => True

/-- What is to be shown of placing an element. -/
def OneTracked (active : List String) (root : ScopeRoot) (d : Definition) (parent : NodeId)
    (parentKind : Kind) (e : Element) : Prop :=
  ∀ n, ¬ E.isReserved parent → parent.index < n →
    Tracked E E' ρ n (a.place active root d parent parentKind e)
      (a.place active (root.rename ρ) d (ρ parent) parentKind e) fun _ _ _ => True

/-- What is to be shown of applying the definition of a component. -/
def ReferenceTracked (active : List String) (typeName element : String) (id : NodeId)
    (r : Option TypeReference) : Prop :=
  ∀ n, ¬ E.isReserved id → id.index < n →
    Tracked E E' ρ n (a.applyReference active typeName element id r)
      (a.applyReference active typeName element (ρ id) r) fun _ _ _ => True

variable {E E' ρ a}

/-- The step of the induction: an element is tracked if its reference is, and the elements inside it. -/
lemma oneTracked {active : List String} {root : ScopeRoot} {d : Definition} {parent : NodeId}
    {parentKind : Kind} {e : Element}
    (hr : ∀ id, ReferenceTracked E E' ρ a active d.typeName e.name id e.reference)
    (hc : ∀ id, AllTracked E E' ρ a active root d id e.kind e.children) :
    OneTracked E E' ρ a active root d parent parentKind e := by
  intro n hparent hlt
  rw [Applier.place, Applier.place]
  refine (placeOne_tracked M root d hparent hlt parentKind e).bind fun m id id' _ h => ?_
  obtain ⟨rfl, hid, hidlt⟩ := h
  have reference : ∀ k, m ≤ k → Tracked E E' ρ k
      (if e.kind = .component then a.applyReference active d.typeName e.name id e.reference
        else Pure.pure ())
      (if e.kind = .component then a.applyReference active d.typeName e.name (ρ id) e.reference
        else Pure.pure ()) fun _ _ _ => True := fun k hk => by
    split
    · exact hr id k hid (hidlt.trans_le hk)
    · exact .pure fun _ _ => trivial
  simp only
  split
  · exact (hc id m hid hidlt).bind fun k _ _ hk _ => reference k hk
  · exact reference m (Nat.le_refl m)

omit M in
/-- A scope that is entered is tracked if the scope is. -/
lemma entered_tracked {active : List String} {id : NodeId} {nested : Definition}
    (hid : ¬ E.isReserved id) (hlt : id.index < n)
    (h : ScopeTracked E E' ρ a (nested.typeName :: active) ⟨id, nested.typeName, true⟩ nested) :
    Tracked E E' ρ n
      (Applier.inNewScope do
        let _ ← a.applyScope (nested.typeName :: active) ⟨id, nested.typeName, true⟩ nested)
      (Applier.inNewScope do
        let _ ← a.applyScope (nested.typeName :: active) ⟨ρ id, nested.typeName, true⟩ nested)
      fun _ _ _ => True :=
  ((h n hid hlt).bind fun _ _ _ _ _ => .pure fun _ _ => trivial).inNewScope

variable (a)

/-- **An application goes the same way as its counterpart**, however far it comes.

**Proof sketch.** Induction over the application, with one case for each of its functions. What a step
looks at is what it was handed on, and the places of such nodes among those that may be touched. -/
theorem applyScope_tracked (active : List String) (root : ScopeRoot) (d : Definition) :
    ScopeTracked E E' ρ a active root d := by
  refine (Applier.applyScope.mutual_induct a (ScopeTracked E E' ρ a) (AllTracked E E' ρ a)
    (OneTracked E E' ρ a) (ReferenceTracked E E' ρ a)
    ?scope ?nil ?cons ?one ?none ?inlineActive ?inline ?unknown ?namedActive ?named).1
    active root d
  case scope =>
    intro active root d h n hroot hlt
    rw [Applier.applyScope, Applier.applyScope]
    exact (beginScope_tracked M hroot d).bind fun m _ _ hm _ =>
      (h m hroot (hlt.trans_le hm)).bind fun _ _ _ _ _ => constrain_tracked M d.typeName
  case nil =>
    intro active root d parent parentKind n _ _
    rw [Applier.placeAll, Applier.placeAll]
    exact .pure fun _ _ => trivial
  case cons =>
    intro active root d parent parentKind e es h h' n hparent hlt
    rw [Applier.placeAll, Applier.placeAll]
    exact (h n hparent hlt).bind fun m _ _ hm _ => h' m hparent (hlt.trans_le hm)
  case one => exact fun _ _ _ _ _ _ hr hc => oneTracked M hr hc
  case none =>
    intro active typeName element id n _ _
    rw [Applier.applyReference, Applier.applyReference]
    exact .pure fun _ _ => trivial
  case inlineActive =>
    intro active typeName element id nested hn n _ _
    rw [Applier.applyReference, Applier.applyReference, if_pos hn, if_pos hn]
    exact warn_tracked _
  case inline =>
    intro active typeName element id nested hn h n hid hlt
    rw [Applier.applyReference, Applier.applyReference, if_neg hn, if_neg hn]
    exact entered_tracked hid hlt h
  case unknown =>
    intro active typeName element id name hname n _ _
    rw [Applier.applyReference_named, Applier.applyReference_named, hname]
    exact .pure fun _ _ => trivial
  case namedActive =>
    intro active typeName element id name nested hname hn n _ _
    rw [Applier.applyReference_named, Applier.applyReference_named, hname]
    simp only [if_pos hn]
    exact warn_tracked _
  case named =>
    intro active typeName element id name nested hname hn h n hid hlt
    rw [Applier.applyReference_named, Applier.applyReference_named, hname]
    simp only [if_neg hn]
    exact entered_tracked hid hlt h

end Induction

/-! ### Components -/

/-- **A component and its counterpart.** The component's node may be touched, and those of its fields
may be moved. An application to the component and one to its counterpart give the same result, with
other identities. All that the first one leaves behind was given out. -/
theorem apply_tracked {t r t' : ViewTree H} (T : Tracks E E' ρ t r) {b b' : Binding}
    (hb : b.IsIssued t) (hnode : ¬ E.isReserved b.node)
    (hfields : ∀ f id, b.fields.get? f = some id → E.IsMovable id ∧ E'.IsMovable (ρ id))
    {d : Definition} {result : Except ApplyError ApplyReport}
    (h : a.apply t b d = (result, t', b')) :
    ∃ r', a.apply r (b.rename ρ) d = (result.map (·.rename ρ), r', b'.rename ρ) ∧
      Tracks E E' ρ t' r' ∧ b'.IsIssued t' ∧
      ∀ report, result = .ok report → ∀ id ∈ report.named.values, t'.Issued id := by
  have start : TracksRun E E' ρ { tree := t, fields := b.fields }
      { tree := r, fields := (b.rename ρ).fields } :=
    { tree := T
      fields_eq := rfl
      placed_eq := rfl
      warnings_eq := rfl
      definitions_eq := rfl
      isMovable := hfields
      issued_field := hb.fields
      not_isReserved := fun _ h => (nomatch h)
      issued_placed := fun _ h => (nomatch h) }
  have ends := applyScope_tracked M a [d.typeName] ⟨b.node, b.typeName, b.adopts⟩ d _ hnode
    hb.node _ _ start (Nat.le_refl _)
  have hroot : (⟨(b.rename ρ).node, (b.rename ρ).typeName, (b.rename ρ).adopts⟩ : ScopeRoot) =
      ScopeRoot.rename ρ ⟨b.node, b.typeName, b.adopts⟩ := rfl
  unfold Live.Together at ends
  unfold Applier.apply at h ⊢
  rw [hroot]
  cases hx : a.applyScope [d.typeName] ⟨b.node, b.typeName, b.adopts⟩ d
      { tree := t, fields := b.fields } with
  | ok captured s =>
    rw [hx] at ends h
    cases h
    cases hy : a.applyScope [d.typeName] (ScopeRoot.rename ρ ⟨b.node, b.typeName, b.adopts⟩) d
        { tree := r, fields := (b.rename ρ).fields } with
    | error e' s' =>
      rw [hy] at ends
      exact ends.elim
    | ok captured' s' =>
      rw [hy] at ends
      obtain ⟨⟨T', hle⟩, rfl, hcaptured⟩ := ends
      have hnamed : s'.placed.foldl (fun t p => t.insert p.element.name p.node)
            ({} : Table String NodeId) =
          (s.placed.foldl (fun t p => t.insert p.element.name p.node)
            ({} : Table String NodeId)).map ρ := by
        rw [T'.placed_eq, List.foldl_map, Table.map_foldl_insert]
        rfl
      refine ⟨s'.tree, ?_, T'.tree, ⟨hb.node.mono hle, T'.issued_field, hcaptured⟩, ?_⟩
      · simp only [hnamed, T'.warnings_eq, T'.definitions_eq, T'.fields_eq]
        rfl
      · rintro _ ⟨⟩ id hid
        rcases Table.mem_values_foldl_insert hid with ⟨p, hp, rfl⟩ | hid
        · exact (T'.issued_placed p hp).1
        · cases hid
  | error e s =>
    rw [hx] at ends h
    cases h
    cases hy : a.applyScope [d.typeName] (ScopeRoot.rename ρ ⟨b.node, b.typeName, b.adopts⟩) d
        { tree := r, fields := (b.rename ρ).fields } with
    | ok captured' s' =>
      rw [hy] at ends
      exact ends.elim
    | error e' s' =>
      rw [hy] at ends
      obtain ⟨rfl, T', hle⟩ := ends
      refine ⟨s'.tree, ?_, T'.tree, ⟨hb.node.mono hle, T'.issued_field,
        fun handle hh => (hb.captured handle hh).mono hle⟩, fun _ h => (nomatch h)⟩
      simp only [T'.fields_eq]
      rfl

end Reserve

end ViewMarkup
