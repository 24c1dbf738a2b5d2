import ViewMarkup.Proofs.Source.Tying
import ViewMarkup.Proofs.View.History

/-!
# A routine builds what an application shows

If every view that a routine builds has a node of its own, it agrees with the node when both have
the same properties and the same things below them, and the same constraints with the same targets.

## Main definitions

* `Construction.Makes`, `ActiveConstraint.Agrees`, `BuiltView.Agrees` — a view is like a node.
* `Assembly.Agrees` — the views are like the nodes below a component's node.

## Main statements

* `Twins.exists_agrees` — what the statements of elements build, and the nodes of the elements.
-/

namespace ViewMarkup

open Element

variable {H : Type}

/-! ### Views that are like nodes -/

/-- A construction makes an element like the given one. A field may hold any. -/
def Construction.Makes : Construction → GenericElement → Prop
  | .field _, _ => True
  | .anonymous typeName, g => g.typeName = typeName ∧ g.kind = none
  | .component type, g => Identifier.ofText g.typeName = .ok type ∧ g.kind = none
  | .primitive kind, g => g.typeName = kind.tag ∧ g.kind = some kind

/-- Two numbers are the same, or compare equal. -/
def SameNumber (x y : Float) : Prop := x = y ∨ (x == y) = true

/-- The targets of constraints agree, if the views have the given nodes. -/
def ActiveTarget.Agrees (nodes : List NodeId) (lc : LiveConstraint) : ActiveTarget → Prop
  | .constant v => lc.target = .constant v
  | .anchor i a => ∃ id, lc.target = .node id ∧ nodes[i]? = some id ∧
      a = lc.declared.targetAnchor.getD lc.declared.anchor

/-- **Constraints agree**, if the views have the given nodes. -/
structure ActiveConstraint.Agrees (nodes : List NodeId) (c : ActiveConstraint)
    (lc : LiveConstraint) : Prop where
  /-- The same anchor is constrained. -/
  anchor_eq : c.anchor = lc.declared.anchor
  /-- The sides compare in the same way. -/
  relation_eq : c.relation = lc.declared.relation
  /-- The other side is the same. -/
  target : c.target.Agrees nodes lc
  /-- The factor is the same. -/
  multiplier : SameNumber lc.declared.multiplier c.multiplier
  /-- The offset is the same. -/
  constant : SameNumber lc.declared.constant c.constant
  /-- The weight is the same. -/
  priority_eq : c.priority = lc.declared.priority

/-- **A view agrees with its node**, if the views have the given nodes. -/
structure BuiltView.Agrees (t : ViewTree H) (nodes : List NodeId) (v : BuiltView) (id : NodeId)
    (slot : Slot H) (g : GenericElement) : Prop where
  /-- The node is in the tree. -/
  slot?_eq : t.slot? id = some slot
  /-- Its visual element records its properties. -/
  element_eq : slot.node.element = .generic g
  /-- It is of the kind that is constructed. -/
  makes : ∀ c, v.construction = some c → c.Makes g
  /-- The properties are the same. -/
  properties_eq : v.properties = g.properties
  /-- The same views are below, and the same of them are lined up. -/
  children : List.Forall₂ (fun child x => nodes[child.1]? = some x ∧ ∃ below, t.slot? x = some below ∧
    below.attachment = some ⟨id, child.2⟩) v.children slot.children
  /-- The constraints are the same. -/
  constraints : List.Forall₂ (ActiveConstraint.Agrees nodes) v.constraints slot.node.constraints

/-- **The views agree with the nodes** below a component's node: each view has a node of its own, and
there are no other nodes. -/
structure Assembly.Agrees (t : ViewTree H) (root : NodeId) (m : Assembly) (nodes : List NodeId) :
    Prop where
  /-- The component itself is the first view. -/
  head?_eq : nodes.head? = some root
  /-- Every view has a node. -/
  length_eq : nodes.length = m.views.length
  /-- The nodes are different. -/
  nodup : nodes.Nodup
  /-- They are all that is below the component's node. -/
  mem_tail_iff : ∀ x, x ∈ nodes.tail ↔ t.IsBelow x root
  /-- Each view agrees with its node. -/
  agrees : ∀ (i : Nat) v id, m.views[i]? = some v → nodes[i]? = some id →
    ∃ slot g, BuiltView.Agrees t nodes v id slot g

/-- A routine constructs an element like the one that an application makes. -/
lemma Drafted.IsOf.makes {at_ : Place} {e : Element} {w : Drafted} (hw : w.IsOf at_ e)
    (properties : List Property) :
    w.construction.Makes { Applier.generic e with properties } := by
  have h := hw.construction_eq
  unfold Draft.construction at h
  split at h
  · obtain ⟨i, -, hi⟩ := Except.map_eq_ok.1 h
    rw [← hi]
    trivial
  · next r hk hr _ =>
    have hg : Applier.generic e = .wrapper r.typeName := by rw [Applier.generic, hk, hr]
    rw [hg]
    split at h
    · rw [← Except.ok.inj h]
      exact ⟨rfl, rfl⟩
    · obtain ⟨i, hi, hc⟩ := Except.map_eq_ok.1 h
      rw [← hc]
      exact ⟨hi, rfl⟩
  · next hno =>
    have hg : Applier.generic e = .ofKind e.kind := by
      unfold Applier.generic
      split
      · next r hk hr => exact (hno r hk hr).elim
      · rfl
    rw [hg, ← Except.ok.inj h]
    exact ⟨rfl, rfl⟩

/-! ### Constraints -/

namespace BuiltConstraint

variable (b : BuiltConstraint) (start : ActiveConstraint)

/-- Modifiers change neither the anchors of a constraint nor how its sides compare. -/
lemma foldl_on_eq :
    (b.modifiers.foldl BuiltModifier.on start).anchor = start.anchor ∧
      (b.modifiers.foldl BuiltModifier.on start).relation = start.relation ∧
      (b.modifiers.foldl BuiltModifier.on start).target = start.target := by
  induction b.modifiers generalizing start with
  | nil => exact ⟨rfl, rfl, rfl⟩
  | cons m ms ih =>
    rw [List.foldl_cons]
    cases m <;> exact ih _

/-- Only a factor that is written changes the multiplier. -/
lemma multiplier_foldl_on :
    (b.modifiers.foldl BuiltModifier.on start).multiplier =
      (b.writtenFactor.foldl BuiltModifier.on start).multiplier := by
  rw [modifiers, List.foldl_append, List.foldl_append, writtenOffset, writtenPriority]
  split <;> split <;> rfl

/-- Only an offset that is written changes the constant. -/
lemma constant_foldl_on :
    (b.modifiers.foldl BuiltModifier.on start).constant =
      (b.writtenOffset.foldl BuiltModifier.on start).constant := by
  rw [modifiers, List.foldl_append, List.foldl_append, writtenFactor, writtenOffset,
    writtenPriority]
  split <;> split <;> split <;> rfl

/-- Only a priority that is written changes the priority. -/
lemma priority_foldl_on :
    (b.modifiers.foldl BuiltModifier.on start).priority =
      (b.writtenPriority.foldl BuiltModifier.on start).priority := by
  rw [modifiers, List.foldl_append, List.foldl_append, writtenFactor, writtenOffset,
    writtenPriority]
  split <;> split <;> split <;> rfl

/-- A factor that is not written is one. -/
lemma sameNumber_multiplier (h : start.multiplier = 1.0) :
    SameNumber b.multiplier (b.modifiers.foldl BuiltModifier.on start).multiplier := by
  rw [multiplier_foldl_on, writtenFactor]
  split
  · exact .inl rfl
  · next hone => exact .inr (by simpa [bne, h] using hone)

/-- An offset that is not written is zero. -/
lemma sameNumber_constant (h : start.constant = 0.0) :
    SameNumber b.constant (b.modifiers.foldl BuiltModifier.on start).constant := by
  rw [constant_foldl_on, writtenOffset]
  split
  · exact .inl rfl
  · next hzero => exact .inr (by simpa [bne, h] using hzero)

/-- A priority that is not written is the highest. -/
lemma priority_eq_of_modifiers (h : start.priority = .required) :
    (b.modifiers.foldl BuiltModifier.on start).priority = b.priority := by
  rw [priority_foldl_on, writtenPriority]
  split
  · next hrequired => exact h.trans hrequired.symm
  · rfl

end BuiltConstraint

/-- A list that is changed place by place keeps its length. -/
lemma length_eq_of_getElem? {α : Type} {f : ℕ → α → α} {xs ys : List α}
    (h : ∀ i, ys[i]? = xs[i]?.map (f i)) : ys.length = xs.length := by
  rw [List.ext_getElem? fun i => (h i).trans List.getElem?_mapIdx.symm, List.length_mapIdx]

/-- What is found of each of a list, and what each of that is like, are found together. -/
lemma exists_forall₂ {α β γ : Type} {R : α → β → Prop} {P : α → γ → Prop} {Q : γ → β → Prop}
    {xs : List α} {ys : List β} (h : List.Forall₂ R xs ys)
    (hstep : ∀ y ∈ ys, ∀ x, R x y → ∃ z, P x z ∧ Q z y) :
    ∃ zs, List.Forall₂ P xs zs ∧ List.Forall₂ Q zs ys := by
  induction h with
  | nil => exact ⟨[], .nil, .nil⟩
  | cons hxy _ ih =>
    rw [List.forall_mem_cons] at hstep
    obtain ⟨z, hz, hz'⟩ := hstep.1 _ hxy
    obtain ⟨zs, hzs, hzs'⟩ := ih hstep.2
    exact ⟨z :: zs, .cons hz hzs, .cons hz' hzs'⟩

/-- A name means the view of the given node. -/
def Assembly.Means (m : Assembly) (nodes : List NodeId) (holder : Holder) (id : NodeId) : Prop :=
  ∃ i, m.find? holder = some i ∧ nodes[i]? = some id

section Constraints

variable {m : Assembly} {nodes : List NodeId} {D : Draft} {typeName typeName' : String}
  {ts : List Twin} {w : Twin}

/-- A constraint that is written becomes the one that is tied. -/
lemma Twin.exists_active (hD : D.placed = ts.map (·.placed))
    (helements : ∀ w ∈ ts, m.Means nodes (.element w.placed.name) w.node)
    (hparent : m.Means nodes w.placed.parent w.above) {b : BuiltConstraint} {c : Constraint}
    {lc : LiveConstraint} (hb : b.IsOf D typeName w.placed c) (hc : lc.declared = c)
    (hlive : Applier.target? ((Twin.inScope w.placed.scope ts).map view) w.view c.target =
      some lc.target) :
    ∃ active, m.active? b = some active ∧ active.Agrees nodes lc := by
  obtain ⟨capture, target, htarget, rfl⟩ := hb
  obtain ⟨active, hactive, hagrees⟩ :
      ∃ active, m.target? target = some active ∧ active.Agrees nodes lc := by
    rcases Draft.builtTarget_spec htarget with ⟨v, hv, rfl⟩ | ⟨holder, hholder, rfl⟩
    · rw [hv] at hlive
      exact ⟨.constant v, rfl, (Option.some.inj hlive).symm⟩
    · obtain ⟨id, hid, hmeans⟩ := Twin.holder_of_target? hD hholder hlive
      obtain ⟨i, hi, hnode⟩ : m.Means nodes holder id := by
        rcases hmeans with ⟨rfl, rfl⟩ | ⟨w', hw', rfl, rfl⟩
        · exact hparent
        · exact helements w' hw'
      refine ⟨.anchor i (c.targetAnchor.getD c.anchor), ?_, id, hid, hnode, by rw [hc]⟩
      rw [Assembly.target?, hi, Option.map_some]
  subst hc
  let b : BuiltConstraint := ⟨capture, w.placed.name, lc.declared.anchor, lc.declared.relation,
    target, lc.declared.multiplier, lc.declared.constant, lc.declared.priority⟩
  refine ⟨_, by rw [Assembly.active?, hactive, Option.map_some], ?_⟩
  obtain ⟨hanchor, hrelation, htarget'⟩ := b.foldl_on_eq
    ⟨b.anchor, b.relation, active, 1.0, 0.0, .required⟩
  exact
    { anchor_eq := hanchor
      relation_eq := hrelation
      target := htarget' ▸ hagrees
      multiplier := b.sameNumber_multiplier _ rfl
      constant := b.sameNumber_constant _ rfl
      priority_eq := b.priority_eq_of_modifiers _ rfl }

/-- The constraints that are written for an element become those that are tied. -/
lemma Twin.exists_actives (hD : D.placed = ts.map (·.placed))
    (helements : ∀ w ∈ ts, m.Means nodes (.element w.placed.name) w.node)
    (hparent : m.Means nodes w.placed.parent w.above) {bs : List BuiltConstraint}
    {lcs : List LiveConstraint}
    (hbs : List.Forall₂ (BuiltConstraint.IsOf D typeName w.placed) bs
      w.placed.element.layout.constraints)
    (hlive : Applier.liveConstraints typeName' ((Twin.inScope w.placed.scope ts).map view) w.view =
      .ok lcs) :
    ∃ actives, List.Forall₂ (fun b active => m.active? b = some active) bs actives ∧
      List.Forall₂ (ActiveConstraint.Agrees nodes) actives lcs := by
  have hlcs := Applier.liveConstraints_spec hlive
  change List.Forall₂ _ w.placed.element.layout.constraints lcs at hlcs
  generalize w.placed.element.layout.constraints = cs at hbs hlcs
  clear hlive
  induction hbs generalizing lcs with
  | nil =>
    cases hlcs
    exact ⟨[], .nil, .nil⟩
  | cons hb _ ih =>
    obtain ⟨lc, lcs, ⟨hc, hlive⟩, hrest, rfl⟩ := List.forall₂_cons_left_iff.1 hlcs
    obtain ⟨active, hactive, hagrees⟩ := exists_active hD helements hparent hb hc hlive
    obtain ⟨actives, hactives, hagree⟩ := ih hrest
    exact ⟨active :: actives, .cons hactive hactives, .cons hagrees hagree⟩

end Constraints

/-! ### What is below -/

section Below

variable {sheets : StyleSheets} {t : ViewTree H} {ties : PlacedView → List LiveConstraint → Prop}
  {at_ : Place} {root id : NodeId} {ids nodes : List NodeId} {views : List PlacedView}
  {ts : List Twin}

/-- An element is attached to another just when its node is below that of the other. -/
lemma Twins.parent_eq_iff (T : Twins sheets t ties at_ root ids views ts)
    (hat : at_.parent = .component) (hn : (root :: ts.map (·.node)).Nodup)
    (hnames : (ts.map (·.name)).Nodup) {w : Twin} (hw : w ∈ ts) :
    (w.placed.parent = .component ↔ w.above = root) ∧
      ∀ w' ∈ ts, (w.placed.parent = .element w'.placed.name ↔ w.above = w'.node) := by
  obtain ⟨hroot, hnodes⟩ := List.nodup_cons.1 hn
  have ne_root : ∀ w' ∈ ts, w'.node ≠ root := fun w' hw' h =>
    hroot (h ▸ List.mem_map_of_mem hw')
  obtain ⟨before, after, hts⟩ := List.append_of_mem hw
  rcases T.attached before w after hts with ⟨hp, ha⟩ | ⟨w'', hw'', hp, ha⟩
  · rw [hp, hat, ha]
    refine ⟨iff_of_true rfl rfl, fun w' hw' => iff_of_false nofun fun h => ?_⟩
    exact ne_root w' hw' h.symm
  · have hmem : w'' ∈ ts := hts ▸ List.mem_append_left _ hw''
    rw [hp, ha]
    refine ⟨iff_of_false nofun (ne_root w'' hmem), fun w' hw' => ⟨fun h => ?_, fun h => ?_⟩⟩
    · have hname := congrArg Identifier.name (Holder.element.inj h)
      rw [List.inj_on_of_nodup_map hnames hmem hw' hname]
    · rw [List.inj_on_of_nodup_map hnodes hmem hw' h]

/-- The elements attached to something have the nodes below its node. -/
lemma Twin.forall₂_attached {holder : Holder} {k : Nat}
    (hnodes : ∀ j w, ts[j]? = some w → nodes[k + j]? = some w.node)
    (hparent : ∀ w ∈ ts, w.placed.parent = holder ↔ w.above = id)
    (hslot : ∀ w ∈ ts, ∃ below, t.slot? w.node = some below ∧
      below.attachment = some ⟨w.above, w.arranged⟩) :
    List.Forall₂ (fun child x => nodes[child.1]? = some x ∧ ∃ below, t.slot? x = some below ∧
        below.attachment = some ⟨id, child.2⟩)
      (((ts.map (·.toDrafted)).zipIdx k).filterMap fun (w, i) =>
        if w.placed.parent = holder then some (i, w.arranged) else none)
      ((below id ts).map (·.node)) := by
  induction ts generalizing k with
  | nil => exact .nil
  | cons w ts ih =>
    rw [List.forall_mem_cons] at hparent hslot
    have rest := ih (k := k + 1) (fun j w hj => by
      rw [Nat.add_assoc, Nat.add_comm 1]
      exact hnodes (j + 1) w hj) hparent.2 hslot.2
    rw [List.map_cons, List.zipIdx_cons, List.filterMap_cons, below]
    by_cases ha : w.above = id
    · obtain ⟨slot, hs, hattached⟩ := hslot.1
      rw [List.filter_cons_of_pos (by simpa using ha), List.map_cons]
      simp only [hparent.1.2 ha, ↓reduceIte]
      refine .cons ⟨hnodes 0 w rfl, slot, hs, ?_⟩ rest
      rw [hattached, ha]
    · have hp : ¬ w.placed.parent = holder := fun h => ha (hparent.1.1 h)
      rw [List.filter_cons_of_neg (by simpa using ha)]
      simp only [hp, ↓reduceIte]
      exact rest

end Below

/-! ### Elements with their nodes -/

namespace Twins

open Twin

variable {sheets : StyleSheets} {t : ViewTree H} {typeName typeName' : String} {at_ : Place}
  {root : NodeId} {ids : List NodeId} {views : List PlacedView} {ts : List Twin} {D : Draft}
  {ps : List Property} {m : Assembly}

/-- The constraints of every node are those of its element, tied within its scope. -/
lemma exists_liveConstraints
    (T : Twins sheets t (Applier.Tied typeName views) at_ root ids views ts) {w : Twin}
    (hw : w ∈ ts) : ∃ cs typeName', w.Shown sheets t cs ∧
      Applier.liveConstraints typeName' ((inScope w.placed.scope ts).map view) w.view = .ok cs := by
  obtain ⟨cs, hshown, hown, hnested⟩ := T.shown w hw
  by_cases hs : w.placed.scope = at_.scope
  · refine ⟨cs, typeName, hshown, ?_⟩
    rw [hs, T.views_eq]
    exact hown hs
  · obtain ⟨typeName', hcs⟩ := hnested hs
    exact ⟨cs, typeName', hshown, hcs⟩

/-- The names of elements mean the views that have their nodes. -/
lemma means (hm : m.Built sheets ps (ts.map (·.toDrafted))) {w : Twin} (hw : w ∈ ts) :
    m.Means (root :: ts.map (·.node)) (.element w.placed.name) w.node := by
  obtain ⟨j, hj⟩ := List.mem_iff_getElem?.1 hw
  refine ⟨j + 1, hm.find?_eq j w.toDrafted (by rw [List.getElem?_map, hj, Option.map_some]), ?_⟩
  rw [List.getElem?_cons_succ, List.getElem?_map, hj, Option.map_some]

/-- What an element is attached to means the view that has the node above its own. -/
lemma means_parent {ties : PlacedView → List LiveConstraint → Prop}
    (T : Twins sheets t ties at_ root ids views ts) (hat : at_.parent = .component)
    (hm : m.Built sheets ps (ts.map (·.toDrafted))) {w : Twin} (hw : w ∈ ts) :
    m.Means (root :: ts.map (·.node)) w.placed.parent w.above := by
  obtain ⟨before, after, hts⟩ := List.append_of_mem hw
  rcases T.attached before w after hts with ⟨hp, ha⟩ | ⟨w', hw', hp, ha⟩
  · rw [hp, hat, ha]
    exact ⟨0, rfl, rfl⟩
  · rw [hp, ha]
    exact means hm (hts ▸ List.mem_append_left _ hw')

/-- The constraints that are written for the elements become those of their nodes. -/
lemma exists_actives (T : Twins sheets t (Applier.Tied typeName views) at_ root ids views ts)
    (hat : at_.parent = .component) (hm : m.Built sheets ps (ts.map (·.toDrafted)))
    (hD : D.placed = ts.map (·.placed)) {css : List (List BuiltConstraint)}
    (hcss : List.Forall₂ (fun cs p =>
      List.Forall₂ (BuiltConstraint.IsOf D typeName' p) cs p.element.layout.constraints)
      css D.placed) :
    ∃ actives, List.Forall₂ (List.Forall₂ fun b active => m.active? b = some active) css actives ∧
      List.Forall₂ (fun active w => ∃ cs, w.Shown sheets t cs ∧
        List.Forall₂ (ActiveConstraint.Agrees (root :: ts.map (·.node))) active cs) actives ts := by
  rw [hD, List.forall₂_map_right_iff] at hcss
  refine exists_forall₂ hcss fun w hw bs hbs => ?_
  obtain ⟨cs, typeName', hshown, hcs⟩ := T.exists_liveConstraints hw
  obtain ⟨actives, hactives, hagree⟩ := Twin.exists_actives hD (fun w hw => means hm hw)
    (T.means_parent hat hm hw) hbs hcs
  exact ⟨actives, hactives, cs, hshown, hagree⟩

/-- Elements are attached to the component or to elements before them. -/
lemma areRooted {ties : PlacedView → List LiveConstraint → Prop}
    (T : Twins sheets t ties at_ root ids views ts) (hat : at_.parent = .component) :
    Drafted.AreRooted (ts.map (·.toDrafted)) := by
  intro before x after hts
  obtain ⟨before, rest, rfl, rfl, hrest⟩ := List.map_eq_append_iff.1 hts
  obtain ⟨w, after, rfl, rfl, rfl⟩ := List.map_eq_cons_iff.1 hrest
  rcases T.attached before w after rfl with ⟨hp, -⟩ | ⟨w', hw', hp, -⟩
  · exact .inl (hp.trans hat)
  · exact .inr ⟨w'.toDrafted, List.mem_map_of_mem hw', hp⟩

/-- The views that are below another have the nodes below its node. -/
lemma agree_children {ties : PlacedView → List LiveConstraint → Prop} {holder : Holder}
    {id : NodeId} (T : Twins sheets t ties at_ root ids views ts)
    (hparent : ∀ w ∈ ts, w.placed.parent = holder ↔ w.above = id) :
    List.Forall₂ (fun child x => (root :: ts.map (·.node))[child.1]? = some x ∧
        ∃ below, t.slot? x = some below ∧ below.attachment = some ⟨id, child.2⟩)
      (Drafted.attachedTo holder (ts.map (·.toDrafted))) ((below id ts).map (·.node)) := by
  refine Twin.forall₂_attached (fun j w hj => ?_) hparent fun w hw => ?_
  · rw [Nat.add_comm, List.getElem?_cons_succ, List.getElem?_map, hj, Option.map_some]
  · obtain ⟨cs, ⟨node, inside, hslot, -⟩, -⟩ := T.shown w hw
    exact ⟨_, hslot, rfl⟩

/-- The component agrees with its node: it has its properties, and below it are the elements that are
attached to it. -/
lemma agrees_component {ties : PlacedView → List LiveConstraint → Prop}
    (T : Twins sheets t ties at_ root ids views ts) (hat : at_.parent = .component)
    (hn : (root :: ts.map (·.node)).Nodup) (hnames : (ts.map (·.name)).Nodup) {slot : Slot H}
    {g : GenericElement} (hroot : t.slot? root = some slot)
    (hg : slot.node.element = .generic { g with properties := Property.assignAll ps [] })
    (hc : slot.node.constraints = []) (hids : slot.children = ids) :
    BuiltView.Agrees t (root :: ts.map (·.node))
      { construction := none, properties := Property.assignAll ps []
        children := Drafted.attachedTo .component (ts.map (·.toDrafted)) }
      root slot { g with properties := Property.assignAll ps [] } where
  slot?_eq := hroot
  element_eq := hg
  makes := nofun
  properties_eq := rfl
  children := by
    rw [hids, ← (T.children hn).1]
    exact T.agree_children fun w hw => (T.parent_eq_iff hat hn hnames hw).1
  constraints := by
    rw [hc]
    exact .nil

/-- The view of an element agrees with its node, if its constraints do. -/
lemma agrees_element {ties : PlacedView → List LiveConstraint → Prop}
    (T : Twins sheets t ties at_ root ids views ts) (hat : at_.parent = .component)
    (hn : (root :: ts.map (·.node)).Nodup) (hnames : (ts.map (·.name)).Nodup) {w : Twin}
    (hw : w ∈ ts) (hof : ∃ at_ e, Drafted.IsOf at_ e w.toDrafted) {cs : List LiveConstraint}
    (hshown : w.Shown sheets t cs) {actives : List ActiveConstraint}
    (hcs : List.Forall₂ (ActiveConstraint.Agrees (root :: ts.map (·.node))) actives cs) :
    ∃ slot g, BuiltView.Agrees t (root :: ts.map (·.node))
      { construction := some w.construction
        properties := Property.assignAll (w.properties sheets) []
        children := Drafted.attachedTo (.element w.placed.name) (ts.map (·.toDrafted))
        constraints := actives } w.node slot g := by
  obtain ⟨node, inside, hslot, helement, rfl⟩ := hshown
  obtain ⟨at_, e, hof⟩ := hof
  refine ⟨_, _,
    { slot?_eq := hslot
      element_eq := helement
      makes := ?_
      properties_eq := rfl
      children := ?_
      constraints := hcs }⟩
  · rintro c ⟨⟩
    rw [hof.placed_eq]
    exact hof.makes _
  · rw [← ViewTree.children_of_slot? hslot, ← (T.children hn).2 w hw]
    exact T.agree_children fun w' hw' => (T.parent_eq_iff hat hn hnames hw').2 w hw

/-- **What the statements of elements build agrees with their nodes**, if the elements are found
under different names. -/
theorem exists_agrees (T : Twins sheets t (Applier.Tied typeName views) at_ root ids views ts)
    (hat : at_.parent = .component) (hn : (root :: ts.map (·.node)).Nodup)
    (hnames : (ts.map (·.name)).Nodup)
    (hof : ∀ w ∈ ts, ∃ at_ e, Drafted.IsOf at_ e w.toDrafted)
    (hbelow : ∀ x, x ∈ ts.map (·.node) ↔ t.IsBelow x root)
    (hD : D.placed = ts.map (·.placed)) {css : List (List BuiltConstraint)}
    (hcss : List.Forall₂ (fun cs p =>
      List.Forall₂ (BuiltConstraint.IsOf D typeName' p) cs p.element.layout.constraints)
      css D.placed) {slot : Slot H} {g : GenericElement} (hroot : t.slot? root = some slot)
    (hg : slot.node.element = .generic { g with properties := Property.assignAll ps [] })
    (hc : slot.node.constraints = []) (hids : slot.children = ids) :
    ∃ m, Assembly.start.run (ps.map (.assign .component) ++
        ((ts.map (·.toDrafted)).flatMap (·.statements sheets) ++ css.flatten.map .constrain)) =
        some m ∧
      m.Agrees t root (root :: ts.map (·.node)) := by
  obtain ⟨m₀, hrun₀, h₀⟩ := Assembly.exists_built_nil sheets ps
  obtain ⟨m₁, hrun₁, h₁⟩ := Assembly.run_drafted h₀ (ts.map (·.toDrafted)) (fun w hw => by
      obtain ⟨w, hm, rfl⟩ := List.mem_map.1 hw
      obtain ⟨at_, e, hw⟩ := hof w hm
      rw [hw.placed_eq]
      exact hw.rows_eq) (T.areRooted hat) (by rwa [List.map_map])
  obtain ⟨actives, hactives, hagree⟩ := T.exists_actives hat h₁ hD hcss
  rw [hD, List.forall₂_map_right_iff] at hcss
  obtain ⟨m₂, hrun₂, hviews⟩ := Assembly.run_constraints (k := 1) (fun j cs hj c hcm => by
      obtain ⟨w, hw, hcs⟩ := exists_getElem? hcss.flip hj
      obtain ⟨k, hk⟩ := List.mem_iff_getElem?.1 hcm
      obtain ⟨_, -, capture, target, -, rfl⟩ := exists_getElem? (List.Forall₂.flip hcs) hk
      rw [Nat.add_comm]
      exact h₁.find?_eq j w.toDrafted (by rw [List.getElem?_map, hw, Option.map_some])) hactives
  have run : Assembly.start.run (ps.map (.assign .component) ++
      ((ts.map (·.toDrafted)).flatMap (·.statements sheets) ++ css.flatten.map .constrain)) =
      some m₂ := by
    rw [Assembly.run_append, hrun₀, Option.bind_some, Assembly.run_append, hrun₁, Option.bind_some,
      hrun₂]
  refine ⟨m₂, run,
    { head?_eq := rfl
      length_eq := by
        rw [length_eq_of_getElem? hviews, h₁.length_eq, List.length_cons, List.length_map, List.length_map]
      nodup := hn
      mem_tail_iff := hbelow
      agrees := ?_ }⟩
  rintro (_ | j) v id hv hid
  · rw [hviews, h₁.component, Option.map_some] at hv
    cases hv
    cases hid
    exact ⟨slot, _, T.agrees_component hat hn hnames hroot hg hc hids⟩
  · rw [List.getElem?_cons_succ, List.getElem?_map, Option.map_eq_some_iff] at hid
    obtain ⟨w, hw, rfl⟩ := hid
    have hm := List.mem_of_getElem? hw
    obtain ⟨active, ha, cs, hshown, hcs⟩ := exists_getElem? hagree hw
    rw [hviews, h₁.view j w.toDrafted (by rw [List.getElem?_map, hw, Option.map_some]),
      Option.map_some, if_pos (Nat.le_add_left 1 j), Nat.add_sub_cancel, ha, Option.getD_some] at hv
    cases hv
    exact T.agrees_element hat hn hnames hm (hof w hm) hshown hcs

end Twins

end ViewMarkup
