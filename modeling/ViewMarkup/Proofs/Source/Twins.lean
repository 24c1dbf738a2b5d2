import ViewMarkup.Proofs.Source.Execution
import ViewMarkup.Proofs.View.Builtin
import ViewMarkup.Proofs.View.Showing

/-!
# Drafted elements and the nodes that show them

A draft and an application go through the elements of a definition in the same order. So each drafted
element has a twin, the node that shows the element, and the two are in the same place: what the
element is attached to is the twin of what the node is below, and the constraints of both are tied
within the same scope.

## Main definitions

* `Twin` — a drafted element with its node.
* `Twin.Shown` — the node has what the statements of the element say.
* `Twins` — drafted elements with their nodes, below a node.

## Main statements

* `Twins.cons` — one element with what is inside it, and the elements after it.
* `Drafts.exists_twins` — every drafted element has a twin.
-/

namespace ViewMarkup

open Element

variable {H : Type}

/-- A drafted element with its node. -/
structure Twin extends Drafted where
  /-- The node that shows the element. -/
  node : NodeId
  /-- The node above that one. -/
  above : NodeId

namespace Twin

/-- The element with its node. -/
def view (w : Twin) : PlacedView := ⟨w.placed.element, w.node, w.above⟩

/-- The twins of a scope. -/
def inScope (scope : Nat) (ts : List Twin) : List Twin := ts.filter fun w => w.placed.scope = scope

/-- The twins below a node. -/
def below (id : NodeId) (ts : List Twin) : List Twin := ts.filter fun w => w.above = id

/-- The node has what the statements of the element say, and has the given constraints. -/
def Shown (sheets : StyleSheets) (t : ViewTree H) (w : Twin) (cs : List LiveConstraint) : Prop :=
  ∃ (node : ViewNode H) (inside : List NodeId),
    t.slot? w.node = some ⟨node, some ⟨w.above, w.arranged⟩, inside⟩ ∧
    node.element = .generic { Applier.generic w.placed.element with
      properties := Property.assignAll (w.properties sheets) [] } ∧
    node.constraints = cs

end Twin

open Twin

/-- **Drafted elements with their nodes** below a node. In their own scope, the constraints of the
nodes are given by `ties`. -/
structure Twins (sheets : StyleSheets) (t : ViewTree H)
    (ties : PlacedView → List LiveConstraint → Prop) (at_ : Place) (parent : NodeId)
    (ids : List NodeId) (views : List PlacedView) (ts : List Twin) : Prop where
  /-- What an element is attached to and what its node is below are twins. -/
  attached : ∀ before w after, ts = before ++ w :: after →
    w.placed.parent = at_.parent ∧ w.above = parent ∨
      ∃ w' ∈ before, w.placed.parent = .element w'.placed.name ∧ w.above = w'.node
  /-- The views of the scope are those of its twins. -/
  views_eq : (inScope at_.scope ts).map view = views
  /-- The nodes have what the statements say, and the constraints of their scopes. -/
  shown : ∀ w ∈ ts, ∃ cs, w.Shown sheets t cs ∧
    (w.placed.scope = at_.scope → ties w.view cs) ∧
    (w.placed.scope ≠ at_.scope → ∃ typeName,
      Applier.liveConstraints typeName ((inScope w.placed.scope ts).map view) w.view = .ok cs)
  /-- Below the node are the nodes of the elements attached to it, and so it is for each of them. -/
  children : (parent :: ts.map (·.node)).Nodup → (below parent ts).map (·.node) = ids ∧
    ∀ w ∈ ts, (below w.node ts).map (·.node) = t.children w.node

namespace Twins

variable {sheets : StyleSheets} {t : ViewTree H}
  {ties ties' : PlacedView → List LiveConstraint → Prop} {at_ at' : Place} {parent id : NodeId}
  {ids inside : List NodeId} {views views' own : List PlacedView} {ts ts' : List Twin}

/-- There are no views. -/
lemma nil : Twins sheets t ties at_ parent [] [] [] where
  attached before w after h := by simp at h
  views_eq := rfl
  shown _ h := (List.not_mem_nil h).elim
  children _ := ⟨rfl, fun _ h => (List.not_mem_nil h).elim⟩

/-- Every node is below the given one or below one of the others. -/
lemma above_eq_or (h : Twins sheets t ties at_ parent ids views ts) :
    ∀ w ∈ ts, w.above = parent ∨ ∃ w' ∈ ts, w.above = w'.node := by
  intro w hw
  obtain ⟨before, after, rfl⟩ := List.append_of_mem hw
  rcases h.attached before w after rfl with ⟨-, ha⟩ | ⟨w', hw', -, ha⟩
  · exact .inl ha
  · exact .inr ⟨w', List.mem_append_left _ hw', ha⟩

/-- Nothing is below a node of somewhere else. -/
lemma below_eq_nil (h : Twins sheets t ties at_ parent ids views ts) {x : NodeId}
    (hx : x ≠ parent) (hx' : x ∉ ts.map (·.node)) : below x ts = [] := by
  refine List.filter_eq_nil_iff.2 fun w hw => ?_
  rw [decide_eq_true_eq]
  rintro rfl
  rcases h.above_eq_or w hw with ha | ⟨w', hw', ha⟩
  · exact hx ha
  · exact hx' (ha ▸ List.mem_map_of_mem hw')

section Cons

variable {w : Twin}

/-- What is below a view in two lists, behind one that is not. -/
lemma below_cons {x : NodeId} (hw : w.above ≠ x) :
    below x (w :: (ts ++ ts')) = below x ts ++ below x ts' := by
  unfold below
  rw [List.filter_cons_of_neg (by simpa using hw), List.filter_append]

/-- The children of the nodes, for one element with what is inside it and those after it. -/
lemma children_cons (ha : w.above = parent) (hchildren : t.children w.node = inside)
    (hin : Twins sheets t ties' at' w.node inside own ts)
    (hafter : Twins sheets t ties at_ parent ids views' ts')
    (hn : (parent :: (w :: (ts ++ ts')).map (·.node)).Nodup) :
    (below parent (w :: (ts ++ ts'))).map (·.node) = w.node :: ids ∧
      ∀ x ∈ w :: (ts ++ ts'), (below x.node (w :: (ts ++ ts'))).map (·.node) =
        t.children x.node := by
  rw [List.map_cons, List.map_append, List.nodup_cons, List.nodup_cons, List.mem_cons,
    List.mem_append, List.mem_append, not_or, not_or, not_or, List.nodup_append'] at hn
  obtain ⟨⟨hp, hpin, hpafter⟩, ⟨hwin, hwafter⟩, nin, nafter, hdisjoint⟩ := hn
  obtain ⟨intop, inall⟩ := hin.children (List.nodup_cons.2 ⟨hwin, nin⟩)
  obtain ⟨aftertop, afterall⟩ := hafter.children (List.nodup_cons.2 ⟨hpafter, nafter⟩)
  refine ⟨?_, List.forall_mem_cons.2 ⟨?_, List.forall_mem_append.2
    ⟨fun x hx => ?_, fun x hx => ?_⟩⟩⟩
  · have hhead : below parent (w :: (ts ++ ts')) = w :: (below parent ts ++ below parent ts') := by
      unfold below
      rw [List.filter_cons_of_pos (by simpa using ha), List.filter_append]
    rw [hhead, hin.below_eq_nil hp hpin, List.nil_append, List.map_cons, aftertop]
  · rw [below_cons (ha ▸ hp), hafter.below_eq_nil (Ne.symm hp) hwafter, List.append_nil, intop,
      hchildren]
  · have hm := List.mem_map_of_mem (f := (·.node)) hx
    have hne : parent ≠ x.node := fun he => hpin (he ▸ hm)
    rw [below_cons (ha ▸ hne), hafter.below_eq_nil hne.symm (hdisjoint hm), List.append_nil,
      inall x hx]
  · have hm := List.mem_map_of_mem (f := (·.node)) hx
    have hne : parent ≠ x.node := fun he => hpafter (he ▸ hm)
    have hne' : w.node ≠ x.node := fun he => hwafter (he ▸ hm)
    rw [below_cons (ha ▸ hne), hin.below_eq_nil hne'.symm fun h => hdisjoint h hm, List.nil_append,
      afterall x hx]

/-- Nothing is in a scope that no view belongs to. -/
lemma inScope_eq_nil {scope : Nat} (h : ∀ w ∈ ts, w.placed.scope ≠ scope) :
    inScope scope ts = [] :=
  List.filter_eq_nil_iff.2 fun w hw => by simpa using h w hw

/-- The scopes of the twins, for one element with what is inside it and those after it. -/
lemma inScope_cons {scope : Nat} (hw : w.placed.scope ≠ scope) :
    inScope scope (w :: (ts ++ ts')) = inScope scope ts ++ inScope scope ts' := by
  unfold inScope
  rw [List.filter_cons_of_neg (by simpa using hw), List.filter_append]

/-- **One element with what is inside it, and the elements after it.** What is inside is in the same
scope, or in one of its own. -/
theorem cons {e : Element} {cs : List LiveConstraint} {n n₁ n₂ : Nat} (hw : w.IsOf at_ e)
    (ha : w.above = parent) (hshown : w.Shown sheets t cs) (hties : ties w.view cs)
    (hchildren : t.children w.node = inside) (hparent : at'.parent = .element w.placed.name)
    (hin : Twins sheets t ties' at' w.node inside own ts)
    (hafter : Twins sheets t ties at_ parent ids views' ts')
    (hscope : at_.scope < n) (hn : n ≤ n₁) (hn' : n₁ ≤ n₂)
    (bin : ∀ w ∈ ts, w.placed.scope = at'.scope ∨ n₁ ≤ w.placed.scope ∧ w.placed.scope < n₂)
    (bafter : ∀ w ∈ ts', w.placed.scope = at_.scope ∨ n₂ ≤ w.placed.scope)
    (hcase : at'.scope = at_.scope ∧ ties' = ties ∧ views = own ∨
      (n ≤ at'.scope ∧ at'.scope < n₁) ∧ (∃ typeName, ties' = Applier.Tied typeName own) ∧
        views = []) :
    Twins sheets t ties at_ parent (w.node :: ids) (w.view :: (views ++ views'))
      (w :: (ts ++ ts')) := by
  have hhead : w.placed.scope = at_.scope := by rw [hw.placed_eq]
  refine
    { attached := ?_
      views_eq := ?_
      shown := ?_
      children := children_cons ha hchildren hin hafter }
  · intro before x after hx
    rcases List.cons_eq_append_iff.1 hx with ⟨rfl, hx⟩ | ⟨before, rfl, hx'⟩
    · cases hx
      exact .inl ⟨by rw [hw.placed_eq], ha⟩
    · rcases List.append_eq_append_iff.1 hx' with ⟨rest, rfl, hrest⟩ | ⟨rest, hts, hrest⟩
      · rcases hafter.attached rest x after hrest with h | ⟨w', hw', h⟩
        · exact .inl h
        · exact .inr ⟨w', List.mem_cons_of_mem _ (List.mem_append_right _ hw'), h⟩
      · rcases List.cons_eq_append_iff.1 hrest with ⟨rfl, hx⟩ | ⟨rest, rfl, -⟩
        · rcases hafter.attached [] x after hx with h | ⟨w', hw', -⟩
          · exact .inl h
          · cases hw'
        · rcases hin.attached before x rest hts with ⟨hpar, habove⟩ | ⟨w', hw', h⟩
          · exact .inr ⟨w, List.mem_cons_self, hpar.trans hparent, habove⟩
          · exact .inr ⟨w', List.mem_cons_of_mem _ hw', h⟩
  · have hfilter : inScope at_.scope (w :: (ts ++ ts')) =
        w :: (inScope at_.scope ts ++ inScope at_.scope ts') := by
      unfold inScope
      rw [List.filter_cons_of_pos (by simpa using hhead), List.filter_append]
    have hown : (inScope at_.scope ts).map view = views := by
      rcases hcase with ⟨hs, -, rfl⟩ | ⟨⟨hlo, -⟩, -, rfl⟩
      · rw [← hs, hin.views_eq]
      · rw [inScope_eq_nil fun x hx => ?_, List.map_nil]
        have := bin x hx
        omega
    rw [hfilter, List.map_cons, List.map_append, hown, hafter.views_eq]
  · refine List.forall_mem_cons.2 ⟨?_, List.forall_mem_append.2 ⟨fun x hx => ?_, fun x hx => ?_⟩⟩
    · exact ⟨cs, hshown, fun _ => hties, fun h => (h hhead).elim⟩
    · obtain ⟨cs', hshown', hown, hnested⟩ := hin.shown x hx
      have hb := bin x hx
      refine ⟨cs', hshown', fun hs => ?_, fun hs => ?_⟩
      · rcases hcase with ⟨hs', rfl, -⟩ | ⟨hnew, -, -⟩
        · exact hown (hs.trans hs'.symm)
        · omega
      · rw [inScope_cons (by rw [hhead]; exact hs.symm),
          (inScope_eq_nil fun y hy => ?_ : inScope x.placed.scope ts' = []), List.append_nil]
        · by_cases hs' : x.placed.scope = at'.scope
          · rcases hcase with ⟨h, -, -⟩ | ⟨-, ⟨typeName, rfl⟩, -⟩
            · exact (hs (hs'.trans h)).elim
            · refine ⟨typeName, ?_⟩
              rw [hs', hin.views_eq]
              exact hown hs'
          · exact hnested hs'
        · have := bafter y hy
          have := hcase.imp And.left And.left
          omega
    · obtain ⟨cs', hshown', hown, hnested⟩ := hafter.shown x hx
      have hb := bafter x hx
      refine ⟨cs', hshown', hown, fun hs => ?_⟩
      rw [inScope_cons (by rw [hhead]; exact hs.symm),
        (inScope_eq_nil fun y hy => ?_ : inScope x.placed.scope ts = []), List.nil_append]
      · exact hnested hs
      · have := bin y hy
        have := hcase.imp And.left And.left
        omega

end Cons

end Twins

/-! ### Every drafted element has a twin -/

namespace Applier

variable {a : Applier H} {σ : Scene H} {e : Element} {start : VisualElement H}

/-- The visual element of a node for which the component held none before. -/
lemma element_dress [Widget H] (ha : a.capabilities = .builtin) (hold : ∀ f, σ.old f = none)
    (hregular : e.IsRegular) (hplace : e.IsInPlace) (hstart : a.Starts σ e start) :
    (a.dress σ.definition e start).element = .generic { generic e with
      properties := Property.assignAll
        (a.sheets.cascade e.kind e.styles e.properties σ.definition.styles).properties [] } := by
  have hcomp : e.kind = .component → ∃ d, e.reference = some (.inline d) := by
    intro hk
    rw [IsInPlace, if_pos hk] at hplace
    obtain ⟨d, hd, -⟩ := hplace
    exact ⟨d, hd⟩
  have hnone : e.field.bind σ.old = none := by
    cases e.field with
    | none => rfl
    | some f => exact hold f
  rw [Starts, hnone, create_builtin ha hcomp] at hstart
  cases hstart
  have hempty : (generic e).properties = [] := by
    unfold generic
    split <;> rfl
  rw [dress, ha, StyleSheets.resolve,
    Capabilities.setAll_builtin (Catalogue.known_cascade _ _ _ hregular.known), hempty]
  rfl

/-- The root of a component in place gives its node nothing. -/
lemma setOn_resolveRoot {d : Definition} (h : d.properties = []) (n : ViewNode H) :
    a.capabilities.setOn .container (a.sheets.resolveRoot d).properties n = n := by
  rw [StyleSheets.resolveRoot, h]
  rfl

/-- The definition inside an anonymous component is entered, as no type around it has a name as
long. -/
lemma nested?_eq_some {d : Definition} (hk : e.kind = .component)
    (hr : e.reference = some (.inline d)) (hd : d.isAnonymous = true)
    (henc : e.Encloses σ.definition.typeName)
    (hactive : ∀ x ∈ σ.active, x.length ≤ σ.definition.typeName.length) :
    a.nested? σ.active e = some d ∧ σ.definition.typeName.length < d.typeName.length := by
  have hlt : σ.definition.typeName.length < d.typeName.length := by
    rw [(henc d hr).2 hd, String.length_append, String.length_append]
    have : "_".length = 1 := rfl
    omega
  refine ⟨?_, hlt⟩
  rw [nested?, if_pos hk, hr, enters?, if_neg]
  intro hm
  have := hactive _ hm
  omega

end Applier

/-- **Every drafted element has a twin** in a tree that shows the elements. -/
theorem Drafts.exists_twins [Widget H] {a : Applier H} (ha : a.capabilities = .builtin)
    {t : ViewTree H} {at_ : Place} {es : List Element} {n n' : Nat} {ws : List Drafted}
    (h : Drafts at_ es n n' ws) {σ : Scene H} {parent : NodeId} {ids : List NodeId}
    {views : List PlacedView} {deep : List NodeId}
    (hshows : a.Shows t σ parent at_.arranged es ids views deep) (hold : ∀ f, σ.old f = none)
    (hstyles : σ.definition.styles = at_.styles) (hp : AreInPlace σ.definition.typeName es)
    (hactive : ∀ x ∈ σ.active, x.length ≤ σ.definition.typeName.length) (hscope : at_.scope < n) :
    ∃ ts : List Twin, ts.map (·.toDrafted) = ws ∧
      (ts.map (·.node)).Perm (views.map (·.node) ++ deep) ∧
      Twins a.sheets t σ.ties at_ parent ids views ts := by
  induction h generalizing σ parent ids views deep with
  | nil =>
    cases hshows
    exact ⟨[], rfl, .nil, .nil⟩
  | @cons at_ at' e es es' n n₁ n₂ n' w ins after hw hi hin hafter ih ih' =>
    have hplace := hp.isInPlace e AreInPlace.mem_head
    have hregular := hp.regular e AreInPlace.mem_head
    have hencloses := hp.encloses e AreInPlace.mem_head
    have hle := hi.scope
    have hle' := hin.scopes_le
    -- The node has what the statements say.
    have shown : ∀ {id : NodeId} {start : VisualElement H} {cs : List LiveConstraint}
        {inside : List NodeId}, a.Starts σ e start →
        t.slot? id = some ⟨{ a.dress σ.definition e start with constraints := cs },
          some ⟨parent, at_.arranged⟩, inside⟩ → (Twin.mk w id parent).Shown a.sheets t cs := by
      intro id start cs inside hstart hslot
      refine ⟨_, inside, by rw [hslot, hw.arranged_eq], ?_, rfl⟩
      have := Applier.element_dress ha hold hregular hplace hstart
      rw [hstyles] at this
      rw [Drafted.properties, hw.placed_eq]
      exact this
    have view : ∀ id, (Twin.mk w id parent).view = ⟨e, id, parent⟩ := fun id => by
      rw [Twin.view, hw.placed_eq]
    have bins : ∀ {ts : List Twin}, ts.map (·.toDrafted) = ins →
        ∀ x ∈ ts, x.placed.scope = at'.scope ∨ n₁ ≤ x.placed.scope ∧ x.placed.scope < n₂ :=
      fun hts x hx => hin.scope_eq_or _ (hts ▸ List.mem_map_of_mem hx)
    have bafter : ∀ {ts : List Twin}, ts.map (·.toDrafted) = after →
        ∀ x ∈ ts, x.placed.scope = at_.scope ∨ n₂ ≤ x.placed.scope :=
      fun hts x hx => (hafter.scope_eq_or _ (hts ▸ List.mem_map_of_mem hx)).imp_right And.left
    have component : ∀ {nested : Definition}, a.nested? σ.active e = some nested →
        e.kind = .component := by
      intro nested hn
      by_contra hk
      rw [Applier.nested?, if_neg hk] at hn
      cases hn
    cases hshows with
    | @container _ _ _ _ _ id ids inside start cs views views' deep deep' hk hst hc hslot hsin
        hsafter =>
      cases hi with
      | nothing hk' =>
        rw [hk] at hk'
        cases hk'
      | component hk' =>
        rw [hk'] at hk
        cases hk
      | children _ =>
        obtain ⟨ts, hts, perm, T⟩ := ih hsin hold hstyles hp.children hactive hscope
        obtain ⟨ts', hts', perm', T'⟩ := ih' hsafter hold hstyles hp.tail hactive (by omega)
        refine ⟨⟨w, id, parent⟩ :: (ts ++ ts'), ?_, ?_, ?_⟩
        · rw [List.map_cons, List.map_append, hts, hts']
        · rw [List.map_cons, List.map_append, List.map_cons, List.map_append, List.cons_append]
          refine ((perm.append perm').trans ?_).cons id
          simp only [List.append_assoc]
          exact (List.perm_append_comm_assoc deep _ deep').append_left _
        · have := Twins.cons (w := ⟨w, id, parent⟩) hw rfl (shown hst hslot) (view id ▸ hc)
            (ViewTree.children_of_slot? hslot) rfl T T' hscope hle.1 hle' (bins hts) (bafter hts')
            (.inl ⟨rfl, rfl, rfl⟩)
          rwa [view id] at this
    | @component _ _ _ _ _ id ids inside start cs views views' deep deep' nested hn hst hc hslot hsin
        hsafter =>
      have hk := component hn
      cases hi with
      | nothing _ hno =>
        rw [IsInPlace, if_pos hk] at hplace
        obtain ⟨d, hr, hd⟩ := hplace
        rw [hno d hr hk] at hd
        cases hd
      | children hk' =>
        rw [hk] at hk'
        cases hk'
      | @component d hk' hr hd =>
        obtain ⟨hn', hlt⟩ := Applier.nested?_eq_some hk hr hd hencloses hactive
        rw [hn'] at hn
        cases hn
        rw [Applier.setOn_resolveRoot (hencloses nested hr).1] at hslot
        obtain ⟨ts, hts, perm, T⟩ := ih hsin (fun _ => rfl) rfl (hp.inline hr)
          (List.forall_mem_cons.2 ⟨Nat.le_refl _, fun x hx =>
            Nat.le_trans (hactive x hx) (Nat.le_of_lt hlt)⟩) n.lt_succ_self
        obtain ⟨ts', hts', perm', T'⟩ := ih' hsafter hold hstyles hp.tail hactive (by omega)
        refine ⟨⟨w, id, parent⟩ :: (ts ++ ts'), ?_, ?_, ?_⟩
        · rw [List.map_cons, List.map_append, hts, hts']
        · rw [List.map_cons, List.map_append, List.map_cons]
          exact ((perm.append perm').trans (List.perm_append_comm_assoc _ _ deep')).cons id
        · have := Twins.cons (w := ⟨w, id, parent⟩) hw rfl (shown hst hslot) (view id ▸ hc)
            (ViewTree.children_of_slot? hslot) rfl T T' hscope hle.1 hle' (bins hts) (bafter hts')
            (.inr ⟨⟨n.le_refl, n.lt_succ_self⟩, ⟨nested.typeName, rfl⟩, rfl⟩)
          rwa [view id] at this
    | @leaf _ _ _ _ _ id ids start cs views' deep' hk hn hst hc hslot hsafter =>
      cases hi with
      | children hk' =>
        rw [hk] at hk'
        cases hk'
      | component hk' hr hd =>
        rw [(Applier.nested?_eq_some hk' hr hd hencloses hactive).1] at hn
        cases hn
      | nothing _ _ =>
        cases hin
        obtain ⟨ts', hts', perm', T'⟩ := ih' hsafter hold hstyles hp.tail hactive hscope
        refine ⟨⟨w, id, parent⟩ :: ([] ++ ts'), ?_, ?_, ?_⟩
        · rw [List.map_cons, List.nil_append, List.nil_append, hts']
        · rw [List.map_cons, List.nil_append, List.map_cons]
          exact perm'.cons id
        · have none : Twins a.sheets t σ.ties { at_ with parent := .element w.placed.name } id [] [] [] :=
            .nil
          have := Twins.cons (w := ⟨w, id, parent⟩) hw rfl (shown hst hslot) (view id ▸ hc)
            (ViewTree.children_of_slot? hslot) rfl none T' hscope hle.1 hle'
            (fun _ hx => (List.not_mem_nil hx).elim) (bafter hts') (.inl ⟨rfl, rfl, rfl⟩)
          rwa [view id] at this

end ViewMarkup
