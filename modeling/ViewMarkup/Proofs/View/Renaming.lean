import ViewMarkup.Proofs.View.Mirror
import ViewMarkup.Proofs.View.Resetting

/-!
# Views that show the same elements

Two trees may show the same elements with different nodes. If their visual elements are finished
alike, then all that the nodes hold is the same up to the identities of the nodes: renaming the
nodes of one tree gives those of the other, with their places, their children, and what their
constraints relate to.

## Main definitions

* `Slot.rename`, `ViewNode.rename`, `LiveConstraint.rename` — what a node holds, with other
  identities.
* `PlacedView.rename`, `ConstraintHandle.rename` — the same for what an application notes.
* `matching` — the renaming that takes the nodes of one list to those of another.
* `Applier.Finishes` — two scopes make the same of every element that they have in common.

## Main statements

* `Applier.liveConstraints_rename`, `Applier.capturedOf_rename` — constraints follow a renaming.
* `Applier.Shows.renamed` — two trees that show the same elements.
-/

namespace ViewMarkup

open Element

variable {H : Type}

/-! ### Other identities -/

section Rename

variable (ρ : NodeId → NodeId)

/-- What a constraint relates to, with other identities. -/
def LiveTarget.rename : LiveTarget → LiveTarget
  | node id => node (ρ id)
  | constant v => constant v

/-- A constraint in force with other identities. -/
def LiveConstraint.rename (c : LiveConstraint) : LiveConstraint :=
  { c with target := c.target.rename ρ }

/-- What a node holds, with other identities. -/
def ViewNode.rename (n : ViewNode H) : ViewNode H :=
  { n with constraints := n.constraints.map (·.rename ρ) }

/-- A node with its place in the tree, with other identities. -/
def Slot.rename (s : Slot H) : Slot H where
  node := s.node.rename ρ
  attachment := s.attachment.map fun place => { place with parent := ρ place.parent }
  children := s.children.map ρ

/-- A placed element with other identities. -/
def PlacedView.rename (p : PlacedView) : PlacedView := ⟨p.element, ρ p.node, ρ p.parent⟩

/-- Where a captured constraint is found, with other identities. -/
def ConstraintHandle.rename (h : ConstraintHandle) : ConstraintHandle := { h with node := ρ h.node }

end Rename

/-! ### Nodes one by one -/

/-- The renaming that takes the members of one list to those of another, and keeps all else. -/
def matching (xs ys : List NodeId) (x : NodeId) : NodeId := ((xs.zip ys).lookup x).getD x

/-- What is not in the list stays. -/
lemma matching_of_not_mem {xs ys : List NodeId} {x : NodeId} (h : x ∉ xs) :
    matching xs ys x = x := by
  unfold matching
  rw [List.lookup_eq_none_iff.2, Option.getD_none]
  intro p hp
  have := List.of_mem_zip hp
  exact bne_iff_ne.2 fun he => h (he ▸ this.1)

/-- The members of the list are matched one by one. -/
lemma map_matching {xs ys : List NodeId} (hn : xs.Nodup) (hlen : ys.length = xs.length) :
    xs.map (matching xs ys) = ys := by
  induction xs generalizing ys with
  | nil => exact (List.eq_nil_of_length_eq_zero hlen).symm
  | cons x xs ih =>
    obtain _ | ⟨y, ys⟩ := ys
    · cases hlen
    · obtain ⟨hx, hn⟩ := List.nodup_cons.1 hn
      have head : matching (x :: xs) (y :: ys) x = y := by simp [matching]
      have tail : ∀ z ∈ xs, matching (x :: xs) (y :: ys) z = matching xs ys z := fun z hz => by
        have hne : (z == x) = false := by
          rw [beq_eq_false_iff_ne]
          rintro rfl
          exact hx hz
        simp [matching, List.lookup_cons, hne]
      rw [List.map_cons, head, List.map_congr_left tail, ih hn (Nat.succ.inj hlen)]

namespace Applier

section Constraints

variable {ρ : NodeId → NodeId} {typeName : String} {placed : List PlacedView} {p : PlacedView}

/-- A renamed view is found where the view is. -/
lemma findPlaced?_rename (ρ : NodeId → NodeId) (placed : List PlacedView)
    (test : Element → Bool) : findPlaced? (placed.map (·.rename ρ)) test =
      (findPlaced? placed test).map ρ := by
  rw [findPlaced?, findPlaced?, ← List.map_reverse, List.find?_map, Option.map_map, Option.map_map]
  rfl

/-- A target of a renamed view is the renamed target. -/
lemma target?_rename (ρ : NodeId → NodeId) (placed : List PlacedView) (p : PlacedView)
    (target : Target) : target? (placed.map (·.rename ρ)) (p.rename ρ) target =
      (target? placed p target).map (·.rename ρ) := by
  cases target with
  | parent => rfl
  | constant v => rfl
  | field name =>
    rw [target?, target?, findPlaced?_rename, findPlaced?_rename, ← Option.map_or, Option.map_map,
      Option.map_map]
    rfl
  | id name =>
    rw [target?, target?, findPlaced?_rename, Option.map_map, Option.map_map]
    rfl

/-- The constraints of an element follow a renaming, and so does the lack of a target. -/
theorem liveConstraints_rename (ρ : NodeId → NodeId) (typeName : String)
    (placed : List PlacedView) (p : PlacedView) :
    liveConstraints typeName (placed.map (·.rename ρ)) (p.rename ρ) =
      (liveConstraints typeName placed p).map (·.map (·.rename ρ)) := by
  rw [liveConstraints, liveConstraints, Except.map_mapM]
  refine congrArg (List.mapM · p.element.layout.constraints) (funext fun c => ?_)
  rw [target?_rename]
  cases target? placed p c.target <;> rfl

/-- So do those of all elements of a scope. -/
lemma allConstraints_rename (ρ : NodeId → NodeId) (typeName : String)
    (placed : List PlacedView) : allConstraints typeName (placed.map (·.rename ρ)) =
      (allConstraints typeName placed).map
        (·.map fun change => (ρ change.1, change.2.map (·.rename ρ))) := by
  rw [allConstraints, allConstraints, Except.map_mapM, List.mapM_map]
  refine congrArg (List.mapM · placed) (funext fun p => ?_)
  rw [Function.comp_apply, liveConstraints_rename]
  cases liveConstraints typeName placed p <;> rfl

/-- The captured constraints of one node with their names. -/
def captures (entry : NodeId × List LiveConstraint) : List (String × ConstraintHandle) :=
  entry.2.zipIdx.filterMap fun c => c.1.declared.captureName.map fun name => (name, ⟨entry.1, c.2⟩)

/-- What is captured is captured constraint by constraint, the last under a name. -/
lemma capturedOf_eq (rebuilt : List (NodeId × List LiveConstraint)) :
    capturedOf rebuilt =
      (rebuilt.flatMap captures).foldl (fun t entry => t.insert entry.1 entry.2) {} := rfl

/-- Renamed constraints are captured as before. -/
lemma captures_rename (ρ : NodeId → NodeId) (id : NodeId) (cs : List LiveConstraint) :
    captures (ρ id, cs.map (·.rename ρ)) =
      (captures (id, cs)).map fun entry => (entry.1, entry.2.rename ρ) := by
  rw [captures, captures, List.zipIdx_map, List.filterMap_map, List.map_filterMap]
  refine List.filterMap_congr fun c _ => ?_
  rw [Option.map_map]
  rfl

/-- So do the constraints that are captured. -/
theorem capturedOf_rename (ρ : NodeId → NodeId) (rebuilt : List (NodeId × List LiveConstraint)) :
    capturedOf (rebuilt.map fun (id, cs) => (ρ id, cs.map (·.rename ρ))) =
      (capturedOf rebuilt).map (·.rename ρ) := by
  rw [capturedOf_eq, capturedOf_eq, List.flatMap_map]
  change (rebuilt.flatMap fun entry => captures (ρ entry.1, entry.2.map (·.rename ρ))).foldl _ _ = _
  simp only [captures_rename]
  rw [← List.map_flatMap, List.foldl_map]
  exact (Table.map_foldl_insert (t := {}) (ConstraintHandle.rename ρ) Prod.fst Prod.snd _).symm

/-- Two nodes that are tied in the same way have the same constraints, up to the renaming. -/
lemma tied_rename {cs cs' : List LiveConstraint} (h : Tied typeName placed p cs)
    (h' : Tied typeName (placed.map (·.rename ρ)) (p.rename ρ) cs') :
    cs' = cs.map (·.rename ρ) := by
  rw [Tied, liveConstraints_rename, h] at h'
  exact (Except.ok.inj h').symm

end Constraints

/-! ### Trees that show the same elements -/

section Same

variable {a : Applier H} {t t' : ViewTree H} {σ σ' : Scene H} {parent parent' : NodeId}
  {arranged : Bool} {e : Element} {es : List Element} {ids ids' : List NodeId}
  {views views' : List PlacedView} {deep deep' : List NodeId} {active : List String}
  {d : Definition} {v v' : VisualElement H}

/-- An element that takes others inside is not a component. -/
lemma nested?_of_acceptsChildren (h : e.kind.acceptsChildren = true) :
    a.nested? active e = none := by
  refine if_neg fun hk => ?_
  rw [hk] at h
  cases h

/-- Two scopes make the same of every element that they have in common. -/
structure Finishes (a : Applier H) (σ σ' : Scene H) (es : List Element) : Prop where
  active_eq : σ'.active = σ.active
  definition_eq : σ'.definition = σ.definition
  finish_eq : ∀ e ∈ walkAll es, ∀ v v', a.Starts σ e v → a.Starts σ' e v' →
    a.finish σ.active σ.definition e v' = a.finish σ.active σ.definition e v

namespace Finishes

/-- What is said of finishing elements holds of fewer. -/
lemma mono {es' : List Element} (h : a.Finishes σ σ' es) (hes : walkAll es' ⊆ walkAll es) :
    a.Finishes σ σ' es' where
  active_eq := h.active_eq
  definition_eq := h.definition_eq
  finish_eq e he := h.finish_eq e (hes he)

/-- The first element is finished in both runs alike. -/
lemma head (h : a.Finishes σ σ' (e :: es)) (hv : a.Starts σ e v) (hv' : a.Starts σ' e v') :
    a.finish σ.active σ.definition e v' = a.finish σ.active σ.definition e v :=
  h.finish_eq e (by rw [walkAll_cons]; exact List.mem_cons_self) v v' hv hv'

/-- The scope of a component inside begins without fields. -/
lemma nested (active : List String) (d : Definition)
    (ties ties' : PlacedView → List LiveConstraint → Prop) (es : List Element) :
    a.Finishes ⟨active, d, fun _ => none, ties⟩ ⟨active, d, fun _ => none, ties'⟩ es where
  active_eq := rfl
  definition_eq := rfl
  finish_eq _ _ _ _ hv hv' := by rw [hv.unique hv']

end Finishes

/-- **Two trees that show the same elements.** They have as many nodes for them, and if a renaming
takes those of one tree to those of the other, one by one, then the views are renamed, and what each
node holds is renamed where the constraints of the scope are.

**Proof sketch.** Induction on how the first tree shows the elements. The second one shows each of
them in the same way, since that depends on its kind and its reference. The constraints of a scope
inside relate to the views of that scope alone, which are known to be renamed when its nodes are
looked at. -/
theorem Shows.renamed (h : a.Shows t σ parent arranged es ids views deep)
    (h' : a.Shows t' σ' parent' arranged es ids' views' deep') (hf : a.Finishes σ σ' es) :
    views'.length = views.length ∧ deep'.length = deep.length ∧
      ∀ ρ : NodeId → NodeId, views'.map (·.node) = (views.map (·.node)).map ρ →
        deep' = deep.map ρ → parent' = ρ parent →
        ids' = ids.map ρ ∧ views' = views.map (·.rename ρ) ∧
          ((∀ p cs cs', σ.ties p cs → σ'.ties (p.rename ρ) cs' → cs' = cs.map (·.rename ρ)) →
            ∀ x ∈ views.map (·.node) ++ deep,
              t'.slot? (ρ x) = (t.slot? x).map (·.rename ρ)) := by
  induction h generalizing σ' parent' ids' views' deep' with
  | nil =>
    cases h'
    exact ⟨rfl, rfl, fun _ _ _ _ => ⟨rfl, rfl, fun _ _ h => (List.not_mem_nil h).elim⟩⟩
  | container hk hst hc hslot _ _ ih ih' =>
    cases h' with
    | component hn' =>
      rw [nested?_of_acceptsChildren hk] at hn'
      cases hn'
    | leaf hk' =>
      rw [hk] at hk'
      cases hk'
    | container hk' hst' hc' hslot' hin' hrest' =>
      have hdress := dress_congr (nested?_of_acceptsChildren hk) (hf.head hst hst')
      rw [hf.definition_eq, hdress] at hslot'
      obtain ⟨hlen, hlendeep, hin⟩ := ih hin' (hf.mono (walkAll_children_subset _ _))
      obtain ⟨hlen', hlendeep', hrest⟩ := ih' hrest' (hf.mono (walkAll_subset_cons _ _))
      refine ⟨by simp [hlen, hlen'], by simp [hlendeep, hlendeep'], fun ρ hviews hdeep hp => ?_⟩
      simp only [List.map_cons, List.map_append, List.cons.injEq] at hviews hdeep
      obtain ⟨rfl, hviews⟩ := hviews
      obtain ⟨hv, hv'⟩ := List.append_inj hviews (by simp [hlen])
      obtain ⟨hd, hd'⟩ := List.append_inj hdeep (by simp [hlendeep])
      obtain ⟨rfl, rfl, inside⟩ := hin ρ hv hd rfl
      obtain ⟨rfl, rfl, after⟩ := hrest ρ hv' hd' hp
      subst hp
      refine ⟨rfl, by rw [List.map_cons, List.map_append]; rfl, fun hties => ?_⟩
      have inside := inside hties
      have after := after hties
      simp only [List.map_cons, List.map_append, List.cons_append, List.append_assoc,
        List.forall_mem_cons, List.forall_mem_append] at inside after ⊢
      refine ⟨?_, inside.1, after.1, inside.2, after.2⟩
      rw [hslot', hslot, hties _ _ _ hc hc']
      rfl
  | component hn hst hc hslot _ _ ih ih' =>
    cases h' with
    | container hk' =>
      rw [nested?_of_acceptsChildren hk'] at hn
      cases hn
    | leaf _ hn' =>
      rw [hf.active_eq, hn] at hn'
      cases hn'
    | component hn' hst' hc' hslot' hin' hrest' =>
      rw [hf.active_eq, hn] at hn'
      cases hn'
      have hdress := setOn_dress_congr hn (hf.head hst hst')
      rw [hf.definition_eq, hdress] at hslot'
      rw [hf.active_eq] at hin'
      obtain ⟨hlen, hlendeep, hin⟩ := ih hin' (.nested _ _ _ _ _)
      obtain ⟨hlen', hlendeep', hrest⟩ := ih' hrest' (hf.mono (walkAll_subset_cons _ _))
      refine ⟨by simp [hlen'], by simp [hlen, hlendeep, hlendeep'], fun ρ hviews hdeep hp => ?_⟩
      simp only [List.map_cons, List.map_append, List.cons.injEq] at hviews hdeep
      obtain ⟨rfl, hviews⟩ := hviews
      obtain ⟨hdeep, hd'⟩ := List.append_inj hdeep (by simp [hlen, hlendeep])
      obtain ⟨hv, hd⟩ := List.append_inj hdeep (by simp [hlen])
      obtain ⟨rfl, rfl, inside⟩ := hin ρ hv hd rfl
      obtain ⟨rfl, rfl, after⟩ := hrest ρ hviews hd' hp
      subst hp
      refine ⟨rfl, by rw [List.map_cons]; rfl, fun hties => ?_⟩
      have inside := inside fun _ _ _ => tied_rename
      have after := after hties
      simp only [List.map_cons, List.cons_append, List.append_assoc,
        List.forall_mem_cons, List.forall_mem_append] at inside after ⊢
      refine ⟨?_, after.1, inside.1, inside.2, after.2⟩
      rw [hslot', hslot, hties _ _ _ hc hc']
      rfl
  | leaf hk hn hst hc hslot _ ih' =>
    cases h' with
    | container hk' =>
      rw [hk] at hk'
      cases hk'
    | component hn' =>
      rw [hf.active_eq, hn] at hn'
      cases hn'
    | leaf _ _ hst' hc' hslot' hrest' =>
      have hdress := dress_congr hn (hf.head hst hst')
      rw [hf.definition_eq, hdress] at hslot'
      obtain ⟨hlen', hlendeep', hrest⟩ := ih' hrest' (hf.mono (walkAll_subset_cons _ _))
      refine ⟨by simp [hlen'], hlendeep', fun ρ hviews hdeep hp => ?_⟩
      simp only [List.map_cons, List.cons.injEq] at hviews
      obtain ⟨rfl, hviews⟩ := hviews
      obtain ⟨rfl, rfl, after⟩ := hrest ρ hviews hdeep hp
      subst hp
      refine ⟨rfl, by rw [List.map_cons]; rfl, fun hties => ?_⟩
      simp only [List.map_cons, List.cons_append, List.forall_mem_cons]
      refine ⟨?_, after hties⟩
      rw [hslot', hslot, hties _ _ _ hc hc']
      rfl

end Same

end Applier

end ViewMarkup
