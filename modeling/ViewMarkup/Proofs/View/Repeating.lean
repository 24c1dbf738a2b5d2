import ViewMarkup.Proofs.View.Echoing
import ViewMarkup.Proofs.View.Renaming
import ViewMarkup.Proofs.View.Targets

/-!
# Applying a definition again

When a definition has been applied to a component, applying it once more right away changes nothing
but identities. Nodes that the component holds as fields are placed again; all other nodes below the
component's node are destroyed, and new ones take their places. Their constraints relate to the new
nodes, and captured constraints are found there.

The renaming is put together from the nodes of the two applications, listed in document order. That
there are as many nodes as before does not follow from it: besides, nothing that the first
application has placed may be left over beside what the second one has placed.

## Main definitions

* `Run.again` — the state in which the next application begins.
* `Applier.Renews` — a definition was applied twice in a row.
* `Applier.Repeats` — an application of a component has repeated the one before it.

## Main statements

* `Applier.Mirrors.revisits`, `Applier.Mirrors.finishes` — what the second application finds.
* `Applier.Mirrors.exists_renews` — the two applications leave the same but for a renaming.
* `Applier.Renews.contains_iff`, `Applier.Renews.size_eq` — the nodes that are alive.
* `Applier.repeats_after_history` — applying a definition again, whatever came before.
-/

namespace ViewMarkup

open Element

variable {H : Type}

/-! ### Counting living nodes -/

namespace ViewTree

variable {t t' : ViewTree H}

/-- A tree in which some nodes have been replaced by as many others is of the same size. -/
lemma size_eq_of_replaced {xs ys : List NodeId} (hx : xs.Nodup) (hy : ys.Nodup)
    (hlen : ys.length = xs.length) (hxs : ∀ x ∈ xs, t.contains x = true)
    (hys : ∀ y ∈ ys, t'.contains y = true)
    (hrest : ∀ z, t'.contains z = true ∧ z ∉ ys ↔ t.contains z = true ∧ z ∉ xs) :
    t'.size = t.size := by
  let rest := t.living.filter (· ∉ xs)
  have hmem : ∀ z, z ∈ rest ↔ t.contains z = true ∧ z ∉ xs := fun z => by
    rw [List.mem_filter, mem_living_iff, decide_eq_true_eq]
  have hn : rest.Nodup := t.nodup_living.filter _
  have hsize : t.size = (xs ++ rest).length := by
    refine size_eq_length (List.nodup_append'.2 ⟨hx, hn, fun z hz hr => ((hmem z).1 hr).2 hz⟩)
      fun z => ?_
    rw [List.mem_append, hmem]
    by_cases hz : z ∈ xs <;> simp [hz, hxs]
  have hsize' : t'.size = (ys ++ rest).length := by
    refine size_eq_length (List.nodup_append'.2 ⟨hy, hn,
      fun z hz hr => ((hrest z).2 ((hmem z).1 hr)).2 hz⟩) fun z => ?_
    rw [List.mem_append, hmem, ← hrest]
    by_cases hz : z ∈ ys <;> simp [hz, hys]
  rw [hsize, hsize', List.length_append, List.length_append, hlen]

end ViewTree

/-! ### Where another application has ended -/

/-- The state in which an application begins where another one has ended. -/
def Run.again (s : Run H) : Run H := { tree := s.tree, fields := s.fields }

namespace Applier

variable {a : Applier H} {t : ViewTree H} {σ : Scene H} {parent : NodeId} {arranged : Bool}
  {es : List Element} {e : Element} {active : List String} {d : Definition} {root : NodeId}
  {ρ : NodeId → NodeId} {ids ids' : List NodeId} {views views' : List PlacedView}
  {deep deep' : List NodeId} {s s' r' : Run H}

/-- The nodes of a scope have what their elements make of what they began with. -/
lemma Shows.exists_start (h : a.Shows t σ parent arranged es ids views deep) :
    ∀ p ∈ views, ∃ start, a.Starts σ p.element start ∧
      (t.get? p.node).map (·.element) = some (a.finish σ.active σ.definition p.element start) := by
  induction h with
  | nil => exact fun _ hp => (List.not_mem_nil hp).elim
  | container hk hst _ hslot _ _ ih ih' =>
    refine List.forall_mem_cons.2 ⟨⟨_, hst, ?_⟩, List.forall_mem_append.2 ⟨ih, ih'⟩⟩
    simp only [ViewTree.get?_of_slot? hslot, finish, nested?_of_acceptsChildren hk]
    rfl
  | component hn hst _ hslot _ _ _ ih' =>
    refine List.forall_mem_cons.2 ⟨⟨_, hst, ?_⟩, ih'⟩
    simp only [ViewTree.get?_of_slot? hslot, finish, hn]
    rfl
  | leaf _ hn hst _ hslot _ ih' =>
    refine List.forall_mem_cons.2 ⟨⟨_, hst, ?_⟩, ih'⟩
    simp only [ViewTree.get?_of_slot? hslot, finish, hn]
    rfl

namespace Mirrors

/-- The views of a scope are those of its elements. -/
lemma elements_eq (M : a.Mirrors active d root ids views deep s s') (S : AreSound d.children) :
    views.map (·.element) = d.elements :=
  M.shows.elements_eq S.children_eq_nil

/-- A field of the definition holds the node of the element that has it. -/
lemma exists_view (M : a.Mirrors active d root ids views deep s s') (S : AreSound d.children)
    {f : String} (hf : f ∈ fieldsOf d.children) :
    ∃ p ∈ views, p.element.field = some f ∧ s'.fields.get? f = some p.node := by
  obtain ⟨e, he, hef⟩ := List.mem_filterMap.1 hf
  rw [← Definition.elements, ← M.elements_eq S] at he
  obtain ⟨p, hp, rfl⟩ := List.mem_map.1 he
  exact ⟨p, hp, hef, M.get?_field p hp f hef⟩

/-- A field of the scope holds one of its views, or one inside. -/
lemma mem_of_get? (M : a.Mirrors active d root ids views deep s s') (S : AreSound d.children)
    {f : String} (hf : f ∈ fieldsOf d.children) {x : NodeId} (hx : s'.fields.get? f = some x) :
    x ∈ views.map (·.node) ++ deep := by
  obtain ⟨p, hp, -, hg⟩ := M.exists_view S hf
  cases hx.symm.trans hg
  exact List.mem_append_left _ (List.mem_map_of_mem hp)

/-- The next application finds a finished visual element where the last one found one to begin with,
or again has to make one. -/
lemma exists_starts (M : a.Mirrors active d root ids views deep s s') (S : AreSound d.children)
    (he : e ∈ d.elements) {v : VisualElement H} (hv : a.Starts (.untied active d s) e v) :
    ∃ w, a.Starts (.untied active d s'.again) e w ∧ (w = v ∨ w = a.finish active d e v) := by
  cases hf : e.field with
  | none =>
    refine ⟨v, ?_, .inl rfl⟩
    unfold Starts at hv ⊢
    rw [hf] at hv ⊢
    exact hv
  | some f =>
    obtain ⟨p, hp, rfl⟩ := List.mem_map.1 ((M.elements_eq S).symm ▸ he)
    obtain ⟨start, hstart, hfinish⟩ := M.shows.exists_start p hp
    obtain rfl : start = v := hv.unique hstart
    refine ⟨_, ?_, .inr rfl⟩
    have hold : (p.element.field.bind (Scene.untied active d s'.again).old) =
        some (a.finish active d p.element start) := by
      rw [hf, Option.bind_some]
      change (s'.fields.get? f).bind _ = _
      rw [M.get?_field p hp f hf]
      exact hfinish
    unfold Starts
    rw [hold]

/-- The fields of a scope are revisited when it is applied again. -/
theorem revisits (ha : a.capabilities = .builtin)
    (M : a.Mirrors active d root ids views deep s s') (S : AreSound d.children) :
    a.Revisits (.untied active d s) (.untied active d s'.again) d.children := by
  intro e he v hv
  obtain ⟨w, hw, rfl | rfl⟩ := M.exists_starts S he hv
  · exact ⟨_, hw, .refl _⟩
  · exact ⟨_, hw, sameSort_finish ha _ _ _ _⟩

/-- Its views are finished as they were. -/
theorem finishes (ha : a.capabilities = .builtin)
    (M : a.Mirrors active d root ids views deep s s') (S : AreSound d.children)
    (views' : List PlacedView) :
    a.Finishes (.of active d s views) (.of active d s'.again views') d.children where
  active_eq := rfl
  definition_eq := rfl
  finish_eq e he v v' hv hv' := by
    obtain ⟨w, hw, hvw⟩ := M.exists_starts S he hv
    obtain rfl : v' = w := hw.unique hv'
    obtain rfl | rfl := hvw
    · rfl
    · exact finish_finish ha _ _ _ _

/-- Its root is of the same sort. -/
lemma sortsAlike (ha : a.capabilities = .builtin)
    (M : a.Mirrors active d root ids views deep s s') : SortsAlike root root s s'.again := by
  intro n hn
  obtain ⟨slot, hslot, rfl⟩ := Option.map_eq_some_iff.1 hn
  have hroot := M.slot?_root
  rw [hslot, Option.map_some] at hroot
  have same := Capabilities.sameSort_setAll .container (a.sheets.resolveRoot d).properties
    slot.node.element
  rw [← ha] at same
  exact ⟨_, ViewTree.get?_of_slot? hroot, same⟩

/-- The node of the component is none of those of its elements. -/
lemma not_mem_root (M : a.Mirrors active d root ids views deep s s') (F : s'.tree.Forest) :
    root ∉ views.map (·.node) ++ deep := fun hm => F.acyclic _ (M.shows.isBelow _ hm)

/-- What is below the node of the component. -/
lemma isBelow_iff (M : a.Mirrors active d root ids views deep s s')
    (K : Keeps root (fieldsOf d.children) s s') (x : NodeId) :
    s'.tree.IsBelow x root ↔ x ∈ views.map (·.node) ++ deep := by
  obtain ⟨slot, hslot⟩ := ViewTree.contains_iff.1 K.holds.contains
  have hroot := M.slot?_root
  rw [hslot] at hroot
  obtain ⟨slot, -, rfl⟩ := Option.map_eq_some_iff.1 hroot.symm
  exact M.shows.isBelow_iff K.holds.forest (ViewTree.children_of_slot? hslot) x

end Mirrors

/-! ### Twice in a row -/

/-- **A definition was applied twice in a row**: the nodes of the second time are those of the first
time, renamed. -/
structure Renews (a : Applier H) (active : List String) (d : Definition) (root : NodeId)
    (ρ : NodeId → NodeId) (ids : List NodeId) (views : List PlacedView) (deep : List NodeId)
    (s s' r' : Run H) : Prop where
  /-- The definition can be applied. -/
  sound : AreSound d.children
  /-- What the first application has left. -/
  first : a.Mirrors active d root ids views deep s s'
  keeps : Keeps root (fieldsOf d.children) s s'
  /-- What the second application has left. -/
  second : a.Mirrors active d root (ids.map ρ) (views.map (·.rename ρ)) (deep.map ρ) s'.again r'
  keeps_again : Keeps root (fieldsOf d.children) s'.again r'
  /-- No other nodes are renamed. -/
  rename_of_not_mem : ∀ x ∉ views.map (·.node) ++ deep, ρ x = x
  /-- The nodes hold the same. -/
  slot?_rename : ∀ x ∈ views.map (·.node) ++ deep,
    r'.tree.slot? (ρ x) = (s'.tree.slot? x).map (·.rename ρ)

/-- Two applications, one right after the other, leave the same but for a renaming. -/
theorem Mirrors.exists_renews (ha : a.capabilities = .builtin) (S : AreSound d.children)
    (M : a.Mirrors active d root ids views deep s s') (K : Keeps root (fieldsOf d.children) s s')
    (M' : a.Mirrors active d root ids' views' deep' s'.again r')
    (K' : Keeps root (fieldsOf d.children) s'.again r') :
    ∃ ρ, a.Renews active d root ρ ids views deep s s' r' := by
  obtain ⟨hlen, hlendeep, same⟩ := M.shows.renamed M'.shows (M.finishes ha S views')
  obtain ⟨ρ, hmap, hkeep⟩ : ∃ ρ : NodeId → NodeId,
      (views.map (·.node) ++ deep).map ρ = views'.map (·.node) ++ deep' ∧
        ∀ x ∉ views.map (·.node) ++ deep, ρ x = x :=
    ⟨_, map_matching M.nodup (by simp [hlen, hlendeep]), fun _ => matching_of_not_mem⟩
  rw [List.map_append] at hmap
  obtain ⟨hviews, rfl⟩ := List.append_inj hmap (by simp [hlen])
  have hroot : ρ root = root := hkeep _ (M.not_mem_root K.holds.forest)
  obtain ⟨rfl, rfl, slots⟩ := same ρ hviews.symm rfl hroot.symm
  exact ⟨ρ,
    { sound := S
      first := M
      keeps := K
      second := M'
      keeps_again := K'
      rename_of_not_mem := hkeep
      slot?_rename := slots fun _ _ _ => tied_rename }⟩

/-- Renaming the views of a scope renames its nodes. -/
lemma nodes_rename (ρ : NodeId → NodeId) (views : List PlacedView) (deep : List NodeId) :
    (views.map (·.rename ρ)).map (·.node) ++ deep.map ρ = (views.map (·.node) ++ deep).map ρ := by
  rw [List.map_append, List.map_map, List.map_map]
  rfl

namespace Renews

variable (T : a.Renews active d root ρ ids views deep s s' r')

include T

/-- The nodes of fields are not renamed. -/
lemma rename_field {f : String} {id : NodeId} (hf : s'.fields.get? f = some id) : ρ id = id := by
  by_cases hm : f ∈ fieldsOf d.children
  · obtain ⟨p, hp, hpf, hg⟩ := T.first.exists_view T.sound hm
    cases hf.symm.trans hg
    have hagain := T.second.get?_field (p.rename ρ) (List.mem_map_of_mem hp) f hpf
    exact Option.some.inj (hagain.symm.trans (T.keeps_again.fields_mono f _ hf))
  · exact T.rename_of_not_mem _ (T.first.shows.not_mem_of_isLoose (T.keeps.isLoose f hm _ hf))

/-- Fields hold what they held. -/
lemma get?_fields_eq (f : String) : r'.fields.get? f = s'.fields.get? f := by
  refine Option.ext fun id => ⟨fun hg => ?_, T.keeps_again.fields_mono f id⟩
  by_cases hm : f ∈ fieldsOf d.children
  · obtain ⟨p, hp, hpf, hg'⟩ := T.first.exists_view T.sound hm
    rw [← hg, T.keeps_again.fields_mono f _ hg']
    exact hg'
  · exact T.keeps_again.get?_of_not_mem f hm id hg

/-- The root is not renamed. -/
lemma rename_root : ρ root = root :=
  T.rename_of_not_mem _ (T.first.not_mem_root T.keeps.holds.forest)

/-- The renamed nodes are different. -/
lemma nodup_map : ((views.map (·.node) ++ deep).map ρ).Nodup :=
  nodes_rename ρ views deep ▸ T.second.nodup

/-- What is below the node of the component after the second time. -/
lemma isBelow_again (x : NodeId) :
    r'.tree.IsBelow x root ↔ x ∈ (views.map (·.node) ++ deep).map ρ := by
  rw [← nodes_rename]
  exact T.second.isBelow_iff T.keeps_again x

/-- The node of the component holds the same, and its children are renamed. -/
lemma slot?_root (ha : a.capabilities = .builtin) :
    r'.tree.slot? root = (s'.tree.slot? root).map fun slot =>
      { slot with children := slot.children.map ρ } := by
  have hfirst := T.first.slot?_root
  have hsecond := T.second.slot?_root
  change _ = (s'.tree.slot? root).map _ at hsecond
  rw [hsecond, hfirst, Option.map_map, Option.map_map]
  refine Option.map_congr fun slot _ => ?_
  simp only [Function.comp_apply, setOn_setOn ha]

/-- Nodes that are neither the component's node nor below it are as they were. -/
lemma slot?_eq {x : NodeId} (hx : s'.tree.contains x = true) (hne : x ≠ root)
    (hb : ¬ s'.tree.IsBelow x root) : r'.tree.slot? x = s'.tree.slot? x :=
  T.keeps_again.slot?_eq x hx hne hb fun _ hf hg =>
    hb (T.first.shows.isBelow x (T.first.mem_of_get? T.sound hf hg))

/-- What is alive after the second time and not among the nodes placed was alive before, and was not
among them then. -/
theorem contains_iff (x : NodeId) :
    r'.tree.contains x = true ∧ x ∉ (views.map (·.node) ++ deep).map ρ ↔
      s'.tree.contains x = true ∧ x ∉ views.map (·.node) ++ deep := by
  have below := T.first.isBelow_iff T.keeps
  have below' := T.isBelow_again
  constructor
  · rintro ⟨hx, hm⟩
    obtain hb | ⟨hx, hv⟩ := T.keeps_again.below_of_contains x hx
    · exact absurd ((below' x).1 hb) hm
    · refine ⟨hx, fun hx' => hm ?_⟩
      -- It was left over when everything below was taken apart, so a field holds it.
      obtain ⟨⟨f, id⟩, he, rfl⟩ := List.mem_map.1 (hv ((below x).2 hx'))
      have hf := Table.get?_of_mem_entries T.keeps.holds.nodup_keys he
      exact List.mem_map.2 ⟨id, hx', T.rename_field hf⟩
  · rintro ⟨hx, hm⟩
    by_cases hne : x = root
    · subst hne
      exact ⟨T.keeps_again.holds.contains, fun hm' =>
        T.keeps_again.holds.forest.acyclic _ ((below' x).2 hm')⟩
    · have hb : ¬ s'.tree.IsBelow x root := fun hb => hm ((below x).1 hb)
      refine ⟨?_, fun hm' => ?_⟩
      · rw [ViewTree.contains_congr (T.slot?_eq hx hne hb)]
        exact hx
      · obtain hb' | ⟨f, hf, hg⟩ := T.second.source x (nodes_rename ρ views deep ▸ hm') hx
        · exact hb hb'
        · exact hm (T.first.mem_of_get? T.sound hf hg)

/-- There are as many nodes as before. -/
theorem size_eq : r'.tree.size = s'.tree.size :=
  ViewTree.size_eq_of_replaced T.first.nodup T.nodup_map (List.length_map _)
    (fun x hx => ((T.first.isBelow_iff T.keeps x).2 hx).contains)
    (fun x hx => ((T.isBelow_again x).2 hx).contains) T.contains_iff

end Renews

/-! ### Captured constraints -/

/-- The constraints that an application captures are those of its scope. -/
lemma exists_rebuilt [Widget H] {top : ScopeRoot} {captured : Table String ConstraintHandle}
    (h : a.applyScope active top d s = .ok captured s') :
    ∃ rebuilt, allConstraints d.typeName s'.placed = .ok rebuilt ∧
      captured = capturedOf rebuilt := by
  rw [applyScope] at h
  obtain ⟨_, s₁, _, h⟩ := Live.bind_eq_ok.1 h
  obtain ⟨_, s₂, _, h⟩ := Live.bind_eq_ok.1 h
  unfold constrain at h
  cases hr : allConstraints d.typeName s₂.placed with
  | error e =>
    rw [hr] at h
    cases h
  | ok rebuilt =>
    rw [hr] at h
    cases h
    exact ⟨rebuilt, hr, rfl⟩

/-- A captured constraint is one of a node of the scope. -/
lemma mem_of_capturedOf {rebuilt : List (NodeId × List LiveConstraint)} {name : String}
    {handle : ConstraintHandle} (h : (capturedOf rebuilt).get? name = some handle) :
    handle.node ∈ rebuilt.map (·.1) := by
  obtain ⟨entry, he, -, rfl⟩ | h := Table.exists_of_get?_foldl_insert h
  · obtain ⟨⟨id, cs⟩, hm, he⟩ := List.mem_flatMap.1 he
    obtain ⟨c, -, he⟩ := List.mem_filterMap.1 he
    obtain ⟨name, -, rfl⟩ := Option.map_eq_some_iff.1 he
    exact List.mem_map.2 ⟨_, hm, rfl⟩
  · cases h

/-- What is found under the name of a captured constraint follows a renaming of its node. -/
lemma captured?_rename {b b' : Binding} {t t' : ViewTree H}
    (hcaptured : b'.captured = b.captured.map (·.rename ρ))
    (hslot : ∀ name handle, b.captured.get? name = some handle →
      t'.slot? (ρ handle.node) = (t.slot? handle.node).map (·.rename ρ)) (name : String) :
    b'.captured? t' name = (b.captured? t name).map (·.rename ρ) := by
  unfold Binding.captured?
  rw [hcaptured, Table.get?_map]
  cases hg : b.captured.get? name with
  | none => rfl
  | some handle =>
    simp only [Option.map_some, Option.bind_some, ConstraintHandle.rename, ViewTree.get?,
      hslot name handle hg]
    cases t.slot? handle.node with
    | none => rfl
    | some slot => exact List.getElem?_map

/-! ### A component -/

/-- **An application has repeated another one**, right after which it was made: it has left the
same, up to a renaming of nodes that are not held by fields of the component. -/
structure Repeats (ρ : NodeId → NodeId) (b b' : Binding) (t t' : ViewTree H)
    (report report' : ApplyReport) : Prop where
  definitions_eq : report'.definitions = report.definitions
  warnings_eq : report'.warnings = report.warnings
  /-- The same names are reported, in the same order, with their nodes renamed. -/
  named_eq : report'.named = report.named.map ρ
  /-- The component has the same node, which is not renamed. -/
  node_eq : b'.node = b.node
  rename_node : ρ b.node = b.node
  /-- Its fields hold the same nodes. -/
  get?_fields_eq : ∀ f, b'.fields.get? f = b.fields.get? f
  /-- None of these is renamed. -/
  rename_field : ∀ f id, b.fields.get? f = some id → ρ id = id
  /-- Different nodes below the component's node stay different. -/
  injOn : Set.InjOn ρ {x | t.IsBelow x b.node}
  /-- The nodes below it are the renamed ones. -/
  isBelow_iff : ∀ y, t'.IsBelow y b.node ↔ ∃ x, t.IsBelow x b.node ∧ ρ x = y
  /-- The node itself holds what it held, and has the renamed children in the same order. -/
  slot?_node : t'.slot? b.node = (t.slot? b.node).map fun slot =>
    { slot with children := slot.children.map ρ }
  /-- What is below holds the same, with all identities renamed, at the renamed place. -/
  slot?_rename : ∀ x, t.IsBelow x b.node →
    t'.slot? (ρ x) = (t.slot? x).map (·.rename ρ)
  /-- All else is as it was. -/
  slot?_eq : ∀ x, t.contains x = true → x ≠ b.node → ¬ t.IsBelow x b.node → t'.slot? x = t.slot? x
  /-- There are as many nodes. -/
  size_eq : t'.size = t.size
  /-- The same constraints are captured, in renamed nodes. -/
  captured_eq : b'.captured = b.captured.map (·.rename ρ)
  /-- What is found under a name is the same, and relates to the renamed node. -/
  captured?_eq : ∀ name, b'.captured? t' name = (b.captured? t name).map (·.rename ρ)

section Component

variable [Widget H] {t t' : ViewTree H} {b b' : Binding} {report : ApplyReport}

/-- What applying a definition gives if its scope could be applied. -/
lemma apply_of_ok {captured : Table String ConstraintHandle}
    (h : a.applyScope [d.typeName] ⟨b.node, b.typeName, b.adopts⟩ d
      { tree := t, fields := b.fields } = .ok captured s') :
    a.apply t b d =
      (.ok ⟨s'.placed.foldl (fun t p => t.insert p.element.name p.node) {}, s'.warnings,
        s'.definitions⟩, s'.tree, { b with fields := s'.fields, captured }) := by
  rw [apply, h]

/-- **Applying a definition again changes nothing but identities**, in a component that creates its
fields. -/
theorem repeats_apply (hbuiltin : a.capabilities = .builtin) (ha : a.KnowsParsed) (hd : d.IsParsed)
    (hadopts : b.adopts = true) (h : Holds b.node t b.fields)
    (hr : a.apply t b d = (.ok report, t', b')) :
    ∃ ρ report' t'' b'', a.apply t' b' d = (.ok report', t'', b'') ∧
      Repeats ρ b' b'' t' t'' report report' := by
  have hlib : ∀ name d, a.library.get? name = some d → AreSound d.children := fun name d' hn =>
    (ha name d' hn).areSound
  let top : ScopeRoot := ⟨b.node, b.typeName, b.adopts⟩
  have meets := a.applyScope_meets [d.typeName] top d hlib
  unfold apply at hr
  split at hr
  swap
  · cases hr
  next captured s' hs =>
  cases hr
  obtain ⟨K, ids, views, deep, M⟩ := (meets _ hd.areSound rfl h).of_ok hs
  obtain ⟨captured', r', hr', hA⟩ := a.applyScope_echoes hbuiltin hlib [d.typeName] top d top _
    s'.again hadopts hd.areSound h K.holds (M.sortsAlike hbuiltin) (M.revisits hbuiltin hd.areSound)
    ⟨rfl, rfl, rfl⟩ captured s' hs
  obtain ⟨K', ids', views', deep', M'⟩ := (meets s'.again hd.areSound rfl K.holds).of_ok hr'
  obtain ⟨ρ, T⟩ := M.exists_renews hbuiltin hd.areSound K M' K'
  obtain ⟨rebuilt, hrebuilt, rfl⟩ := exists_rebuilt hs
  obtain ⟨rebuilt', hrebuilt', rfl⟩ := exists_rebuilt hr'
  have below := M.isBelow_iff K
  have hcaptured : capturedOf rebuilt' = (capturedOf rebuilt).map (·.rename ρ) := by
    rw [M.placed_eq] at hrebuilt
    rw [T.second.placed_eq, allConstraints_rename, hrebuilt] at hrebuilt'
    cases hrebuilt'
    exact capturedOf_rename ρ rebuilt
  refine ⟨ρ, ⟨r'.placed.foldl (fun t p => t.insert p.element.name p.node) {}, r'.warnings,
    r'.definitions⟩, r'.tree, { b with fields := r'.fields, captured := capturedOf rebuilt' }, ?_,
    { definitions_eq := hA.definitions_eq
      warnings_eq := hA.warnings_eq
      named_eq := ?_
      node_eq := rfl
      rename_node := T.rename_root
      get?_fields_eq := T.get?_fields_eq
      rename_field := fun f id => T.rename_field
      injOn := fun x hx y hy =>
        List.inj_on_of_nodup_map T.nodup_map ((below x).1 hx) ((below y).1 hy)
      isBelow_iff := fun y => ?_
      slot?_node := T.slot?_root hbuiltin
      slot?_rename := fun x hx => T.slot?_rename x ((below x).1 hx)
      slot?_eq := fun x => T.slot?_eq
      size_eq := T.size_eq
      captured_eq := hcaptured
      captured?_eq := fun name => ?_ }⟩
  · exact apply_of_ok hr'
  · change r'.placed.foldl _ _ = Table.map ρ (s'.placed.foldl _ _)
    rw [Table.map_foldl_insert, T.second.placed_eq, M.placed_eq, List.foldl_map]
    rfl
  · rw [T.isBelow_again, List.mem_map]
    exact exists_congr fun x => and_congr_left' (below x).symm
  · refine captured?_rename hcaptured (fun name handle hg => T.slot?_rename _ ?_) name
    have hkeys := (allConstraints_spec hrebuilt).1
    rw [M.placed_eq] at hkeys
    exact List.mem_append_left _ (hkeys ▸ mem_of_capturedOf hg)

/-! ### Any history -/

/-- Applying a definition leaves it as it is whether a component adopts. -/
lemma adopts_apply (a : Applier H) (t : ViewTree H) (b : Binding) (d : Definition) :
    (a.apply t b d).2.2.adopts = b.adopts := by
  unfold apply
  split <;> rfl

/-- So do several. -/
lemma adopts_applyEach (t : ViewTree H) (b : Binding) (steps : List (Applier H × Definition)) :
    (applyEach t b steps).2.adopts = b.adopts := by
  induction steps generalizing t b with
  | nil => rfl
  | cons step steps ih => exact (ih _ _).trans (adopts_apply step.1 t b step.2)

/-- **Applying a definition again changes nothing but identities, whatever came before.** A
component that creates its fields begins without any on a living node of a tree whose links fit
together, and undergoes any applications of definitions that come from documents, each of which may
fail. If then a definition is applied on a host that has what is built in, and that succeeds, it can
be applied again at once. The second application gives the same warnings, applies the same
definitions and reports the same names. The tree has as many nodes as before, and what is below the
component's node is the same up to a renaming. Nodes that the component holds as fields are not
renamed; components inside hold no fields from one application to the next, so the nodes of their
elements are new.

**Proof sketch.** The second application finds finished visual elements where the first one found
those to begin with, and these are of the same sort; so it goes as the first one
(`applyScope_echoes`). Both leave a tree that shows the definition, and what is finished once more
is not changed any more, so that the nodes hold the same but for their identities (`Shows.renamed`).
Of what the first application had placed no nodes are left but those that the second one places
again (`Renews.contains_iff`). -/
theorem repeats_after_history {node : NodeId} (typeName : String) (F : t.Forest)
    (hnode : t.contains node = true) (steps : List (Applier H × Definition))
    (hsteps : ∀ step ∈ steps, step.1.KnowsParsed ∧ step.2.IsParsed)
    (hbuiltin : a.capabilities = .builtin) (ha : a.KnowsParsed) (hd : d.IsParsed)
    {t₁ t₂ : ViewTree H} {b₁ b₂ : Binding}
    (h₁ : applyEach t (.adopting node typeName) steps = (t₁, b₁))
    (h₂ : a.apply t₁ b₁ d = (.ok report, t₂, b₂)) :
    ∃ ρ report' t₃ b₃, a.apply t₂ b₂ d = (.ok report', t₃, b₃) ∧
      Repeats ρ b₂ b₃ t₂ t₃ report report' := by
  obtain ⟨hnode₁, hholds⟩ :=
    holds_applyEach (b := .adopting node typeName) steps hsteps (.start F hnode)
  have hadopts := adopts_applyEach t (.adopting node typeName) steps
  rw [h₁] at hnode₁ hholds hadopts
  exact repeats_apply hbuiltin ha hd hadopts (hnode₁ ▸ hholds) h₂

end Component

/-- A host that has what is built in and nothing else. -/
def builtinHost : Applier Empty where
  capabilities := .builtin
  sheets := {}

/-- Nothing obstructs the tethered component. -/
lemma not_obstructed_tethered :
    ¬ builtinHost.Obstructed true ["A"] (tethered (tether 1.0 0.0)) := by
  have labels : ∀ e ∈ (tethered (tether 1.0 0.0)).elements, e.kind = .label ∧
      ∀ c ∈ e.layout.constraints, c.target.IsFound (tethered (tether 1.0 0.0)).elements := by
    intro e he
    simp only [tethered, Definition.elements, walkAll, walk, List.append_nil, List.cons_append,
      List.nil_append, List.mem_cons, List.not_mem_nil, or_false] at he
    obtain rfl | rfl := he
    · refine ⟨rfl, fun c hc => ?_⟩
      rw [List.mem_singleton.1 hc]
      exact ⟨_, List.mem_cons_of_mem _ List.mem_cons_self, .inr rfl⟩
    · exact ⟨rfl, fun c hc => (List.not_mem_nil hc).elim⟩
  intro h
  cases h with
  | element he hr =>
    obtain ⟨h, -⟩ | ⟨error, hc⟩ := hr
    · cases h
    · have hk := (labels _ he).1
      rw [create_builtin (a := builtinHost) rfl fun h => by rw [hk] at h; cases h] at hc
      cases hc
  | target he hc hf => exact hf ((labels _ he).2 _ hc)
  | nested he hn _ =>
    rw [nested?, (labels _ he).1] at hn
    cases hn

/-- A label that the component holds is there again when the component is applied again, and its
constraint relates to the new label. -/
theorem repeats_tethered : ∃ report t₂ b₂ ρ report' t₃ b₃,
    builtinHost.apply labelledOnce.1 labelledOnce.2 (tethered (tether 1.0 0.0)) =
      (.ok report, t₂, b₂) ∧
    builtinHost.apply t₂ b₂ (tethered (tether 1.0 0.0)) = (.ok report', t₃, b₃) ∧
    Repeats ρ b₂ b₃ t₂ t₃ report report' := by
  have known : labelHost.KnowsParsed := fun name d hn => by cases hn
  have known' : builtinHost.KnowsParsed := fun name d hn => by cases hn
  have F := ViewTree.Forest.empty.insert ({ element := .generic (.wrapper "A") } : ViewNode Empty)
  have alive : (({} : ViewTree Empty).insert { element := .generic (.wrapper "A") }).2.contains
    ⟨0⟩ = true := rfl
  have steps : ∀ step ∈ [(labelHost, labelled)], step.1.KnowsParsed ∧ step.2.IsParsed := by
    simp [isParsed_labelled, known]
  rcases h : builtinHost.apply labelledOnce.1 labelledOnce.2 (tethered (tether 1.0 0.0))
    with ⟨error | report, t₂, b₂⟩
  · obtain ⟨hnode, holds⟩ := holds_applyEach (b := .adopting ⟨0⟩ "A") _ steps (.start F alive)
    have obstructed := obstructed_of_apply known' isParsed_tethered (hnode.symm ▸ holds) h
    rw [labelledOnce, adopts_applyEach] at obstructed
    exact (not_obstructed_tethered obstructed).elim
  · obtain ⟨ρ, report', t₃, b₃, hagain, hrepeats⟩ := repeats_after_history (a := builtinHost) "A" F
      alive _ steps rfl known' isParsed_tethered rfl h
    exact ⟨report, t₂, b₂, ρ, report', t₃, b₃, rfl, hagain, hrepeats⟩

end Applier

end ViewMarkup
