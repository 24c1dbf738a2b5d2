import ViewMarkup.Proofs.Document.InPlace
import ViewMarkup.Proofs.Session.Bookkeeping
import ViewMarkup.Proofs.Session.Dependencies
import ViewMarkup.Proofs.Session.Origins
import ViewMarkup.Proofs.Session.Searching
import ViewMarkup.Proofs.View.Reserve
import ViewMarkup.Proofs.View.Undoing

/-!
# Roots that cannot be made

A root of a loaded type is made in steps: its node comes into the tree, it is registered, and its
definition is applied. Each of the steps may fail, the last one after any part of the definition has
been applied. Then all is undone: the root leaves again, and its node is removed with all below it. The
session goes on as if nothing had been asked for, but for its errors and the changes that wait.

## Design

A host may do anything to the tree of a session, but by the operations that a tree offers. So the
sessions here are those in which a host has only left behind trees that it came to by these.

## Main definitions

* `ViewTree.Becomes` — what a host can make of a tree.
* `Session.Tended` — a session came about by requests of a host that changes trees in this way.
* `Session.Joined`, `Session.Resumes` — a root has joined a session, and has left it again.

## Main statements

* `Session.Tended.forest` — the links of the tree always fit together.
* `Session.Arises.isParsed` — all that is stored was read from documents.
* `Session.Joined.resumes` — a root that leaves takes with it all that came with it.
* `Session.instantiate_undone` — a root that cannot be made leaves nothing behind.
-/

namespace ViewMarkup

variable {H : Type}

/-! ### What a host does to a tree -/

/-- **What a host can make of a tree** by edits and by changing nodes, or of an empty one that it puts
in its place. -/
inductive ViewTree.Becomes (t : ViewTree H) : ViewTree H → Prop where
  /-- The tree stays. -/
  | same : t.Becomes t
  /-- Another tree begins. -/
  | fresh : t.Becomes {}
  /-- One more edit. -/
  | edit {t' : ViewTree H} (e : TreeEdit H) : t.Becomes t' → t.Becomes (t'.edit e)
  /-- One more node is changed. -/
  | modify {t' : ViewTree H} (id : NodeId) (f : ViewNode H → ViewNode H) :
      t.Becomes t' → t.Becomes (t'.modify id f)

/-- The links of a tree fit together, whatever a host makes of it. -/
theorem ViewTree.Becomes.forest {t t' : ViewTree H} (h : t.Becomes t') (F : t.Forest) : t'.Forest := by
  induction h with
  | same => exact F
  | fresh => exact .empty
  | edit e _ ih => exact ih.edit e
  | modify id f _ ih => exact ih.modify id f

namespace Session

variable {s s' : Session H} {w : World}

/-- **A session came about by requests**, in which a host has changed the tree by its operations alone,
by roots leaving whose nodes are gone, and by watchers looking at their files. -/
inductive Tended [Widget H] : Session H → Prop where
  /-- A new session. -/
  | new (settings : Settings) (capabilities : Capabilities H) : Tended { settings, capabilities }
  /-- One more request. -/
  | serve {s : Session H} (request : SessionRequest H)
      (hedit : ∀ tree, request = .edit tree → s.tree.Becomes tree) :
      Tended s → Tended (s.serve request).2
  /-- Roots leave whose nodes are gone. -/
  | prune {s : Session H} : Tended s → Tended s.prune
  /-- Every watcher looks at its file. -/
  | poll {s : Session H} (files : Directory) : Tended s → Tended (s.poll files)
  /-- Other changes wait. -/
  | requeue {s : Session H} (queue : List Path) : Tended s → Tended { s with queue }

/-- A session that was tended arose. -/
lemma Tended.arises [Widget H] (h : s.Tended) : s.Arises := by
  induction h with
  | new settings capabilities => exact .new settings capabilities
  | serve request _ _ ih => exact ih.serve request
  | prune _ ih => exact ih.prune
  | poll files _ ih => exact ih.poll files
  | requeue queue _ ih => exact ih.requeue queue

/-! ### The tree of a session -/

/-- Loading leaves the tree as it is. -/
lemma tree_load? {path : Path} {loaded : Session H} (h : s.load? w path = some (.ok loaded)) :
    loaded.tree = s.tree := by
  unfold load? at h
  split at h
  · have h := Option.some.inj h
    unfold loadStyles at h
    split at h <;> cases h
    rfl
  · split at h
    · have h := Option.some.inj h
      unfold loadDocument at h
      split at h <;> cases h
      rfl
    · cases h

section Forest

variable [Widget H]

/-- Applying a root keeps the links of the tree, whether it succeeds or fails. -/
lemma forest_applyRoot (F : s.tree.Forest) (id : RootId) : (s.applyRoot id).2.tree.Forest := by
  unfold applyRoot
  split
  · exact F
  · next r _ =>
    unfold applyTo
    simp only
    split
    · exact F
    · next stored _ =>
      split <;> exact (s.applier.apply_keeps_rest F r.binding stored.definition).1

/-- Attempts keep the tree a forest. -/
lemma forest_attemptAll (F : s.tree.Forest) (es : List (RootId × Path)) :
    (s.attemptAll es).2.tree.Forest := by
  induction es generalizing s with
  | nil => exact F
  | cons e es ih =>
    have h := forest_applyRoot F e.1
    refine ih (s := (s.attempt e.1 e.2).2) ?_
    unfold attempt
    split <;> next hs => rwa [hs] at h

/-- Handling a change keeps the tree a forest. -/
lemma forest_handle (F : s.tree.Forest) (w : World) (path : Path) :
    (s.handle w path).2.tree.Forest := by
  have hpruned : s.prune.tree.Forest := by
    rw [prune_only]
    exact F
  cases hl : s.prune.load? w path with
  | none =>
    rw [handle_of_load?_eq_none hl]
    exact hpruned
  | some result =>
    cases result with
    | error e =>
      rw [handle_of_load?_eq_error hl]
      exact hpruned
    | ok loaded =>
      rw [handle_of_load?_eq_ok hl]
      exact forest_attemptAll (s := loaded.markSound path) ((tree_load? hl).symm ▸ hpruned) _

/-- Making a component keeps the tree a forest. -/
lemma forest_instantiate (F : s.tree.Forest) (w : World) (typeName : String) :
    (s.instantiate w typeName).2.tree.Forest := by
  refine instantiate_induction (P := fun s => s.tree.Forest) w typeName F (fun _ node F => F.insert node)
    (fun s b F => ?_) (fun _ id _ _ F => forest_applyRoot F id) (fun s id F => ?_)
    fun _ id F => F.remove id
  · rw [register_only]
    exact F
  · rw [unregister_only]
    exact F

/-- Every request keeps the tree a forest. -/
lemma forest_serve (F : s.tree.Forest) (request : SessionRequest H)
    (hedit : ∀ tree, request = .edit tree → s.tree.Becomes tree) :
    (s.serve request).2.tree.Forest := by
  cases request with
  | register w b path? =>
    change (s.register w b path?).2.tree.Forest
    rw [register_only]
    exact F
  | unregister id =>
    change (s.unregister id).2.tree.Forest
    rw [unregister_only]
    exact F
  | discover w dir =>
    change (s.discover w dir).2.tree.Forest
    rw [discover_only]
    exact F
  | instantiate w typeName => exact forest_instantiate F w typeName
  | edit tree => exact (hedit tree rfl).forest F
  | provide capabilities => exact F
  | handle w path => exact forest_handle F w path
  | watchStyles w path =>
    exact watchStyles_induction (P := fun s => s.tree.Forest) w path F (fun _ => F) (fun _ => F)
      fun _ F => forest_handle F w path

/-- **The links of the tree always fit together.** -/
theorem Tended.forest (h : s.Tended) : s.tree.Forest := by
  induction h with
  | new => exact .empty
  | serve request hedit _ ih => exact forest_serve ih request hedit
  | prune _ ih =>
    rw [prune_only]
    exact ih
  | poll _ _ ih => exact ih
  | requeue _ _ ih => exact ih

end Forest

/-! ### Where stored definitions were read -/

/-- What is loaded was read. -/
lemma readDefinition_of_mem_loads {request : SessionRequest H} {e : Path × Definition}
    (h : e ∈ s.loads request) : ∃ w : World, w.readDefinition e.1 = .ok e.2 := by
  cases request with
  | handle w path =>
    rw [loads] at h
    split at h
    · cases h
    · obtain ⟨d, hd, rfl⟩ := List.mem_map.1 h
      exact ⟨w, Except.toOption_eq_some.1 (Option.mem_toList.1 hd)⟩
  | discover w dir =>
    obtain ⟨-, -, -, -, hread, -⟩ := mem_loads_discover.1 h
    exact ⟨w, hread⟩
  | _ => cases h

/-- A definition that was read from a file was parsed. -/
lemma isParsed_of_readDefinition {path : Path} {d : Definition}
    (h : w.readDefinition path = .ok d) : d.IsParsed := by
  unfold World.readDefinition at h
  split at h
  · cases h
  · split at h <;> cases h
    next hd => exact (Definition.isParsed_of_ofText hd).1

/-- Every definition in a session was parsed and loaded at some time. -/
lemma Arises.stems [Widget H] (h : s.Arises) :
    ∃ loads : List DefinitionLoad, (∀ load ∈ loads, load.definition.IsParsed) ∧
      s.definitions.Stems loads := by
  induction h with
  | new => exact ⟨[], fun _ hl => (List.not_mem_nil hl).elim, fun _ _ _ hs => nomatch hs⟩
  | @serve s request hs ih =>
    obtain ⟨loads, hloads, hstems⟩ := ih
    refine ⟨_, fun load hl => ?_, stems_serve hs.tidy.noted hstems request⟩
    obtain hl | hl := List.mem_append.1 hl
    · exact hloads load hl
    · obtain ⟨e, he, rfl⟩ := List.mem_map.1 hl
      obtain ⟨w, hread⟩ := readDefinition_of_mem_loads he
      exact isParsed_of_readDefinition hread
  | prune hs ih =>
    obtain ⟨loads, hloads, hstems⟩ := ih
    exact ⟨loads, hloads, hstems.mono (source?_prune hs.tidy.noted)⟩
  | poll _ _ ih => exact ih
  | requeue _ _ ih => exact ih

/-- **All that is stored was read from documents.** -/
theorem Arises.isParsed [Widget H] (h : s.Arises) {name : String} {e : StoredDefinition}
    (he : s.definitions.get? name = some e) : e.definition.IsParsed := by
  obtain ⟨loads, hloads, hstems⟩ := h.stems
  obtain ⟨before, load, after, rfl, -, hd, -⟩ := hstems name e.definition e.path
    (by rw [DefinitionStore.source?, he, Option.map_some])
  exact (hloads load (List.mem_append_right _ List.mem_cons_self)).of_mem_definitions hd

/-- The definitions that are applied were parsed. -/
lemma Arises.knowsParsed [Widget H] (h : s.Arises) : s.applier.KnowsParsed := by
  intro name d hd
  change s.definitions.definitions.get? name = some d at hd
  rw [DefinitionStore.get?_definitions] at hd
  obtain ⟨e, he, rfl⟩ := Option.map_eq_some_iff.1 hd
  exact h.isParsed he

/-! ### A root that joins and leaves -/

/-- **A root has joined a session**: it is registered and bound to a document, which is watched for it
as well. Nothing else has changed but the tree, the errors and the changes that wait. -/
structure Joined (s : Session H) (id : RootId) (path : Path) (s' : Session H) : Prop where
  /-- The root is new. -/
  fresh : s.roots.get? id = none
  /-- It is bound to the document. -/
  path_eq : (s'.roots.get? id).map (·.path) = some path
  /-- Other roots are as they were. -/
  get?_roots : ∀ id', id' ≠ id → s'.roots.get? id' = s.roots.get? id'
  /-- The document is watched for the root, after others if it was watched before. -/
  watched : ∃ watch : DocumentWatch, s'.documents.get? path.key =
      some { watch with subscribers := watch.subscribers ++ [id] } ∧
    (s.documents.get? path.key = some watch ∨
      s.documents.get? path.key = none ∧ watch.subscribers = [])
  /-- Other documents are as they were. -/
  get?_documents : ∀ key, key ≠ path.key → s'.documents.get? key = s.documents.get? key
  /-- So is all else. -/
  only : s' = { s with
    tree := s'.tree
    roots := s'.roots
    documents := s'.documents
    diagnostics := s'.diagnostics
    queue := s'.queue }

/-- **A session goes on as before**, up to its tree, its errors and the changes that wait. -/
structure Resumes (s s' : Session H) : Prop where
  /-- The roots are those that were registered, and as they were. -/
  get?_roots : ∀ id, s'.roots.get? id = s.roots.get? id
  /-- The documents are those that were watched, and for the same roots. -/
  get?_documents : ∀ key, s'.documents.get? key = s.documents.get? key
  /-- So is all else. -/
  only : s' = { s with
    tree := s'.tree
    roots := s'.roots
    documents := s'.documents
    diagnostics := s'.diagnostics
    broken := s'.broken
    queue := s'.queue }

/-- A session resumes as it is. -/
lemma Resumes.refl (s : Session H) : s.Resumes s := ⟨fun _ => rfl, fun _ => rfl, rfl⟩

/-- The trees do not matter. -/
lemma Resumes.retree {tree : ViewTree H} (h : Resumes { s with tree } s') (tree' : ViewTree H) :
    s.Resumes { s' with tree := tree' } :=
  ⟨h.get?_roots, h.get?_documents, by rw [h.only]⟩

/-- A document is watched when a root comes that is bound to it. -/
lemma watchDocument_cases {path : Path} (h : s.watchDocument w path = (.ok (), s')) :
    ∃ watch : DocumentWatch, s'.documents.get? path.key = some watch ∧
      (s.documents.get? path.key = some watch ∨
        s.documents.get? path.key = none ∧ watch.subscribers = []) ∧
      (∀ key, key ≠ path.key → s'.documents.get? key = s.documents.get? key) ∧
      s' = { s with documents := s'.documents } := by
  unfold watchDocument at h
  split at h
  · next hc =>
    cases h
    obtain ⟨watch, hw⟩ := Option.isSome_iff_exists.1 hc
    exact ⟨watch, hw, .inl hw, fun _ _ => rfl, rfl⟩
  · next hc =>
    split at h <;> cases h
    refine ⟨_, (Table.get?_insert ..).trans (if_pos rfl), .inr ⟨?_, rfl⟩, fun key hk => ?_, rfl⟩
    · exact Option.not_isSome_iff_eq_none.1 hc
    · exact (Table.get?_insert ..).trans (if_neg hk.symm)

/-- A root is registered for the document that its type was loaded from. -/
lemma joined_register (hn : Noted s []) {b : Binding} {id : RootId}
    (h : s.register w b none = (.ok id, s')) :
    ∃ e, s.definitions.get? b.typeName = some e ∧
      (s'.roots.get? id).map (·.binding) = some b ∧ s.Joined id e.path s' := by
  unfold register at h
  split at h
  · cases h
  next path hpath =>
  obtain ⟨e, he, rfl⟩ := Option.map_eq_some_iff.1 (Option.none_or.symm.trans hpath)
  split at h
  · cases h
  next s₁ hw =>
  cases h
  obtain ⟨watch, hwatch, hold, hothers, hs₁⟩ := watchDocument_cases hw
  have hroots : s₁.roots = s.roots := by rw [hs₁]
  have root : (s₁.roots.insert b e.path).2.get? (s₁.roots.insert b e.path).1 =
      some { binding := b, path := e.path, place := s₁.roots.nextPlace } :=
    (Roots.get?_insert ..).trans (if_pos rfl)
  refine ⟨e, he, congrArg (Option.map (·.binding)) root, ?_⟩
  exact
    { fresh := by
        rw [Option.eq_none_iff_forall_ne_some]
        exact fun r hr => Nat.lt_irrefl _ (hroots ▸ hn.lt_issued _ r hr)
      path_eq := congrArg (Option.map (·.path)) root
      get?_roots := fun id' hne => by
        refine (Roots.get?_insert ..).trans ((if_neg hne).trans ?_)
        rw [hroots]
      watched := by
        refine ⟨watch, (Table.get?_modify ..).trans ((if_pos rfl).trans ?_), hold⟩
        rw [hwatch]
        rfl
      get?_documents := fun key hne =>
        (Table.get?_modify ..).trans ((if_neg hne.symm).trans (hothers key hne))
      only := by
        rw [hs₁]
        rfl }

/-- Applying the root does not change what has come with it. -/
lemma Joined.applyRoot [Widget H] {id : RootId} {path : Path} (h : s.Joined id path s') :
    s.Joined id path (s'.applyRoot id).2 := by
  obtain ⟨r, hr, -⟩ := Option.map_eq_some_iff.1 h.path_eq
  have ha := Attempts.applyRoot hr
  obtain ⟨ht, -⟩ := s'.applyRoot_tries id
  generalize (s'.applyRoot id).2 = s'' at ha ht ⊢
  have only := ht.only
  unfold OnlyRoots at only
  have hdocuments : s''.documents = s'.documents := by rw [only]
  exact
    { fresh := h.fresh
      path_eq := (ht.path_eq id).trans h.path_eq
      get?_roots := fun id' hne =>
        (ha.get?_eq id' fun hm => hne (List.mem_singleton.1 hm)).trans (h.get?_roots id' hne)
      watched := hdocuments ▸ h.watched
      get?_documents := hdocuments ▸ h.get?_documents
      only := by rw [only, h.only] }

namespace Joined

variable {id : RootId} {path : Path}

/-- When the root is gone, all roots are those that there were. -/
lemma get?_erase (h : s.Joined id path s') (id' : RootId) :
    (s'.roots.erase id).get? id' = s.roots.get? id' := by
  rw [Roots.get?_erase]
  split
  · next he => rw [← he, h.fresh]
  · next hne => exact h.get?_roots id' (Ne.symm hne)

/-- When the root is struck out, those that were noted for the document are left. -/
lemma filter_subscribers (h : s.Joined id path s') (hs : s.Subscribed) {watch : DocumentWatch}
    (hold : s.documents.get? path.key = some watch ∨
      s.documents.get? path.key = none ∧ watch.subscribers = []) :
    (watch.subscribers ++ [id]).filter (· ≠ id) = watch.subscribers := by
  have hnew : ∀ x ∈ watch.subscribers, x ≠ id := by
    rintro x hx rfl
    obtain hw | ⟨-, hnil⟩ := hold
    · rw [← subscribersOf_of_get? hw, hs.mem_iff, documentOf?, h.fresh] at hx
      cases hx
    · rw [hnil] at hx
      cases hx
  rw [List.filter_append, List.filter_eq_self.2 fun x hx => decide_eq_true (hnew x hx)]
  simp

/-- **A root that leaves takes with it all that came with it.** Definitions go with a document only if
no search has loaded it, but then the document was watched before. -/
theorem resumes {name : String} (h : s.Joined id path s') (hs : s.Tidy)
    (ho : s.definitions.owner? name = some path.key) : s.Resumes (s'.unregister id).2 := by
  obtain ⟨watch, hwatch, hold⟩ := h.watched
  have hkept := h.filter_subscribers hs.subscribed hold
  obtain ⟨r, hr, hpath⟩ := Option.map_eq_some_iff.1 h.path_eq
  obtain ⟨hnone, -⟩ | ⟨r', hr', hcases⟩ := s'.unregister_cases id
  · cases hnone.symm.trans hr
  cases hr'.symm.trans hr
  subst hpath
  obtain ⟨hw, -⟩ | ⟨watch', hw, hcases⟩ := hcases
  · cases hw.symm.trans hwatch
  cases hw.symm.trans hwatch
  rw [hkept] at hcases
  obtain ⟨hnil, hs''⟩ | ⟨hne, hs''⟩ := hcases
  · -- No root was noted for the document before, so it was not watched.
    have hunwatched : s.documents.get? r.path.key = none := by
      obtain hw | ⟨hw, -⟩ := hold
      · refine (hs.subscribed.ne_nil r.path.key (Option.isSome_iff_exists.2 ⟨watch, hw⟩) ?_).elim
        rw [subscribersOf_of_get? hw, hnil]
      · exact hw
    have hfound : r.path.key ∈ s'.discovered := by
      rw [h.only]
      refine (hs.owned name _ ho).resolve_left ?_
      rw [Table.contains, hunwatched]
      exact Bool.false_ne_true
    rw [hs'', abandon, if_pos hfound]
    refine ⟨h.get?_erase, fun key => (Table.get?_erase ..).trans ?_, by rw [h.only]; rfl⟩
    split
    · next he => rw [← he, hunwatched]
    · next hne => exact h.get?_documents key (Ne.symm hne)
  · rw [hs'']
    refine ⟨h.get?_erase, fun key => (Table.get?_modify ..).trans ?_, by rw [h.only]⟩
    split
    · next he =>
      obtain hw | ⟨-, hnil⟩ := hold
      · rw [← he, hwatch, hw]
        rfl
      · exact (hne hnil).elim
    · next hk => exact h.get?_documents key (Ne.symm hk)

end Joined

/-! ### Making a root -/

/-- If the document of a root cannot be watched, nothing changes but the errors. -/
lemma register_error {b : Binding} {path? : Option Path} {e : SessionError}
    (h : s.register w b path? = (.error e, s')) :
    s' = { s with diagnostics := s'.diagnostics } := by
  unfold register at h
  split at h
  · cases h
    rfl
  · split at h
    · next hw =>
      cases h
      unfold watchDocument at hw
      split at hw
      · cases hw
      · split at hw <;> cases hw
        rfl
    · cases h

/-- Applying a root of a loaded type does to the tree what its definition does. -/
lemma tree_applyRoot [Widget H] {id : RootId} {r : Root} (hr : s.roots.get? id = some r)
    {e : StoredDefinition} (he : s.definitions.get? r.binding.typeName = some e) :
    (s.applyRoot id).2.tree = (s.applier.apply s.tree r.binding e.definition).2.1 := by
  unfold applyRoot
  rw [hr]
  unfold applyTo
  simp only [he]
  split <;> rfl

/-- When the root of a new node is applied, all that comes into the tree is below the node. -/
lemma sprouts_applyRoot [Widget H] (h : s.Tended) {node : NodeId} {tree : ViewTree H}
    (S : s.tree.Sprouts node tree) {typeName : String} {id : RootId}
    (hreg : register { s with tree } w (.adopting node typeName) none = (.ok id, s')) :
    s.tree.Sprouts node (s'.applyRoot id).2.tree ∧ ∃ stored,
      s.definitions.get? typeName = some stored ∧ Joined { s with tree } id stored.path s' := by
  have hn : Noted { s with tree } [] := h.arises.tidy.noted.congr rfl rfl
  obtain ⟨stored, hstored, hbinding, J⟩ := joined_register hn hreg
  obtain ⟨r, hroot, hb⟩ := Option.map_eq_some_iff.1 hbinding
  have htree : s'.tree = tree := by
    have hsame := register_only { s with tree } w (.adopting node typeName) none
    rw [hreg] at hsame
    rw [show s' = _ from hsame]
  have hdefinitions : s'.definitions = s.definitions := by rw [J.only]
  have happlier : s'.applier = s.applier := by rw [J.only]; rfl
  refine ⟨?_, stored, hstored, J⟩
  rw [tree_applyRoot hroot (hb ▸ hdefinitions ▸ hstored), happlier, htree, hb]
  exact S.apply h.arises.knowsParsed (h.arises.isParsed hstored) h.forest typeName

/-- **A root that cannot be made leaves nothing behind.** In every session that a host can come to, if
a root of a type is to be made and that fails, at whatever step, then all nodes of the tree are as they
were, with their links and all that they hold, and there are no others. The roots are as they were, and
so are the watched documents with the roots that are noted for them, all stored definitions with their
generations, and the shared styles. Only errors and waiting changes may have come, and an error of the
document may be gone.

**Proof sketch.** The root's node is new, and whatever an application makes hangs below it, however far
it comes (`ViewTree.Sprouts.apply`), so removing the node takes it all away. The root is new as well,
and leaves with what came with it: its note at the document, and the watching of the document if that
was not watched before. Then the definitions stay, because a search must have loaded them
(`Joined.resumes`). -/
theorem instantiate_undone [Widget H] (h : s.Tended) {typeName : String} {e : SessionError}
    (hr : s.instantiate w typeName = (.error e, s')) :
    (∀ x, s'.tree.slot? x = s.tree.slot? x) ∧
    (∀ id, s'.roots.get? id = s.roots.get? id) ∧
    (∀ key, s'.documents.get? key = s.documents.get? key) ∧
    s'.definitions = s.definitions ∧
    s'.sheets = s.sheets ∧
    s'.styleDocuments = s.styleDocuments ∧
    s'.discovered = s.discovered ∧
    s'.settings = s.settings ∧
    s'.capabilities = s.capabilities := by
  have F := h.forest
  suffices hundone : (∀ x, s'.tree.slot? x = s.tree.slot? x) ∧ s.Resumes s' by
    obtain ⟨hslots, hroots, hdocuments, honly⟩ := hundone
    refine ⟨hslots, hroots, hdocuments, ?_, ?_, ?_, ?_, ?_, ?_⟩ <;> rw [honly]
  have hcases := s.instantiates w typeName
  rw [hr] at hcases
  cases hcases with
  | unknown _ => exact ⟨fun _ => rfl, .refl s⟩
  | @unregistered node tree _ s₁ hnode hregister =>
    have S := ViewTree.Sprouts.insert F hnode
    have honly := register_error hregister
    have htree : s₁.tree = tree := by rw [honly]
    refine ⟨fun x => htree ▸ S.slot?_remove F x, ?_⟩
    rw [honly]
    exact ⟨fun _ => rfl, fun _ => rfl, rfl⟩
  | @failed node tree id _ _ s₁ hnode hregister =>
    have S := ViewTree.Sprouts.insert F hnode
    obtain ⟨hsprouts, stored, hstored, J⟩ := sprouts_applyRoot h S hregister
    have htidy : Tidy { s with tree } := h.arises.tidy.congr rfl rfl rfl rfl rfl fun _ hp => hp
    have howner : s.definitions.owner? typeName = some stored.path.key := by
      rw [DefinitionStore.owner?, hstored, Option.map_some]
    refine ⟨fun x => ?_, (J.applyRoot.resumes htidy howner).retree _⟩
    change (((s₁.applyRoot id).2.unregister id).2.tree.remove node).2.slot? x = _
    rw [unregister_only]
    exact hsprouts.slot?_remove F x

/-- A session that watches no files, with a node in its tree. -/
def wrapperAlone : Session Empty :=
  let tree := (({} : ViewTree Empty).insert { element := .generic (.wrapper "A") }).2
  (({ settings := { watches := false }, capabilities := {} } : Session Empty).serve (.edit tree)).2

/-- The session after a search has found a component with another one in it, and with a label that the
host cannot create. -/
def foundCard : Session Empty := (wrapperAlone.serve (.discover cardDirectory ⟨"ui"⟩)).2

/-- The session that has found the card. -/
lemma foundCard_eq : foundCard = { wrapperAlone with
    definitions := cardWithBadge.definitions.foldl (fun s d => s.insert d ⟨"ui/card.ui.xml"⟩) {}
    discovered := [(Path.mk "ui/card.ui.xml").key] } := by
  obtain ⟨-, -, -, -, hread, -⟩ := finds_cardWithBadge
  have files : cardDirectory.files.filesBelow ⟨"ui"⟩ = .ok [⟨"ui/card.ui.xml"⟩] := by cbv
  have documents : ([⟨"ui/card.ui.xml"⟩].filter wrapperAlone.settings.isDocument).mergeSort
      Path.notAfter = [⟨"ui/card.ui.xml"⟩] := by cbv
  change (wrapperAlone.discover cardDirectory ⟨"ui"⟩).2 = _
  rw [discover, files]
  simp only [documents, List.foldl_cons, List.foldl_nil, discoverDocument, hread]
  rw [if_neg (by decide)]
  rfl

/-- **A component that cannot be shown** leaves nothing behind, though its node and that of the other
component in it have come into the tree. -/
theorem instantiate_undone_foundCard :
    ∃ e s', foundCard.instantiate cardDirectory "Card" = (.error e, s') ∧
      foundCard.tree.slots.size = 1 ∧ s'.tree.slots.size = 3 ∧
      (∀ x, s'.tree.slot? x = foundCard.tree.slot? x) ∧
      (∀ id, s'.roots.get? id = foundCard.roots.get? id) ∧
      (∀ key, s'.documents.get? key = foundCard.documents.get? key) ∧
      s'.definitions = foundCard.definitions := by
  have tended : foundCard.Tended :=
    .serve (.discover cardDirectory ⟨"ui"⟩) nofun (.serve (.edit _)
      (fun _ h => SessionRequest.edit.inj h ▸ .edit (.insert _) .same) (.new _ {}))
  have failed : (foundCard.instantiate cardDirectory "Card").1.toOption.isSome = false := by
    rw [foundCard_eq]
    cbv
  have made : (foundCard.instantiate cardDirectory "Card").2.tree.slots.size = 3 := by
    rw [foundCard_eq]
    cbv
  cases hr : foundCard.instantiate cardDirectory "Card" with
  | mk result s' =>
    rw [hr] at failed made
    cases result with
    | ok id => cases failed
    | error e =>
      obtain ⟨hslots, hroots, hdocuments, hdefinitions, -⟩ := instantiate_undone tended hr
      refine ⟨e, s', rfl, ?_, made, hslots, hroots, hdocuments, hdefinitions⟩
      rw [foundCard_eq]
      rfl

end Session

end ViewMarkup
