import ViewMarkup.Proofs.Session.Providing
import ViewMarkup.Proofs.View.History

/-!
# Where applied definitions come from

A root is bound to a document, but what is applied to it is looked up by its type, and the entry of
a type is replaced whenever a document that defines the type is loaded. So the definition comes from
the document that was loaded last among those that define the type. That is the root's own document
until another one takes the type over; the roots of the first document are applied again then, with
the definition of the other one.

## Design

All that was loaded is kept as one list, in order, and an origin of a definition is a place in that
list: what stands behind the place says what has happened to the type since. A search is marked as
one, as it stores the definitions of a document beside those that an earlier version of the document
has left.

## Main definitions

* `DefinitionLoad`, `Session.Recalls` — all documents that were loaded since a session was new.
* `DefinitionLoad.ComesFrom` — where a definition of a type comes from.
* `Session.Reapplies` — the definition that is applied to a root when a change is handled.

## Main statements

* `DefinitionStore.Stems.load` — what loading a document does to the origins of all entries.
* `Session.comesFrom_of_reapplied` — a root is applied again with a definition of the document that
  was loaded last with its type.
-/

namespace ViewMarkup

/-- A document was loaded. -/
structure DefinitionLoad where
  /-- Where it was read. -/
  path : Path
  /-- Its definition. -/
  definition : Definition
  /-- Whether a search has loaded it. -/
  isFound : Bool

namespace DefinitionLoad

variable {loads : List DefinitionLoad} {name : String} {d : Definition} {path : Path}

/-- **Where a definition of a type comes from**: it is one of a document that was loaded, and the
type is defined by no document that was loaded later. If the document itself was loaded later, only
searches have done so. -/
def ComesFrom (loads : List DefinitionLoad) (name : String) (d : Definition) (path : Path) : Prop :=
  ∃ (before : List DefinitionLoad) (load : DefinitionLoad) (after : List DefinitionLoad),
    loads = before ++ load :: after ∧ load.path = path ∧
    d ∈ load.definition.definitions ∧ d.typeName = name ∧
    ∀ later ∈ after, name ∉ later.definition.typeNames ∧
      (later.path.key = path.key → later.isFound = true)

namespace ComesFrom

/-- The definitions of the document that was loaded last. -/
lemma last (loads : List DefinitionLoad) (load : DefinitionLoad)
    (hd : d ∈ load.definition.definitions) :
    ComesFrom (loads ++ [load]) d.typeName d load.path :=
  ⟨loads, load, [], rfl, rfl, hd, rfl, fun _ h => (List.not_mem_nil h).elim⟩

/-- A document is loaded that does not define the type. -/
lemma append (h : ComesFrom loads name d path) {load : DefinitionLoad}
    (hname : name ∉ load.definition.typeNames)
    (hpath : load.path.key = path.key → load.isFound = true) :
    ComesFrom (loads ++ [load]) name d path := by
  obtain ⟨before, origin, after, rfl, hp, hd, ht, hafter⟩ := h
  refine ⟨before, origin, after ++ [load], by simp, hp, hd, ht, fun later hl => ?_⟩
  rcases List.mem_append.1 hl with hl | hl
  · exact hafter later hl
  · cases List.mem_singleton.1 hl
    exact ⟨hname, hpath⟩

/-- If no document that defines the type was loaded after a given one that does, the definition is
one of that document. -/
lemma mem_definitions (h : ComesFrom loads name d path) {before after : List DefinitionLoad}
    {own : DefinitionLoad} (hl : loads = before ++ own :: after)
    (hown : name ∈ own.definition.typeNames)
    (hafter : ∀ later ∈ after, name ∉ later.definition.typeNames) :
    d ∈ own.definition.definitions := by
  obtain ⟨before', origin, after', hl', -, hd, ht, hlast⟩ := h
  have horigin : name ∈ origin.definition.typeNames := List.mem_map.2 ⟨d, hd, ht⟩
  rw [hl] at hl'
  -- Neither of the two documents stands behind the other one, as both define the type.
  rcases List.append_eq_append_iff.1 hl' with ⟨cs, -, hcs⟩ | ⟨cs, -, hcs⟩
  · cases cs with
    | nil => exact (List.cons.inj hcs).1 ▸ hd
    | cons c cs =>
      have hm : origin ∈ after := (List.cons.inj hcs).2 ▸ List.mem_append_right _ List.mem_cons_self
      exact (hafter origin hm horigin).elim
  · cases cs with
    | nil => exact (List.cons.inj hcs).1 ▸ hd
    | cons c cs =>
      have hm : own ∈ after' := (List.cons.inj hcs).2 ▸ List.mem_append_right _ List.mem_cons_self
      exact ((hlast own hm).1 hown).elim

end ComesFrom

end DefinitionLoad

open DefinitionLoad

/-! ### Origins of stored definitions -/

namespace DefinitionStore

variable {s s' : DefinitionStore} {loads : List DefinitionLoad}

/-- The definition that is stored for a type, and the document that it was read from. -/
def source? (s : DefinitionStore) (name : String) : Option (Definition × Path) :=
  (s.get? name).map fun e => (e.definition, e.path)

/-- **All that is stored has an origin** among the documents that were loaded. -/
def Stems (s : DefinitionStore) (loads : List DefinitionLoad) : Prop :=
  ∀ name d path, s.source? name = some (d, path) → ComesFrom loads name d path

/-- The source of a type that is stored is the new one. -/
lemma source?_insert (s : DefinitionStore) (d : Definition) (path : Path) (name : String) :
    (s.insert d path).source? name =
      if d.typeName = name then some (d, path) else s.source? name := by
  rw [source?, get?_insert]
  split <;> rfl

/-- What is stored after definitions were stored for a path is one of them, or was stored before for
a type that none of them has. -/
lemma source?_foldl_insert {path path' : Path} {ds : List Definition} {d : Definition}
    {name : String}
    (h : (ds.foldl (fun s d => s.insert d path) s).source? name = some (d, path')) :
    d ∈ ds ∧ d.typeName = name ∧ path' = path ∨
      name ∉ ds.map (·.typeName) ∧ s.source? name = some (d, path') := by
  induction ds generalizing s with
  | nil => exact .inr ⟨List.not_mem_nil, h⟩
  | cons d₀ ds ih =>
    rcases ih h with ⟨hd, ht, hp⟩ | ⟨hn, hs⟩
    · exact .inl ⟨List.mem_cons_of_mem _ hd, ht, hp⟩
    · rw [source?_insert] at hs
      split at hs
      · next ht =>
        cases hs
        exact .inl ⟨List.mem_cons_self, ht, rfl⟩
      · next ht =>
        exact .inr ⟨fun hm => (List.mem_cons.1 hm).elim (fun he => ht he.symm) hn, hs⟩

/-- What is left after a path was removed comes from another path. -/
lemma source?_removePath (hs : s.Sound) {path path' : Path} {d : Definition} {name : String}
    (h : (s.removePath path).source? name = some (d, path')) :
    s.source? name = some (d, path') ∧ path'.key ≠ path.key := by
  obtain ⟨e, he, hsource⟩ := Option.map_eq_some_iff.1 h
  rw [Precedes.get?_removePath hs, Option.filter_eq_some_iff] at he
  cases hsource
  exact ⟨by rw [source?, he.1]; rfl, of_decide_eq_true he.2⟩

/-- New generations leave the sources as they are. -/
lemma source?_renewAll (s : DefinitionStore) (name : String) :
    s.renewAll.source? name = s.source? name :=
  map_get?_renewAll s name _ fun _ _ => rfl

namespace Stems

/-- Fewer entries have their origins. -/
lemma mono (h : s.Stems loads)
    (hs : ∀ name source, s'.source? name = some source → s.source? name = some source) :
    s'.Stems loads := fun name d path hd => h name d path (hs name _ hd)

/-- **What loading a document does to the origins of all entries**: those that are not definitions
of the document have types that it does not define, and are as before. -/
theorem load (h : s.Stems loads) (load : DefinitionLoad)
    (hs : ∀ name d path, s'.source? name = some (d, path) →
      d ∈ load.definition.definitions ∧ d.typeName = name ∧ path = load.path ∨
        name ∉ load.definition.typeNames ∧ s.source? name = some (d, path) ∧
          (load.path.key = path.key → load.isFound = true)) :
    s'.Stems (loads ++ [load]) := by
  intro name d path hd
  rcases hs name d path hd with ⟨hm, rfl, rfl⟩ | ⟨hname, hold, hpath⟩
  · exact .last loads load hm
  · exact (h name d path hold).append hname hpath

/-- Loading a changed document: what was read from its path before is gone. -/
lemma insertDocument (h : s.Stems loads) (hs : s.Sound) (d : Definition) (path : Path) :
    (s.insertDocument d path).Stems (loads ++ [⟨path, d, false⟩]) := by
  refine h.load _ fun name d' path' hd' => ?_
  rcases source?_foldl_insert hd' with hnew | ⟨hname, hold⟩
  · exact .inl hnew
  · obtain ⟨hold, hne⟩ := source?_removePath hs hold
    exact .inr ⟨hname, hold, fun hkey => (hne hkey.symm).elim⟩

/-- Storing a document that a search has found: all that was there and is not replaced stays. -/
lemma store (h : s.Stems loads) (e : Path × Definition) :
    (s.store e).Stems (loads ++ [⟨e.1, e.2, true⟩]) :=
  h.load _ fun _ _ _ hd => (source?_foldl_insert hd).imp_right fun ⟨hname, hold⟩ =>
    ⟨hname, hold, fun _ => rfl⟩

/-- Documents that a search stores are loaded by it. -/
lemma foldl_store (h : s.Stems loads) (es : List (Path × Definition)) :
    (es.foldl DefinitionStore.store s).Stems (loads ++ es.map fun e => ⟨e.1, e.2, true⟩) := by
  induction es generalizing s loads with
  | nil => exact (List.append_nil loads).symm ▸ h
  | cons e es ih =>
    have hrest := ih (h.store e)
    rwa [List.append_assoc] at hrest

end Stems

end DefinitionStore

/-! ### Requests -/

/-- Whether a request is a search. -/
def SessionRequest.isSearch {H : Type} : SessionRequest H → Bool
  | .discover _ _ => true
  | _ => false

namespace Session

variable {H : Type} {s s' loaded : Session H} {loads : List DefinitionLoad} {tried : List RootId}

/-- What is loaded in the course of a request. -/
def definitionLoads (s : Session H) (request : SessionRequest H) : List DefinitionLoad :=
  (s.loads request).map fun e => ⟨e.1, e.2, request.isSearch⟩

/-- **A session came about by requests**, and these documents were loaded in their course. -/
inductive Recalls [Widget H] : Session H → List DefinitionLoad → Prop where
  /-- A new session. -/
  | new (settings : Settings) (capabilities : Capabilities H) :
      Recalls { settings, capabilities } []
  /-- One more request. -/
  | serve {s : Session H} {loads : List DefinitionLoad} (request : SessionRequest H) :
      Recalls s loads → Recalls (s.serve request).2 (loads ++ s.definitionLoads request)

/-- A root that leaves takes no other entry in. -/
lemma source?_unregister (hs : s.definitions.Sound) (id : RootId) (name : String)
    (source : Definition × Path) :
    (s.unregister id).2.definitions.source? name = some source →
      s.definitions.source? name = some source := by
  unfold unregister
  split
  · exact fun h => h
  · next root _ =>
    simp only
    split
    · exact fun h => h
    · split
      · intro h
        change (if root.path.key ∈ s.discovered then s.definitions
          else s.definitions.removePath root.path).source? name = some source at h
        split at h
        · exact h
        · exact (DefinitionStore.source?_removePath hs h).1
      · exact fun h => h

/-- Leaving roots take sources away and give none. -/
lemma source?_prune (hn : Noted s tried) (name : String) (source : Definition × Path) :
    s.prune.definitions.source? name = some source →
      s.definitions.source? name = some source := by
  unfold prune
  induction s.goneRoots generalizing s with
  | nil => exact fun h => h
  | cons id ids ih =>
    exact fun h => source?_unregister hn.sound id name source (ih (hn.unregister id) h)

/-- A document that is loaded when a change is handled. -/
lemma stems_load? (hn : Noted s tried) (h : s.definitions.Stems loads) {w : World} {path : Path}
    (hl : s.prune.load? w path = some (.ok loaded)) :
    loaded.definitions.Stems (loads ++ s.definitionLoads (.handle w path)) := by
  have hp : s.prune.definitions.Stems loads := h.mono (source?_prune hn)
  have hloads := s.loads_handle w path
  rw [hl] at hloads
  rw [definitionLoads]
  rcases hloads with ⟨hloads, hdefs⟩ | ⟨d, hloads, hdefs⟩
  · rw [hloads, hdefs, List.map_nil, List.append_nil]
    exact hp.mono fun name source hs => by rwa [DefinitionStore.source?_renewAll] at hs
  · rw [hloads, hdefs]
    exact hp.insertDocument hn.prune.sound d path

/-- What is stored after a change was loaded before it or by it. -/
lemma stems_handle [Widget H] (hn : Noted s tried) (h : s.definitions.Stems loads) (w : World)
    (path : Path) :
    (s.handle w path).2.definitions.Stems (loads ++ s.definitionLoads (.handle w path)) := by
  have hloads := s.loads_handle w path
  cases hl : s.prune.load? w path with
  | none =>
    rw [hl] at hloads
    rw [definitionLoads, hloads, handle_of_load?_eq_none hl, List.map_nil, List.append_nil]
    exact h.mono (source?_prune hn)
  | some result =>
    cases result with
    | error e =>
      rw [hl] at hloads
      rw [definitionLoads, hloads, handle_of_load?_eq_error hl, List.map_nil, List.append_nil]
      exact h.mono (source?_prune hn)
    | ok loaded =>
      rw [(hn.handle_of_load? hl).2.2.2.definitions_eq]
      exact stems_load? hn h hl

/-- What is stored after a search was loaded before it or by it. -/
lemma stems_discover (h : s.definitions.Stems loads) (w : World) (dir : Path) :
    (s.discover w dir).2.definitions.Stems (loads ++ s.definitionLoads (.discover w dir)) := by
  rw [(definitions_discover s w dir).1]
  exact h.foldl_store _

variable [Widget H]

/-- A root that is made may leave again at once. -/
lemma stems_instantiate (hn : Noted s tried) (h : s.definitions.Stems loads) (w : World)
    (typeName : String) : (s.instantiate w typeName).2.definitions.Stems loads := by
  refine (instantiate_induction (P := fun s => Noted s tried ∧ s.definitions.Stems loads) w typeName
    ⟨hn, h⟩ (fun _ _ h => ⟨h.1.congr rfl rfl, h.2⟩) (fun s b h => ⟨h.1.register w b none, ?_⟩)
    (fun s id r hroot h => ⟨?_, ?_⟩)
    (fun s id h => ⟨h.1.unregister id, h.2.mono (source?_unregister h.1.sound id)⟩)
    fun _ _ h => ⟨h.1.congr rfl rfl, h.2⟩).2
  · exact (s.definitions_register w b none).symm ▸ h.2
  · exact (h.1.applyRoot hroot).of_subset (List.subset_append_left tried [id])
  · exact (Attempts.applyRoot hroot).definitions_eq.symm ▸ h.2

/-- **What a request does to the origins of all entries.** -/
theorem stems_serve (hn : Noted s tried) (h : s.definitions.Stems loads)
    (request : SessionRequest H) :
    (s.serve request).2.definitions.Stems (loads ++ s.definitionLoads request) := by
  have kept : ∀ {s' : Session H}, s'.definitions = s.definitions →
      s'.definitions.Stems (loads ++ []) := fun hd => by
    rw [hd, List.append_nil]
    exact h
  cases request with
  | register w b path? => exact kept (s.definitions_register w b path?)
  | unregister id =>
    exact (List.append_nil loads).symm ▸ h.mono (source?_unregister hn.sound id)
  | discover w dir => exact stems_discover h w dir
  | instantiate w typeName =>
    exact (List.append_nil loads).symm ▸ stems_instantiate hn h w typeName
  | edit tree => exact kept rfl
  | provide capabilities => exact kept rfl
  | handle w path => exact stems_handle hn h w path
  | watchStyles w path =>
    change (s.watchStyles w path).2.definitions.Stems (loads ++ [])
    unfold watchStyles
    split
    · exact kept rfl
    · cases s.startWatcher w path with
      | error e => exact kept rfl
      | ok watcher =>
        have hw := stems_handle
          (s := { s with styleDocuments := s.styleDocuments.insert path.key { path, watcher } })
          (hn.congr rfl rfl) h w path
        rwa [definitionLoads, loads_handle_of_watched] at hw

/-- A session whose loads are recalled was reached. -/
lemma Recalls.reached (h : s.Recalls loads) : ∃ tried, s.Reached tried := by
  induction h with
  | new settings capabilities => exact ⟨_, .new settings capabilities⟩
  | serve request _ ih =>
    obtain ⟨tried, hs⟩ := ih
    exact ⟨_, hs.serve request⟩

/-- Whatever is stored was loaded at some time. -/
lemma Recalls.stems (h : s.Recalls loads) : s.definitions.Stems loads := by
  induction h with
  | new settings capabilities => exact fun _ _ _ hs => by cases hs
  | serve request hs ih =>
    obtain ⟨tried, hr⟩ := hs.reached
    exact stems_serve hr.noted ih request

/-! ### Attempts -/

/-- **A definition is applied to a root**: it is the one that is stored for the type of the root,
and applying it succeeds and leaves the tree of the application. -/
def Applies (s : Session H) (id : RootId) (stored : StoredDefinition) : Prop :=
  ∃ root names, s.roots.get? id = some root ∧
    s.definitions.get? root.binding.typeName = some stored ∧
    let applied := s.applier.apply s.tree root.binding stored.definition
    applied.1 = .ok names ∧ (s.applyRoot id).1 = .ok () ∧ (s.applyRoot id).2.tree = applied.2.1

/-- An attempt succeeds exactly if a definition is applied. -/
lemma succeeded_attempt_iff {id : RootId} {path : Path} :
    (s.attempt id path).1.succeeded = true ↔ ∃ stored, s.Applies id stored := by
  have hok : (s.attempt id path).1.succeeded = true ↔ (s.applyRoot id).1 = .ok () := by
    unfold attempt
    split
    · next ha => rw [ha]; exact iff_of_true rfl rfl
    · next ha => rw [ha]; exact iff_of_false Bool.false_ne_true nofun
  rw [hok]
  refine ⟨fun h => ?_, fun ⟨stored, root, names, _, _, _, h, _⟩ => h⟩
  unfold Applies
  revert h
  unfold applyRoot
  split
  · exact nofun
  · next root hroot =>
    unfold applyTo
    simp only
    split
    · exact nofun
    · next stored hstored =>
      intro h
      refine ⟨stored, root, ?_⟩
      split at h
      · next names hnames =>
        exact ⟨names, hroot, hstored, hnames, rfl, rfl⟩
      · cases h

/-- A root keeps its type when roots are attempted. -/
lemma typeName_attempt (s : Session H) (id : RootId) (path : Path) (id' : RootId) :
    ((s.attempt id path).2.roots.get? id').map (·.binding.typeName) =
      (s.roots.get? id').map (·.binding.typeName) := by
  have applied : ((s.applyRoot id).2.roots.get? id').map (·.binding.typeName) =
      (s.roots.get? id').map (·.binding.typeName) := by
    unfold applyRoot
    split
    · rfl
    · next root hroot =>
      obtain ⟨-, f, hroots, htype, -⟩ := Attempts.applyTo_spec s id root
      rw [hroots, Roots.get?_modify]
      split
      · next hid =>
        subst hid
        rw [hroot, Option.map_some, Option.map_some, Option.map_some, htype]
      · rfl
  unfold attempt
  split
  · next ha => rwa [ha] at applied
  · next ha => rwa [ha] at applied

/-- Attempts leave roots their types. -/
lemma typeName_attemptAll (es : List (RootId × Path)) (s : Session H) (id : RootId) :
    ((s.attemptAll es).2.roots.get? id).map (·.binding.typeName) =
      (s.roots.get? id).map (·.binding.typeName) := by
  induction es generalizing s with
  | nil => rfl
  | cons e es ih => exact (ih _).trans (s.typeName_attempt e.1 e.2 id)

/-- Every attempt is made in the session that those before it have left. -/
lemma mem_attemptAll_iff {es : List (RootId × Path)} {a : Attempt} :
    a ∈ (s.attemptAll es).1 ↔ ∃ before e after, es = before ++ e :: after ∧
      ((s.attemptAll before).2.attempt e.1 e.2).1 = a := by
  constructor
  · induction es generalizing s with
    | nil => exact fun ha => (List.not_mem_nil ha).elim
    | cons e es ih =>
      intro ha
      rcases List.mem_cons.1 ha with ha | ha
      · exact ⟨[], e, es, rfl, ha.symm⟩
      · obtain ⟨before, e', after, rfl, hattempt⟩ := ih ha
        exact ⟨e :: before, e', after, rfl, hattempt⟩
  · rintro ⟨before, e, after, rfl, rfl⟩
    induction before generalizing s with
    | nil => exact List.mem_cons_self
    | cons b before ih => exact List.mem_cons_of_mem _ ih

/-- **A root is applied again with a definition** when a change is handled: the definition is
applied to it when it is its turn among the stale roots. -/
def Reapplies (s : Session H) (w : World) (path : Path) (id : RootId) (stored : StoredDefinition) :
    Prop :=
  ∃ loaded before own after, s.prune.load? w path = some (.ok loaded) ∧
    ((loaded.markSound path).staleRoots path).map (fun e => (e.1, e.2.path)) =
      before ++ (id, own) :: after ∧
    ((loaded.markSound path).attemptAll before).2.Applies id stored

/-- The roots that are applied again are those that a definition is applied to. -/
lemma mem_reapplied_iff {w : World} {path : Path} {id : RootId} :
    id ∈ (s.handle w path).1.reapplied ↔ ∃ stored, s.Reapplies w path id stored := by
  constructor
  · intro hid
    obtain ⟨loaded, hl, a, ha, hsucceeded, rfl⟩ : ∃ loaded,
        s.prune.load? w path = some (.ok loaded) ∧ ∃ a ∈ ((loaded.markSound path).attemptAll
          (((loaded.markSound path).staleRoots path).map fun e => (e.1, e.2.path))).1,
            a.succeeded = true ∧ a.root = id := by
      cases hl : s.prune.load? w path with
      | none =>
        rw [handle_of_load?_eq_none hl] at hid
        exact (List.not_mem_nil hid).elim
      | some result =>
        cases result with
        | error e =>
          rw [handle_of_load?_eq_error hl] at hid
          exact (List.not_mem_nil hid).elim
        | ok loaded =>
          rw [handle_of_load?_eq_ok hl] at hid
          obtain ⟨a, ha, hroot⟩ := List.mem_map.1 hid
          exact ⟨loaded, rfl, a, (List.mem_filter.1 ha).1, (List.mem_filter.1 ha).2, hroot⟩
    obtain ⟨before, e, after, hes, rfl⟩ := mem_attemptAll_iff.1 ha
    obtain ⟨stored, happlies⟩ := succeeded_attempt_iff.1 hsucceeded
    have hroot :=
      (Prod.mk.inj (((loaded.markSound path).attemptAll before).2.attempt_tries e.1 e.2).1).1
    rw [hroot]
    exact ⟨stored, loaded, before, e.2, after, hl, hes, happlies⟩
  · rintro ⟨stored, loaded, before, own, after, hl, hes, happlies⟩
    rw [handle_of_load?_eq_ok hl]
    refine List.mem_map.2 ⟨_, List.mem_filter.2 ⟨mem_attemptAll_iff.2
      ⟨before, _, after, hes, rfl⟩, succeeded_attempt_iff.2 ⟨stored, happlies⟩⟩, ?_⟩
    exact (Prod.mk.inj (attempt_tries _ id own).1).1

/-- What is applied is what the loaded document has left for the type of the root. -/
lemma Reapplies.exists_root {w : World} {path : Path} {id : RootId} {stored : StoredDefinition}
    (h : s.Reapplies w path id stored) (hn : Noted s tried) :
    ∃ loaded root, s.prune.load? w path = some (.ok loaded) ∧ s.roots.get? id = some root ∧
      loaded.definitions.get? root.binding.typeName = some stored := by
  obtain ⟨loaded, before, own, after, hl, -, root, names, hroot, hstored, -⟩ := h
  have hdefs : ((loaded.markSound path).attemptAll before).2.definitions = loaded.definitions := by
    rw [((loaded.markSound path).attemptAll_tries before).2.only]
    rfl
  have htype := typeName_attemptAll before (loaded.markSound path) id
  rw [hroot, Option.map_some] at htype
  obtain ⟨root', hroot', hsame⟩ := Option.map_eq_some_iff.1 htype.symm
  change loaded.roots.get? id = some root' at hroot'
  rw [(hn.handle_of_load? hl).2.1, hn.get?_prune, root?, Option.filter_eq_some_iff] at hroot'
  rw [hdefs, ← hsame] at hstored
  exact ⟨loaded, root', hl, hroot'.1, hstored⟩

/-! ### Handling a change -/

/-- **A request handles a change**, in the session as it is at that point: the change that it
reports, or the first loading of a document of shared styles. -/
inductive Handles (s : Session H) : SessionRequest H → Session H → World → Path → Prop where
  /-- A change is reported. -/
  | handle (w : World) (path : Path) : s.Handles (.handle w path) s w path
  /-- A document of shared styles is watched from now on. -/
  | watchStyles {w : World} {path : Path} {watcher : Option Watcher}
      (hnew : s.styleDocuments.contains path.key = false)
      (hstart : s.startWatcher w path = .ok watcher) :
      s.Handles (.watchStyles w path)
        { s with styleDocuments := s.styleDocuments.insert path.key { path, watcher } } w path

/-- **A root is applied again with a definition of the document that was loaded last with its
type.** Whenever a change is handled in a session that requests lead to, each root that is applied
again without an error is applied with a definition of its type, and that comes from the document
that was loaded last among all that define the type. It is a definition of the root's own document,
as that was loaded last, if the document defines the type and none that does was loaded after it.

**Proof sketch.** Every entry has an origin, and loading a document either replaces the entry of a
type or leaves it with the origin that it had. Attempts change neither what is stored nor the types
of roots, so what is applied when the turn of a root comes is what the loaded document has left. -/
theorem comesFrom_of_reapplied (h : s.Recalls loads) {request : SessionRequest H} {t : Session H}
    {w : World} {path : Path} (hh : s.Handles request t w path) {id : RootId}
    (hid : id ∈ (t.handle w path).1.reapplied) :
    ∃ root, t.roots.get? id = some root ∧ (∃ stored, t.Reapplies w path id stored) ∧
      ∀ stored, t.Reapplies w path id stored →
        ComesFrom (loads ++ s.definitionLoads request) root.binding.typeName stored.definition
          stored.path ∧
        ∀ (before : List DefinitionLoad) (own : DefinitionLoad) (after : List DefinitionLoad),
          loads ++ s.definitionLoads request = before ++ own :: after →
          own.path.key = root.path.key → root.binding.typeName ∈ own.definition.typeNames →
          (∀ later ∈ after, later.path.key ≠ root.path.key ∧
            root.binding.typeName ∉ later.definition.typeNames) →
          stored.definition ∈ own.definition.definitions := by
  obtain ⟨tried, hs⟩ := h.reached
  obtain ⟨hn, hstems, hloads⟩ : Noted t tried ∧ t.definitions.Stems loads ∧
      t.definitionLoads (.handle w path) = s.definitionLoads request := by
    cases hh with
    | handle => exact ⟨hs.noted, h.stems, rfl⟩
    | watchStyles =>
      exact ⟨hs.noted.congr rfl rfl, h.stems, by rw [definitionLoads, loads_handle_of_watched]; rfl⟩
  obtain ⟨stored₀, h₀⟩ := mem_reapplied_iff.1 hid
  obtain ⟨-, root, -, hroot, -⟩ := h₀.exists_root hn
  refine ⟨root, hroot, ⟨stored₀, h₀⟩, fun stored hr => ?_⟩
  obtain ⟨loaded, root', hl, hroot', hstored⟩ := hr.exists_root hn
  cases hroot.symm.trans hroot'
  have horigin := stems_load? hn hstems hl root.binding.typeName stored.definition stored.path
    (by rw [DefinitionStore.source?, hstored]; rfl)
  rw [hloads] at horigin
  exact ⟨horigin, fun before own after hsplit _ hown hafter =>
    horigin.mem_definitions hsplit hown fun later hl => (hafter later hl).2⟩

/-- Two documents that define one type, with a label in one of them only. -/
def versions : World where
  files := { entries := ⟨[(["a"], .file "<Component type=\"A\"/>".toUTF8 0),
    (["b"], .file "<Component type=\"A\"><Label/></Component>".toUTF8 0)]⟩ }
  runsWatchers := true

/-- What the document without a label defines. -/
def withoutLabel : Definition := ⟨"A", false, false, [], [], []⟩

/-- What the document with a label defines. -/
def withLabel : Definition :=
  ⟨"A", false, false, [], [], [⟨.label, none, {}, [], [], [], none, "temp_label_1"⟩]⟩

/-- A session with a root for each of the two. -/
def versionRoots : Session Empty :=
  let tree := (({} : ViewTree Empty).insert { element := .generic (.wrapper "A") }).2
  let tree := (tree.insert { element := .generic (.wrapper "A") }).2
  let fresh : Session Empty := { settings := {}, capabilities := Applier.labelHost.capabilities }
  let first := ((fresh.serve (.edit tree)).2.serve
    (.register versions (.adopting ⟨0⟩ "A") (some ⟨"a"⟩))).2
  (first.serve (.register versions (.adopting ⟨1⟩ "A") (some ⟨"b"⟩))).2

/-- A session when one of the documents has been loaded. -/
def loadVersion (s : Session Empty) (name : String) (d : Definition) : Session Empty :=
  { s.prune with definitions := s.prune.definitions.insertDocument d ⟨name⟩ }

/-- The two versions of the document. -/
lemma readDefinition_versions : versions.readDefinition ⟨"a"⟩ = .ok withoutLabel ∧
    versions.readDefinition ⟨"b"⟩ = .ok withLabel := by
  refine ⟨World.readDefinition_eq_ok (Directory.read_eq_ok (l := .inside ["a"]) rfl rfl)
      ofText_emptyComponent,
    World.readDefinition_eq_ok (Directory.read_eq_ok (l := .inside ["b"]) rfl rfl) ?_⟩
  rw [Definition.ofText_ofList]
  cbv

/-- Handling a version loads it. -/
lemma load?_versions {s : Session Empty} {name : String} {d : Definition}
    (hr : versions.readDefinition ⟨name⟩ = .ok d)
    (hs : s.prune.styleDocuments.contains (Path.mk name).key = false)
    (hd : s.prune.documents.contains (Path.mk name).key = true) :
    s.prune.load? versions ⟨name⟩ = some (.ok (s.loadVersion name d)) :=
  load?_document hs hd hr

/-- The session after the document with a label was loaded alone. -/
def labelFirst : Session Empty := (versionRoots.serve (.handle versions ⟨"b"⟩)).2

/-- The session after the document without a label was loaded alone. -/
def labelLast : Session Empty := (versionRoots.serve (.handle versions ⟨"a"⟩)).2

/-- The session that has loaded the version with a label. -/
lemma labelFirst_eq :
    labelFirst = (((versionRoots.loadVersion "b" withLabel).markSound ⟨"b"⟩).reapply ⟨"b"⟩).2 :=
  congrArg Prod.snd (handle_of_load?_eq_ok
    (load?_versions readDefinition_versions.2 (by cbv) (by cbv)))

/-- The session that has loaded the version without one. -/
lemma labelLast_eq :
    labelLast = (((versionRoots.loadVersion "a" withoutLabel).markSound ⟨"a"⟩).reapply ⟨"a"⟩).2 :=
  congrArg Prod.snd (handle_of_load?_eq_ok
    (load?_versions readDefinition_versions.1 (by cbv) (by cbv)))

/-- Nothing has been loaded at first. -/
lemma recalls_versionRoots : versionRoots.Recalls [] := by
  have fresh : Recalls
      ({ settings := {}, capabilities := Applier.labelHost.capabilities } : Session Empty) [] :=
    .new _ _
  exact ((fresh.serve (.edit _)).serve (.register _ _ _)).serve (.register _ _ _)

/-- The version without a label has no definition but its own. -/
lemma eq_withoutLabel {d : Definition} (h : d ∈ withoutLabel.definitions) : d = withoutLabel := by
  rw [withoutLabel, Definition.definitions, Element.definitionsAll] at h
  exact List.mem_singleton.1 h

/-- The document of the first root is loaded after the other one, so its definition is applied. -/
theorem applied_labelFirst :
    (∃ stored, labelFirst.Reapplies versions ⟨"a"⟩ ⟨0⟩ stored) ∧
      ∀ stored, labelFirst.Reapplies versions ⟨"a"⟩ ⟨0⟩ stored →
        stored.definition = withoutLabel := by
  have hstyle : labelFirst.prune.styleDocuments.contains (Path.mk "a").key = false := by
    rw [labelFirst_eq]
    cbv
  have hdocument : labelFirst.prune.documents.contains (Path.mk "a").key = true := by
    rw [labelFirst_eq]
    cbv
  have again : (labelFirst.handle versions ⟨"a"⟩).1.reapplied = [⟨0⟩, ⟨1⟩] := by
    rw [handle_of_load?_eq_ok (load?_versions readDefinition_versions.1 hstyle hdocument),
      labelFirst_eq]
    cbv
  have hloads : labelFirst.definitionLoads (.handle versions ⟨"a"⟩) =
      [⟨⟨"a"⟩, withoutLabel, false⟩] := by
    rw [definitionLoads, loads, ← (Leaves.prune labelFirst).styleDocuments_eq, hstyle, hdocument,
      readDefinition_versions.1]
    rfl
  have hroot : (labelFirst.roots.get? ⟨0⟩).map (fun r => (r.path, r.binding.typeName)) =
      some (⟨"a"⟩, "A") := by
    rw [labelFirst_eq]
    cbv
  have hfirst : ⟨0⟩ ∈ (labelFirst.handle versions ⟨"a"⟩).1.reapplied := again ▸ List.mem_cons_self
  obtain ⟨root, hget, applied, origin⟩ := comesFrom_of_reapplied
    (recalls_versionRoots.serve (.handle versions ⟨"b"⟩)) (.handle versions ⟨"a"⟩) hfirst
  rw [← labelFirst] at hget
  rw [hget, Option.map_some, Option.some.injEq, Prod.mk.injEq] at hroot
  refine ⟨applied, fun stored h => eq_withoutLabel ?_⟩
  refine (origin stored h).2 _ ⟨⟨"a"⟩, withoutLabel, false⟩ [] (congrArg _ hloads) ?_ ?_
    fun _ hl => (List.not_mem_nil hl).elim
  · rw [hroot.1]
  · rw [hroot.2]
    decide

/-- **A root is not always applied again with a definition of its own document.** The document of
the first root still is what it was when it was loaded, but when the other document is loaded as
well, the root is applied again, and not with the definition of its own document. -/
theorem not_applied_labelLast :
    (∃ loads, labelLast.Recalls loads) ∧
      (labelLast.roots.get? ⟨0⟩).map (·.path) = some ⟨"a"⟩ ∧
      versions.readDefinition ⟨"a"⟩ = .ok withoutLabel ∧
      ⟨0⟩ ∈ (labelLast.handle versions ⟨"b"⟩).1.reapplied ∧
      ∀ stored, labelLast.Reapplies versions ⟨"b"⟩ ⟨0⟩ stored →
        stored.definition ∉ withoutLabel.definitions := by
  have hs : labelLast.Recalls _ := recalls_versionRoots.serve (.handle versions ⟨"a"⟩)
  have hstyle : labelLast.prune.styleDocuments.contains (Path.mk "b").key = false := by
    rw [labelLast_eq]
    cbv
  have hdocument : labelLast.prune.documents.contains (Path.mk "b").key = true := by
    rw [labelLast_eq]
    cbv
  have hload := load?_versions readDefinition_versions.2 hstyle hdocument
  have again : (labelLast.handle versions ⟨"b"⟩).1.reapplied = [⟨0⟩, ⟨1⟩] := by
    rw [handle_of_load?_eq_ok hload, labelLast_eq]
    cbv
  have hroot : (labelLast.roots.get? ⟨0⟩).map (fun r => (r.path, r.binding.typeName)) =
      some (⟨"a"⟩, "A") := by
    rw [labelLast_eq]
    cbv
  obtain ⟨tried, reached⟩ := hs.reached
  refine ⟨⟨_, hs⟩, ?_, readDefinition_versions.1, again ▸ List.mem_cons_self, fun stored h hm => ?_⟩
  · simpa using congrArg (Option.map Prod.fst) hroot
  · obtain ⟨loaded, root, hl, hget, hstored⟩ := h.exists_root reached.noted
    rw [hget, Option.map_some, Option.some.injEq, Prod.mk.injEq] at hroot
    cases hload.symm.trans hl
    rw [hroot.2] at hstored
    have hsource : (labelLast.loadVersion "b" withLabel).definitions.source? "A" =
        some (stored.definition, stored.path) := by
      rw [DefinitionStore.source?, hstored]
      rfl
    have labels : withLabel.definitions.all (fun d => d.children.length = 1) = true := by cbv
    rcases DefinitionStore.source?_foldl_insert hsource with ⟨hd, -⟩ | ⟨hn, -⟩
    · have hone := of_decide_eq_true (List.all_eq_true.1 labels _ hd)
      rw [eq_withoutLabel hm] at hone
      cases hone
    · exact hn (by decide)

end Session

end ViewMarkup
