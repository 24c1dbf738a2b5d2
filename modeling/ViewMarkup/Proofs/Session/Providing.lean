import ViewMarkup.Proofs.Session.Failures
import ViewMarkup.Proofs.Session.Loading

/-!
# The types that loaded documents provide

Definitions are stored by the names of their types, and each entry belongs to the document that was
loaded last among those that define the type. So a document does not always provide all types that
it defines: another document may take a type over, and when that document goes or is loaded without
the type, the type goes too, though the first document still defines it. Apart from that nothing is
lost: a type is loaded for as long as the document that has taken it stays and still defines it.

## Main definitions

* `Session.loads` — the documents that are loaded in the course of a request.
* `LoadHistory`, `Session.Remembers` — what the requests so far tell about documents and types.
* `DefinitionStore.store` — the definitions of a document stored beside all others.
* `DefinitionStore.Provides` — the types that stay with their documents are stored.

## Main statements

* `Session.Sheds.prune` — leaving roots take away nothing that belongs to a document that stays.
* `DefinitionStore.Provides.load` — what loading a document does to the types of all documents.
* `Session.definitions_discover` — what a search stores.
* `Session.contains_of_remembers` — a type of a loaded document is lost to another document only.
-/

namespace ViewMarkup

/-- The types that a document defines: its outermost one and all that are nested in it. -/
def Definition.typeNames (d : Definition) : List String := d.definitions.map (·.typeName)

/-- What is known of the documents that were loaded. -/
structure LoadHistory where
  /-- The document of a path was last loaded with a definition, and is still known since. -/
  latest : PathKey → Definition → Prop := fun _ _ => False
  /-- The document that was loaded last among those that define a type. -/
  taker? : String → Option PathKey := fun _ => none

namespace LoadHistory

/-- A document has been loaded. -/
def load (r : LoadHistory) (e : Path × Definition) : LoadHistory where
  latest key d := if key = e.1.key then d = e.2 else r.latest key d
  taker? name := if name ∈ e.2.typeNames then some e.1.key else r.taker? name

/-- Some documents are not known any more. -/
def keep (r : LoadHistory) (known : PathKey → Prop) : LoadHistory :=
  { r with latest := fun key d => r.latest key d ∧ known key }

/-- What has been loaded last from a path is the latest there. -/
lemma latest_load (r : LoadHistory) (path : Path) (d : Definition) :
    (r.load (path, d)).latest path.key d := by
  simp only [load, ↓reduceIte]

/-- The document that is loaded takes the types that it declares. -/
lemma taker?_load (r : LoadHistory) (path : Path) {d : Definition} {name : String}
    (h : name ∈ d.typeNames) : (r.load (path, d)).taker? name = some path.key :=
  if_pos h

end LoadHistory

/-! ### Stored types -/

namespace DefinitionStore

variable {s s' : DefinitionStore} {r : LoadHistory}

/-- The document that the entry of a type belongs to. -/
def owner? (s : DefinitionStore) (name : String) : Option PathKey :=
  (s.get? name).map (·.path.key)

/-- **The types that stay with their documents are stored**: a type that a document was last loaded
with belongs to it, unless another document that defines the type was loaded later. -/
def Provides (s : DefinitionStore) (r : LoadHistory) : Prop :=
  ∀ key d name, r.latest key d → name ∈ d.typeNames → r.taker? name = some key →
    s.owner? name = some key

/-- A type that is stored belongs to the path that it was read from. -/
lemma owner?_insert (s : DefinitionStore) (d : Definition) (path : Path) (name : String) :
    (s.insert d path).owner? name = if d.typeName = name then some path.key else s.owner? name := by
  rw [owner?, get?_insert]
  split <;> rfl

/-- The types of the definitions stored for a path belong to it, and no other type does anew. -/
lemma owner?_foldl_insert (path : Path) (ds : List Definition) (s : DefinitionStore)
    (name : String) :
    (ds.foldl (fun s d => s.insert d path) s).owner? name =
      if name ∈ ds.map (·.typeName) then some path.key else s.owner? name := by
  induction ds generalizing s with
  | nil => simp
  | cons d ds ih =>
    rw [List.foldl_cons, ih, owner?_insert, List.map_cons]
    by_cases hm : name ∈ ds.map (·.typeName)
    · rw [if_pos hm, if_pos (List.mem_cons_of_mem _ hm)]
    · by_cases hd : d.typeName = name
      · rw [if_neg hm, if_pos hd, if_pos (hd ▸ List.mem_cons_self)]
      · rw [if_neg hm, if_neg hd, if_neg fun h => (List.mem_cons.1 h).elim (Ne.symm hd) hm]

/-- Removing a path leaves types to other paths. -/
lemma owner?_removePath (hs : s.Sound) {path : Path} {name : String} {key : PathKey}
    (ho : s.owner? name = some key) (hne : key ≠ path.key) :
    (s.removePath path).owner? name = some key := by
  obtain ⟨e, he, rfl⟩ := Option.map_eq_some_iff.1 ho
  rw [owner?, Precedes.get?_removePath hs, he, Option.filter_some, if_pos (decide_eq_true hne)]
  rfl

/-- New generations do not change what belongs to whom. -/
lemma owner?_renewAll (s : DefinitionStore) (name : String) :
    s.renewAll.owner? name = s.owner? name :=
  map_get?_renewAll s name _ fun _ _ => rfl

/-- A document takes the types that it declares and leaves the others where they are. -/
lemma owner?_insertDocument (hs : s.Sound) (d : Definition) (path : Path) (name : String) :
    (name ∈ d.typeNames → (s.insertDocument d path).owner? name = some path.key) ∧
      ∀ key, s.owner? name = some key → name ∉ d.typeNames → key ≠ path.key →
        (s.insertDocument d path).owner? name = some key := by
  rw [insertDocument, owner?_foldl_insert, ← Definition.typeNames]
  refine ⟨fun hm => if_pos hm, fun key ho hm hne => ?_⟩
  rw [if_neg hm, owner?_removePath hs ho hne]

/-- Learning the definitions of a document that was found stores them for its path. -/
lemma learn_foldl_fst (path : Path) (ds : List Definition) (s : DefinitionStore)
    (found : List String) :
    (ds.foldl (Session.learn path) (s, found)).1 = ds.foldl (fun s d => s.insert d path) s := by
  induction ds generalizing s found with
  | nil => rfl
  | cons d ds ih => exact ih _ _

/-- The definitions of a document stored one by one, beside all others. -/
def store (s : DefinitionStore) (e : Path × Definition) : DefinitionStore :=
  e.2.definitions.foldl (fun s d => s.insert d e.1) s

namespace Provides

/-- **What loading a document does to the types of all documents**: its own are stored, and others
stay unless the document defines them as well. -/
theorem load (h : s.Provides r) {path : Path} {d : Definition}
    (hown : ∀ name ∈ d.typeNames, s'.owner? name = some path.key)
    (hother : ∀ name key, s.owner? name = some key → name ∉ d.typeNames → key ≠ path.key →
      s'.owner? name = some key) : s'.Provides (r.load (path, d)) := by
  intro key d' name hl hn ht
  simp only [LoadHistory.load] at hl ht
  by_cases hm : name ∈ d.typeNames
  · rw [if_pos hm] at ht
    rw [hown name hm, ht]
  · rw [if_neg hm] at ht
    by_cases hk : key = path.key
    · rw [if_pos hk] at hl
      exact (hm (hl ▸ hn)).elim
    · rw [if_neg hk] at hl
      exact hother name key (h key d' name hl hn ht) hm hk

/-- Storing a document beside all others. -/
lemma store (h : s.Provides r) (e : Path × Definition) : (s.store e).Provides (r.load e) :=
  h.load (fun _ hm => (owner?_foldl_insert _ _ _ _).trans (if_pos hm)) fun _ _ ho hm _ =>
    (owner?_foldl_insert _ _ _ _).trans ((if_neg hm).trans ho)

/-- Documents that a search stores are provided. -/
lemma foldl_store (h : s.Provides r) (es : List (Path × Definition)) :
    (es.foldl DefinitionStore.store s).Provides (es.foldl LoadHistory.load r) := by
  induction es generalizing s r with
  | nil => exact h
  | cons e es ih => exact ih (h.store e)

/-- What is known of fewer documents is less. -/
lemma mono (h : s.Provides r) {r' : LoadHistory}
    (hl : ∀ key d, r'.latest key d → r.latest key d) (ht : r'.taker? = r.taker?) :
    s.Provides r' := fun key d name hl' hn ht' => h key d name (hl key d hl') hn (ht ▸ ht')

end Provides

end DefinitionStore

namespace Session

variable {H : Type} {s s' s'' : Session H} {r : LoadHistory}

/-! ### Documents that stay -/

/-- A document stays for as long as a root is bound to it, or for good if a search has loaded it. -/
def Knows (s : Session H) (key : PathKey) : Prop :=
  (∃ id root, s.roots.get? id = some root ∧ root.path.key = key) ∨ key ∈ s.discovered

/-- What belongs to documents that stay is not lost between two sessions. -/
structure Sheds (s s' : Session H) : Prop where
  /-- No document comes. -/
  knows : ∀ key, s'.Knows key → s.Knows key
  /-- What belongs to a document that stays is still there. -/
  owner? : ∀ name key, s.definitions.owner? name = some key → s'.Knows key →
    s'.definitions.owner? name = some key

namespace Sheds

/-- Nothing is shed. -/
lemma refl (s : Session H) : s.Sheds s := ⟨fun _ h => h, fun _ _ h _ => h⟩

/-- What is shed first and what is shed then. -/
lemma trans (h : s.Sheds s') (h' : s'.Sheds s'') : s.Sheds s'' where
  knows key hk := h.knows key (h'.knows key hk)
  owner? name key ho hk := h'.owner? name key (h.owner? name key ho (h'.knows key hk)) hk

/-- A root that leaves takes no path from those found. -/
lemma discovered_unregister (s : Session H) (id : RootId) :
    (s.unregister id).2.discovered = s.discovered := by
  unfold Session.unregister
  split
  · rfl
  · simp only
    split
    · rfl
    · split <;> rfl

/-- A root leaves. If it is the last one of its document, no root is bound to the document then, so
that only a search could have made it stay. -/
lemma unregister {tried : List RootId} (hn : Noted s tried) (hr : Reported s ∅) (id : RootId) :
    s.Sheds (s.unregister id).2 where
  knows := by
    rintro key (⟨id', root, hg, hk⟩ | hk)
    · rw [get?_unregister] at hg
      split at hg
      · cases hg
      · exact .inl ⟨id', root, hg, hk⟩
    · exact .inr (discovered_unregister s id ▸ hk)
  owner? := by
    intro name key ho hk
    have hlast := (hr.unregister id).subscribed
    unfold Session.unregister at hlast hk ⊢
    split
    · exact ho
    · next root hroot =>
      simp only [hroot] at hlast hk ⊢
      split
      · exact ho
      · next watch hw =>
        simp only [hw] at hlast hk ⊢
        split
        · next hempty =>
          rw [if_pos hempty] at hlast hk
          change (if root.path.key ∈ s.discovered then s.definitions
            else s.definitions.removePath root.path).owner? name = some key
          split
          · exact ho
          · next hd =>
            refine DefinitionStore.owner?_removePath hn.sound ho ?_
            rintro rfl
            rcases hk with ⟨id', root', hg, hk⟩ | hk
            · obtain ⟨watch', hw', -⟩ := hlast id' root' hg
              change (s.documents.erase root.path.key).get? root'.path.key = some watch' at hw'
              rw [hk, Table.get?_erase, if_pos rfl] at hw'
              cases hw'
            · exact hd hk
        · exact ho

/-- **Leaving roots take away nothing that belongs to a document that stays.** -/
theorem prune {tried : List RootId} (hn : Noted s tried) (hr : Reported s ∅) : s.Sheds s.prune := by
  unfold Session.prune
  induction s.goneRoots generalizing s with
  | nil => exact refl s
  | cons id ids ih => exact (unregister hn hr id).trans (ih (hn.unregister id) (hr.unregister id))

end Sheds

/-- Nothing is taken away from documents that stay. -/
lemma provides_of_sheds (h : s.definitions.Provides r) (hs : s.Sheds s') :
    s'.definitions.Provides (r.keep s'.Knows) := fun key d name hl hn ht =>
  hs.owner? name key (h key d name hl.1 hn ht) hl.2

/-! ### Requests -/

/-- A document that a search loads, with its definition: it can be read, and its type is not
compiled in. -/
def found? (s : Session H) (w : World) (path : Path) : Option (Path × Definition) :=
  ((w.readDefinition path).toOption.filter fun d => d.typeName ∉ s.settings.compiled).map
    fun d => (path, d)

/-- The documents that are loaded in the course of a request, with their definitions: a changed
document that roots are bound to, or all that a search finds. -/
def loads (s : Session H) : SessionRequest H → List (Path × Definition)
  | .handle w path =>
      if s.styleDocuments.contains path.key || !s.prune.documents.contains path.key then []
      else (w.readDefinition path).toOption.toList.map fun d => (path, d)
  | .discover w dir =>
      match w.files.filesBelow dir with
      | .error _ => []
      | .ok files =>
          ((files.filter s.settings.isDocument).mergeSort Path.notAfter).filterMap (s.found? w)
  | _ => []

/-- **A session came about by requests**, and this is what they tell about documents and types. -/
inductive Remembers [Widget H] : Session H → LoadHistory → Prop where
  /-- A new session. -/
  | new (settings : Settings) (capabilities : Capabilities H) :
      Remembers { settings, capabilities } {}
  /-- One more request: it may load documents, and some may not be known any more afterwards. -/
  | serve {s : Session H} {r : LoadHistory} (request : SessionRequest H) : Remembers s r →
      Remembers (s.serve request).2
        (((s.loads request).foldl LoadHistory.load r).keep (s.serve request).2.Knows)

/-- What a search comes upon in a document. -/
lemma definitions_discoverDocument (s : Session H) (w : World) (found : List String) (path : Path) :
    (discoverDocument w s found path).1.definitions =
        (s.found? w path).toList.foldl DefinitionStore.store s.definitions ∧
      (discoverDocument w s found path).1.settings = s.settings := by
  unfold discoverDocument found?
  cases w.readDefinition path with
  | error e => exact ⟨rfl, rfl⟩
  | ok d =>
    simp only [Except.toOption, Option.filter_some]
    by_cases hc : d.typeName ∈ s.settings.compiled
    · rw [if_pos hc, if_neg (by simpa using hc)]
      exact ⟨rfl, rfl⟩
    · rw [if_neg hc, if_pos (by simpa using hc)]
      exact ⟨DefinitionStore.learn_foldl_fst _ _ _ _, rfl⟩

/-- **What a search stores** are the documents that it loads, one after the other, beside all that was
stored before. -/
theorem definitions_discover (s : Session H) (w : World) (dir : Path) :
    (s.discover w dir).2.definitions =
        (s.loads (.discover w dir)).foldl DefinitionStore.store s.definitions ∧
      (s.discover w dir).2.settings = s.settings := by
  have all : ∀ (paths : List Path) (acc : Session H × List String), acc.1.settings = s.settings →
      let after := paths.foldl (fun acc path => discoverDocument w acc.1 acc.2 path) acc
      after.1.definitions =
          (paths.filterMap (s.found? w)).foldl DefinitionStore.store acc.1.definitions ∧
        after.1.settings = s.settings := by
    intro paths
    induction paths with
    | nil => exact fun _ hset => ⟨rfl, hset⟩
    | cons path paths ih =>
      intro acc hset
      obtain ⟨hstored, hset'⟩ := definitions_discoverDocument acc.1 w acc.2 path
      obtain ⟨hrest, hset''⟩ := ih (discoverDocument w acc.1 acc.2 path) (hset'.trans hset)
      have hfound : acc.1.found? w path = s.found? w path := by rw [found?, hset, found?]
      refine ⟨?_, hset''⟩
      rw [List.foldl_cons, hrest, hstored, hfound, List.filterMap_cons]
      cases s.found? w path <;> rfl
  rw [discover, loads]
  cases w.files.filesBelow dir with
  | error fault => exact ⟨rfl, rfl⟩
  | ok files => exact all _ (s, []) rfl

/-- What is stored after a search is what the loads, and those of the search, provide. -/
lemma provides_discover (h : s.definitions.Provides r) (w : World) (dir : Path) :
    (s.discover w dir).2.definitions.Provides
      ((s.loads (.discover w dir)).foldl LoadHistory.load r) := by
  rw [(definitions_discover s w dir).1]
  exact h.foldl_store _

variable [Widget H] {tried : List RootId}

/-- The documents that stay when a change has been handled. -/
lemma knows_handle (hn : Noted s tried) (w : World) (path : Path) (key : PathKey) :
    (s.handle w path).2.Knows key → s.prune.Knows key := by
  cases hl : s.prune.load? w path with
  | none => rw [handle_of_load?_eq_none hl]; exact id
  | some result =>
    cases result with
    | error e => rw [handle_of_load?_eq_error hl]; exact id
    | ok loaded =>
      obtain ⟨hnl, hroots, -, -⟩ := hn.handle_of_load? hl
      have hm : Noted (loaded.markSound path) tried := hnl.congr rfl rfl
      obtain ⟨ho, hpath, -, -⟩ := hm.reapply_reports path
      have hd : loaded.discovered = s.prune.discovered := by
        unfold load? loadStyles loadDocument at hl
        repeat' split at hl
        all_goals cases hl
        all_goals rfl
      rw [handle_of_load?_eq_ok hl]
      rintro (⟨id, root, hg, hk⟩ | hk)
      · obtain ⟨root', hg', hp⟩ := Reported.exists_of_path_eq hpath hg
        exact .inl ⟨id, root', hroots ▸ hg', hp ▸ hk⟩
      · rw [ho] at hk
        exact .inr (hd ▸ hk)

omit [Widget H] in
/-- What is loaded when a change is handled. -/
lemma loads_handle (w : World) (path : Path) :
    match s.prune.load? w path with
    | some (.ok loaded) =>
        s.loads (.handle w path) = [] ∧ loaded.definitions = s.prune.definitions.renewAll ∨
          ∃ d, s.loads (.handle w path) = [(path, d)] ∧
            loaded.definitions = s.prune.definitions.insertDocument d path
    | _ => s.loads (.handle w path) = [] := by
  rw [loads, load?, (Leaves.prune s).styleDocuments_eq]
  by_cases hs : s.styleDocuments.contains path.key = true
  · rw [if_pos hs, hs, Bool.true_or, if_pos rfl, loadStyles]
    cases w.readStyles path with
    | error e => rfl
    | ok g => exact .inl ⟨rfl, rfl⟩
  · rw [if_neg hs, Bool.eq_false_iff.2 hs, Bool.false_or]
    by_cases hd : s.prune.documents.contains path.key = true
    · rw [if_pos hd, hd, if_neg (by decide), loadDocument]
      cases w.readDefinition path with
      | error e => rfl
      | ok d => exact .inr ⟨d, rfl, rfl⟩
    · rw [if_neg hd, Bool.eq_false_iff.2 hd]
      rfl

omit [Widget H] in
/-- A document that is one of shared styles from now on loads no definition. -/
lemma loads_handle_of_watched (s : Session H) (w : World) (path : Path) (watch : StyleWatch) :
    loads { s with styleDocuments := s.styleDocuments.insert path.key watch } (.handle w path) =
      [] := by
  have hstyles : (s.styleDocuments.insert path.key watch).contains path.key = true := by
    rw [Table.contains, Table.get?_insert, if_pos rfl]
    rfl
  rw [loads, hstyles, Bool.true_or, if_pos rfl]

/-- **Handling a change**: the document that is loaded takes its types over. -/
theorem provides_handle (hn : Noted s tried) (hr : Reported s ∅) (h : s.definitions.Provides r)
    (w : World) (path : Path) :
    (s.handle w path).2.definitions.Provides
      (((s.loads (.handle w path)).foldl LoadHistory.load r).keep (s.handle w path).2.Knows) := by
  have hknown := knows_handle hn w path
  have hp := provides_of_sheds h (.prune hn hr)
  have hl := s.loads_handle w path
  cases hload : s.prune.load? w path with
  | none =>
    rw [hload] at hl
    rw [hl, handle_of_load?_eq_none hload]
    exact hp
  | some result =>
    cases result with
    | error e =>
      rw [hload] at hl
      rw [hl, handle_of_load?_eq_error hload]
      exact hp
    | ok loaded =>
      rw [hload] at hl
      obtain ⟨-, -, -, ha⟩ := hn.handle_of_load? hload
      rcases hl with ⟨hl, hdefs⟩ | ⟨d, hl, hdefs⟩
      · rw [hl, ha.definitions_eq, hdefs]
        intro key d name hlatest hm ht
        rw [DefinitionStore.owner?_renewAll]
        exact hp key d name ⟨hlatest.1, hknown key hlatest.2⟩ hm ht
      · have hinsert := DefinitionStore.owner?_insertDocument hn.prune.sound d path
        have hloaded := hp.load (fun name => (hinsert name).1) fun name => (hinsert name).2
        rw [hl, ha.definitions_eq, hdefs]
        refine hloaded.mono (fun key d' hlatest => ?_) rfl
        obtain ⟨hlatest, hk⟩ := hlatest
        simp only [List.foldl_cons, List.foldl_nil, LoadHistory.load] at hlatest ⊢
        split
        · next hkey => rwa [if_pos hkey] at hlatest
        · next hkey =>
          rw [if_neg hkey] at hlatest
          exact ⟨hlatest, hknown key hk⟩

omit [Widget H] in
/-- What does not touch definitions provides what was there. -/
lemma provides_of_definitions_eq (h : s.definitions.Provides r)
    (hd : s'.definitions = s.definitions) : s'.definitions.Provides (r.keep s'.Knows) :=
  hd ▸ h.mono (fun _ _ hl => hl.1) rfl

omit [Widget H] in
/-- Registering a root stores nothing. -/
lemma definitions_register (s : Session H) (w : World) (b : Binding) (path? : Option Path) :
    (s.register w b path?).2.definitions = s.definitions := by
  rw [register_only]

/-- A root that is made may leave again at once. -/
lemma provides_instantiate (hn : Noted s tried) (hr : Reported s ∅) (h : s.definitions.Provides r)
    (w : World) (typeName : String) :
    (s.instantiate w typeName).2.definitions.Provides
      (r.keep (s.instantiate w typeName).2.Knows) := by
  have hcases := s.instantiates w typeName
  generalize s.instantiate w typeName = outcome at hcases ⊢
  have joined : ∀ {node tree result s₁},
      register { s with tree } w (.adopting node typeName) none = (result, s₁) →
      Noted s₁ tried ∧ Reported s₁ ∅ ∧ s₁.definitions = s.definitions := by
    intro node tree result s₁ hregister
    have hn₁ := (hn.congr rfl rfl : Noted { s with tree } tried).register w
      (.adopting node typeName) none
    have hr₁ := (hr.congr rfl rfl fun _ hp => hp : Reported { s with tree } ∅).register w
      (.adopting node typeName) none
    have hd₁ := definitions_register { s with tree } w (.adopting node typeName) none
    rw [hregister] at hn₁ hr₁ hd₁
    exact ⟨hn₁, hr₁, hd₁⟩
  cases hcases with
  | unknown _ => exact provides_of_definitions_eq h rfl
  | unregistered _ hregister => exact provides_of_definitions_eq h (joined hregister).2.2
  | @failed _ _ id _ _ s₁ _ hregister hroot =>
    obtain ⟨hn₁, hr₁, hd₁⟩ := joined hregister
    have hdefs : (s₁.applyRoot id).2.definitions = s.definitions :=
      (Attempts.applyRoot hroot).definitions_eq.trans hd₁
    have hsheds := Sheds.unregister (hn₁.applyRoot hroot) (hr₁.applyRoot hroot) id
    exact provides_of_sheds (hdefs ▸ h) ⟨hsheds.knows, hsheds.owner?⟩
  | made _ hregister hroot =>
    exact provides_of_definitions_eq h
      ((Attempts.applyRoot hroot).definitions_eq.trans (joined hregister).2.2)

/-- **What a request does to the types of all documents.** -/
theorem provides_serve (hn : Noted s tried) (hr : Reported s ∅) (h : s.definitions.Provides r)
    (request : SessionRequest H) :
    (s.serve request).2.definitions.Provides
      (((s.loads request).foldl LoadHistory.load r).keep (s.serve request).2.Knows) := by
  cases request with
  | register w b path? => exact provides_of_definitions_eq h (s.definitions_register w b path?)
  | unregister id => exact provides_of_sheds h (.unregister hn hr id)
  | discover w dir => exact (provides_discover h w dir).mono (fun _ _ hl => hl.1) rfl
  | instantiate w typeName => exact provides_instantiate hn hr h w typeName
  | edit tree => exact provides_of_definitions_eq h rfl
  | provide capabilities => exact provides_of_definitions_eq h rfl
  | handle w path => exact provides_handle hn hr h w path
  | watchStyles w path =>
    change (s.watchStyles w path).2.definitions.Provides (r.keep (s.watchStyles w path).2.Knows)
    unfold watchStyles
    split
    · exact provides_of_definitions_eq h rfl
    · cases s.startWatcher w path with
      | error e => exact provides_of_definitions_eq h rfl
      | ok watcher =>
        have hs := provides_handle
          (s := { s with styleDocuments := s.styleDocuments.insert path.key { path, watcher } })
          (hn.congr rfl rfl) (hr.congr rfl rfl fun _ hp => hp) h w path
        rw [loads_handle_of_watched] at hs
        exact hs

/-- No failure has to be known of for roots to be subscribers of their documents. -/
lemma Reached.reported (h : s.Reached tried) : Reported s ∅ := by
  induction h with
  | new settings capabilities => exact .new settings capabilities
  | serve request hs ih => exact (ih.serve hs.noted request).mono (Set.empty_subset _)

/-- A session whose loads are remembered was reached. -/
lemma Remembers.reached (h : s.Remembers r) : ∃ tried, s.Reached tried := by
  induction h with
  | new settings capabilities => exact ⟨_, .new settings capabilities⟩
  | serve request _ ih =>
    obtain ⟨tried, hs⟩ := ih
    exact ⟨_, hs.serve request⟩

/-- What is stored is what the loads provide. -/
lemma Remembers.provides (h : s.Remembers r) : s.definitions.Provides r := by
  induction h with
  | new settings capabilities => exact fun _ _ _ hl => hl.elim
  | serve request hs ih =>
    obtain ⟨tried, hr⟩ := hs.reached
    exact provides_serve hr.noted hr.reported ih request

/-- Every type of a loaded document has been taken by some document. -/
lemma Remembers.exists_taker (h : s.Remembers r) {key : PathKey} {d : Definition}
    (hl : r.latest key d) {name : String} (hm : name ∈ d.typeNames) :
    ∃ key', r.taker? name = some key' := by
  have loadAll : ∀ (es : List (Path × Definition)) (r : LoadHistory),
      (∀ key d, r.latest key d → name ∈ d.typeNames → ∃ key', r.taker? name = some key') →
      ∀ key d, (es.foldl LoadHistory.load r).latest key d → name ∈ d.typeNames →
        ∃ key', (es.foldl LoadHistory.load r).taker? name = some key' := by
    intro es
    induction es with
    | nil => exact fun _ h => h
    | cons e es ih =>
      refine fun r h => ih _ fun key d hl hm => ?_
      simp only [LoadHistory.load] at hl ⊢
      split
      · exact ⟨_, rfl⟩
      · next hne =>
        split at hl
        · exact (hne (hl ▸ hm)).elim
        · exact h key d hl hm
  induction h generalizing key d with
  | new settings capabilities => exact hl.elim
  | @serve s r request _ ih => exact loadAll _ r (fun _ _ hl hm => ih hl hm) key d hl.1 hm

/-- **A type of a loaded document is lost to another document only.** In every session that requests
lead to, each type that a document was last loaded with is stored, as long as the document stays,
unless another document that defines the type was loaded later and has gone since or has been loaded
without the type.

**Proof sketch.** Whoever loads a type last owns its entry. The entry changes its owner when another
document is loaded with the type, and is removed when its owner is loaded without the type or when
the last root of its owner leaves; then the owner does not stay, as the definitions that a search
has loaded are not removed. -/
theorem contains_of_remembers (h : s.Remembers r) {key : PathKey} {d : Definition}
    (hl : r.latest key d) {name : String} (hm : name ∈ d.typeNames)
    (hlost : ∀ key', r.taker? name = some key' → key' ≠ key →
      ∃ d', r.latest key' d' ∧ name ∈ d'.typeNames) :
    s.definitions.contains name = true := by
  have stored : ∀ key d, r.latest key d → name ∈ d.typeNames → r.taker? name = some key →
      s.definitions.contains name = true := by
    intro key d hl hm ht
    obtain ⟨e, he, -⟩ := Option.map_eq_some_iff.1 (h.provides key d name hl hm ht)
    exact Option.isSome_iff_exists.2 ⟨e, he⟩
  obtain ⟨key', ht⟩ := h.exists_taker hl hm
  by_cases hk : key' = key
  · exact stored key d hl hm (hk ▸ ht)
  · obtain ⟨d', hl', hm'⟩ := hlost key' ht hk
    exact stored key' d' hl' hm' ht

/-- Two documents that define one type, and one in a directory. -/
def rivals : World where
  files := { entries := ⟨[(["a"], .file "<Component type=\"A\"/>".toUTF8 0),
    (["b"], .file "<Component type=\"A\"/>".toUTF8 0), (["ui"], .directory),
    (["ui", "a.ui.xml"], .file "<Component type=\"A\"/>".toUTF8 0)]⟩ }
  runsWatchers := true

/-- A session with a root for each of the two. -/
def rivalRoots : Session Empty :=
  let tree := (({} : ViewTree Empty).insert { element := .generic (.wrapper "A") }).2
  let tree := (tree.insert { element := .generic (.wrapper "A") }).2
  let edited := (({ settings := {}, capabilities := {} } : Session Empty).serve (.edit tree)).2
  let first := (edited.serve (.register rivals (.adopting ⟨0⟩ "A") (some ⟨"a"⟩))).2
  (first.serve (.register rivals (.adopting ⟨1⟩ "A") (some ⟨"b"⟩))).2

/-- The session after both are loaded, the document of the first root last. -/
def rivalsLoaded : Session Empty :=
  ((rivalRoots.serve (.handle rivals ⟨"b"⟩)).2.serve (.handle rivals ⟨"a"⟩)).2

/-- Handling a change of one of the two. -/
lemma serve_rivals {s : Session Empty} {path : Path}
    (hr : rivals.readDefinition path = .ok ⟨"A", false, false, [], [], []⟩)
    (hs : s.prune.styleDocuments.contains path.key = false)
    (hd : s.prune.documents.contains path.key = true) :
    (s.serve (.handle rivals path)).2 = ((markSound { s.prune with
      definitions := s.prune.definitions.insertDocument ⟨"A", false, false, [], [], []⟩ path }
        path).reapply path).2 :=
  congrArg Prod.snd (handle_of_load?_eq_ok (load?_document hs hd hr))

/-- Two documents of one type. -/
lemma readDefinition_rivals : rivals.readDefinition ⟨"a"⟩ = .ok ⟨"A", false, false, [], [], []⟩ ∧
    rivals.readDefinition ⟨"b"⟩ = .ok ⟨"A", false, false, [], [], []⟩ :=
  ⟨World.readDefinition_eq_ok (Directory.read_eq_ok (l := .inside ["a"]) rfl rfl) ofText_emptyComponent,
    World.readDefinition_eq_ok (Directory.read_eq_ok (l := .inside ["b"]) rfl rfl)
      ofText_emptyComponent⟩

/-- The type stays when the document that was loaded before goes with its root. -/
theorem contains_rivalsLoaded :
    (rivalsLoaded.serve (.unregister ⟨1⟩)).2.definitions.contains "A" = true := by
  have hfirst := serve_rivals (s := rivalRoots) readDefinition_rivals.2 (by cbv) (by cbv)
  have hstyles : (rivalRoots.serve (.handle rivals ⟨"b"⟩)).2.prune.styleDocuments.contains
      (Path.mk "a").key = false := by
    rw [hfirst]
    cbv
  have hbound : (rivalRoots.serve (.handle rivals ⟨"b"⟩)).2.prune.documents.contains
      (Path.mk "a").key = true := by
    rw [hfirst]
    cbv
  have hloads : (rivalRoots.serve (.handle rivals ⟨"b"⟩)).2.loads (.handle rivals ⟨"a"⟩) =
      [(⟨"a"⟩, ⟨"A", false, false, [], [], []⟩)] := by
    rw [loads, ← (Leaves.prune _).styleDocuments_eq, hstyles, hbound, readDefinition_rivals.1]
    rfl
  have hlast := serve_rivals readDefinition_rivals.1 hstyles hbound
  have hroot : (rivalsLoaded.roots.get? ⟨0⟩).map (·.path) = some ⟨"a"⟩ := by
    rw [rivalsLoaded, hlast, hfirst]
    cbv
  have hroot' : ((rivalsLoaded.serve (.unregister ⟨1⟩)).2.roots.get? ⟨0⟩).map (·.path) =
      some ⟨"a"⟩ := by
    rw [rivalsLoaded, hlast, hfirst]
    cbv
  obtain ⟨root, hget, hpath⟩ := Option.map_eq_some_iff.1 hroot
  obtain ⟨root', hget', hpath'⟩ := Option.map_eq_some_iff.1 hroot'
  have fresh : Remembers ({ settings := {}, capabilities := {} } : Session Empty) {} := .new {} {}
  obtain ⟨r, hs⟩ : ∃ r, (rivalRoots.serve (.handle rivals ⟨"b"⟩)).2.Remembers r :=
    ⟨_, (((fresh.serve (.edit _)).serve (.register _ _ _)).serve (.register _ _ _)).serve
      (.handle _ _)⟩
  have hs' := hs.serve (.handle rivals ⟨"a"⟩)
  rw [hloads] at hs'
  have hm : "A" ∈ (⟨"A", false, false, [], [], []⟩ : Definition).typeNames := by decide
  exact contains_of_remembers (hs'.serve (.unregister ⟨1⟩))
    ⟨⟨r.latest_load _ _, .inl ⟨⟨0⟩, root, hget, congrArg Path.key hpath⟩⟩,
      .inl ⟨⟨0⟩, root', hget', congrArg Path.key hpath'⟩⟩ hm fun key' ht hne =>
        (hne (Option.some.inj (ht.symm.trans (r.taker?_load _ hm)))).elim

/-- A session with a root for the document in the directory, whose type is compiled in. -/
def compiledRoot : Session Empty :=
  let tree := (({} : ViewTree Empty).insert { element := .generic (.wrapper "A") }).2
  let fresh : Session Empty := { settings := { compiled := ["A"] }, capabilities := {} }
  ((fresh.serve (.edit tree)).2.serve
    (.register rivals (.adopting ⟨0⟩ "A") (some ⟨"ui/a.ui.xml"⟩))).2

/-- The document that a search finds, of the same type. -/
lemma readDefinition_compiledRoot :
    rivals.readDefinition ⟨"ui/a.ui.xml"⟩ = .ok ⟨"A", false, false, [], [], []⟩ :=
  World.readDefinition_eq_ok (Directory.read_eq_ok (l := .inside ["ui", "a.ui.xml"]) rfl rfl)
    ofText_emptyComponent

/-- A search reads the document and leaves it at that. -/
lemma discover_compiledRoot : (compiledRoot.discover rivals ⟨"ui"⟩).2 = compiledRoot := by
  have hfiles : rivals.files.filesBelow ⟨"ui"⟩ = .ok [⟨"ui/a.ui.xml"⟩] := by cbv
  have hdocument : compiledRoot.settings.isDocument ⟨"ui/a.ui.xml"⟩ = true := by decide
  have hcompiled : "A" ∈ compiledRoot.settings.compiled := by decide
  rw [discover, hfiles]
  simp only [List.filter_cons_of_pos hdocument, List.filter_nil, List.mergeSort_singleton,
    List.foldl_cons, List.foldl_nil, discoverDocument, readDefinition_compiledRoot,
    if_pos hcompiled]

/-- **A loaded document does not provide its types in every case.** A type that another document has
taken over is gone with the root of that document, and a search does not load the document of a
type that is compiled in, though in both cases a root is bound to a document that was read and
defines the type. -/
theorem not_contains_rivalRoots :
    (let handled := ((rivalRoots.serve (.handle rivals ⟨"a"⟩)).2.serve (.handle rivals ⟨"b"⟩)).2
      let s := (handled.serve (.unregister ⟨1⟩)).2
      (∃ tried, s.Reached tried) ∧ (s.roots.get? ⟨0⟩).map (·.path) = some ⟨"a"⟩ ∧
        rivals.readDefinition ⟨"a"⟩ = .ok ⟨"A", false, false, [], [], []⟩ ∧
        s.definitions.contains "A" = false) ∧
    let s := (compiledRoot.serve (.discover rivals ⟨"ui"⟩)).2
    (∃ tried, s.Reached tried) ∧ (s.roots.get? ⟨0⟩).map (·.path) = some ⟨"ui/a.ui.xml"⟩ ∧
      rivals.readDefinition ⟨"ui/a.ui.xml"⟩ = .ok ⟨"A", false, false, [], [], []⟩ ∧
      s.definitions.contains "A" = false := by
  have rivalsReached : rivalRoots.Reached [] := by
    have fresh : Reached ({ settings := {}, capabilities := {} } : Session Empty) [] := .new {} {}
    exact ((fresh.serve (.edit _)).serve (.register _ _ _)).serve (.register _ _ _)
  have compiledReached : compiledRoot.Reached [] := by
    have fresh : Reached
        ({ settings := { compiled := ["A"] }, capabilities := {} } : Session Empty) [] := .new _ {}
    exact (fresh.serve (.edit _)).serve (.register _ _ _)
  have hfirst := serve_rivals (s := rivalRoots) readDefinition_rivals.1 (by cbv) (by cbv)
  have hlast := serve_rivals (s := (rivalRoots.serve (.handle rivals ⟨"a"⟩)).2)
    readDefinition_rivals.2 (by rw [hfirst]; cbv) (by rw [hfirst]; cbv)
  refine ⟨⟨⟨_, ((rivalsReached.serve (.handle _ _)).serve (.handle _ _)).serve (.unregister _)⟩,
    ?_, readDefinition_rivals.1, ?_⟩, ⟨_, compiledReached.serve (.discover _ _)⟩, ?_,
    readDefinition_compiledRoot, ?_⟩
  · rw [hlast, hfirst]
    cbv
  · rw [hlast, hfirst]
    cbv
  · rw [serve, discover_compiledRoot]
    cbv
  · rw [serve, discover_compiledRoot]
    cbv

end Session

end ViewMarkup
