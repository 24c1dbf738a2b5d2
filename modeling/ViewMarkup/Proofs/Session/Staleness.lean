import Mathlib
import ViewMarkup.Proofs.Session.Attempts
import ViewMarkup.Proofs.Session.Steps

/-!
# Roots are applied again when what they depend on has changed

After a change a session attempts the roots of the changed document and those for which a noted
generation is not the present one. That is enough: whatever was asked of the session before, each
root that it leaves alone depends on the definitions that it was attempted with.

## Main definitions

* `SessionRequest`, `Session.serve` — what can be asked of a session, and the roots it attempts.
* `Session.Reached` — a session came about by requests, and has attempted given roots.

## Main statements

* `Session.Reached.noted` — the invariant holds in every session that requests lead to.
* `Session.handle_attempts_stale` — who is attempted after a change, and that nobody is left behind.
-/

namespace ViewMarkup

variable {H : Type}

/-- What can be asked of a session between other requests. Every request finds surroundings of its
own. -/
inductive SessionRequest (H : Type) where
  /-- Binding a component to a document. -/
  | register (w : World) (b : Binding) (path? : Option Path)
  /-- Removing a root. -/
  | unregister (id : RootId)
  /-- Watching and loading a document of shared styles. -/
  | watchStyles (w : World) (path : Path)
  /-- Loading all documents below a directory. -/
  | discover (w : World) (dir : Path)
  /-- Making a root of a loaded type. -/
  | instantiate (w : World) (typeName : String)
  /-- Leaving another tree behind, in any way. -/
  | edit (tree : ViewTree H)
  /-- Setting or creating other things from now on. -/
  | provide (capabilities : Capabilities H)
  /-- Handling a changed document. -/
  | handle (w : World) (path : Path)

/-- The roots that the handling of a change attempted. -/
def Outcome.attempted (o : Outcome) : List RootId := o.reapplied ++ o.failed

namespace Session

variable {s loaded : Session H} {tried : List RootId}

/-! ### Stale roots -/

/-- The identities of the roots that have to be applied again after a document has changed. -/
def staleIds (s : Session H) (changed : Path) : List RootId := (s.staleRoots changed).map (·.1)

/-- The roots that are stale are those of the session that are. -/
lemma Noted.mem_staleRoots_iff (h : Noted s tried) {changed : Path} {e : RootId × Root} :
    e ∈ s.staleRoots changed ↔ s.roots.get? e.1 = some e.2 ∧ s.isStale changed e.2 = true := by
  rw [staleRoots, List.mem_filter, Roots.inOrder, List.mem_mergeSort, Roots.get?,
    Table.get?_eq_some_iff h.nodup]

/-- So it is with their identities. -/
lemma Noted.mem_staleIds_iff (h : Noted s tried) {changed : Path} {id : RootId} :
    id ∈ s.staleIds changed ↔ ∃ r, s.roots.get? id = some r ∧ s.isStale changed r = true := by
  rw [staleIds, List.mem_map]
  constructor
  · rintro ⟨e, he, rfl⟩
    exact ⟨e.2, h.mem_staleRoots_iff.1 he⟩
  · rintro ⟨r, hr⟩
    exact ⟨(id, r), h.mem_staleRoots_iff.2 hr, rfl⟩

/-- No root is stale twice. -/
lemma Noted.nodup_staleIds (h : Noted s tried) (changed : Path) : (s.staleIds changed).Nodup := by
  have hp : (s.roots.inOrder.map (·.1)).Nodup :=
    ((List.mergeSort_perm s.roots.table.entries _).map _).nodup_iff.2 h.nodup
  exact hp.sublist (List.filter_sublist.map _)

/-- A root is stale if it is bound to the changed document or has noted a generation that is not
the present one. -/
lemma isStale_iff {changed : Path} {r : Root} :
    s.isStale changed r = true ↔ r.path.key = changed.key ∨
      ∃ e ∈ r.attempted.entries, s.definitions.generation? e.1 ≠ e.2 := by
  simp [isStale]

/-! ### Leaving -/

/-- A root that leaves is gone, and no other one. -/
lemma get?_unregister (s : Session H) (id id' : RootId) :
    (s.unregister id).2.roots.get? id' = if id = id' then none else s.roots.get? id' := by
  unfold unregister
  split
  · next h =>
    split
    · next hid => rw [← hid, h]
    · rfl
  · simp only
    split
    · exact Roots.get?_erase _ _ _
    · split <;> exact Roots.get?_erase _ _ _

/-- Roots that leave are gone, and no other ones. -/
lemma get?_foldl_unregister (ids : List RootId) (s : Session H) (id : RootId) :
    (ids.foldl (fun s id => (s.unregister id).2) s).roots.get? id
      = if id ∈ ids then none else s.roots.get? id := by
  induction ids generalizing s with
  | nil => simp
  | cons i ids ih =>
    rw [List.foldl_cons, ih, get?_unregister]
    by_cases hm : id ∈ ids
    · simp [hm]
    · by_cases hi : i = id
      · simp [hi]
      · simp [hm, hi, Ne.symm hi]

/-- The roots that stay are those whose nodes are alive. -/
lemma Noted.get?_prune (h : Noted s tried) (id : RootId) :
    s.prune.roots.get? id = s.root? id := by
  rw [Session.prune, get?_foldl_unregister, root?]
  have hgone : id ∈ s.goneRoots ↔
      ∃ r, s.roots.get? id = some r ∧ s.tree.contains r.binding.node = false := by
    simp only [goneRoots, List.mem_map, List.mem_filter, Roots.inOrder, List.mem_mergeSort,
      Roots.get?, Table.get?_eq_some_iff h.nodup, Bool.not_eq_true']
    constructor
    · rintro ⟨e, he, rfl⟩
      exact ⟨e.2, he⟩
    · rintro ⟨r, hr⟩
      exact ⟨(id, r), hr, rfl⟩
  cases hr : s.roots.get? id with
  | none =>
    rw [ite_self]
    rfl
  | some r =>
    cases hc : s.tree.contains r.binding.node
    · rw [if_pos (hgone.2 ⟨r, hr, hc⟩), Option.filter_some, hc]
      rfl
    · rw [if_neg, Option.filter_some, hc]
      · rfl
      · rintro hid
        obtain ⟨r', hr', hc'⟩ := hgone.1 hid
        rw [hr] at hr'
        cases hr'
        rw [hc] at hc'
        cases hc'

/-! ### Loading -/

/-- Loading a document leads to later definitions and leaves the roots as they are. -/
lemma loadDocument_spec (hs : s.definitions.Sound) {w : World} {path : Path}
    (h : s.loadDocument w path = .ok loaded) :
    s.definitions.Precedes loaded.definitions ∧ loaded.roots = s.roots := by
  unfold loadDocument at h
  split at h
  · cases h
  · cases h
    exact ⟨.insertDocument hs _ path, rfl⟩

/-- So does loading a document of shared styles. -/
lemma loadStyles_spec (hs : s.definitions.Sound) {w : World} {path : Path}
    (h : s.loadStyles w path = .ok loaded) :
    s.definitions.Precedes loaded.definitions ∧ loaded.roots = s.roots := by
  unfold loadStyles at h
  split at h
  · cases h
  · cases h
    exact ⟨.renewAll hs, rfl⟩

/-- Loading a document goes forward and leaves the roots as they are. -/
lemma load?_spec (hs : s.definitions.Sound) {w : World} {path : Path}
    (h : s.load? w path = some (.ok loaded)) :
    s.definitions.Precedes loaded.definitions ∧ loaded.roots = s.roots := by
  unfold load? at h
  split at h
  · exact loadStyles_spec hs (Option.some.inj h)
  · split at h
    · exact loadDocument_spec hs (Option.some.inj h)
    · cases h

/-- A document that roots are bound to is loaded if it can be read. -/
lemma load?_document {w : World} {path : Path} {d : Definition}
    (hs : s.styleDocuments.contains path.key = false)
    (hd : s.documents.contains path.key = true) (hr : w.readDefinition path = .ok d) :
    s.load? w path = some (.ok { s with definitions := s.definitions.insertDocument d path }) := by
  rw [load?, hs, hd, loadDocument, hr]
  rfl

/-! ### Handling a change -/

variable [Widget H]

/-- After a change all stale roots are attempted, each once. -/
lemma Noted.reapply (h : Noted s tried) (changed : Path) :
    (s.reapply changed).1.attempted.Perm (s.staleIds changed) ∧
      s.Attempts (s.staleIds changed) (s.reapply changed).2 := by
  have registered : ∀ e ∈ (s.staleRoots changed).map fun e => (e.1, e.2.path),
      ∃ r, s.roots.get? e.1 = some r := by
    intro e he
    obtain ⟨e', he', rfl⟩ := List.mem_map.1 he
    exact ⟨e'.2, (h.mem_staleRoots_iff.1 he').1⟩
  obtain ⟨hroots, ha⟩ := Attempts.attemptAll _ registered
  have hids : ((s.staleRoots changed).map fun e => (e.1, e.2.path)).map (·.1) =
      s.staleIds changed := by
    rw [List.map_map]
    rfl
  rw [hids] at hroots ha
  constructor
  · rw [← hroots]
    change (List.map _ _ ++ List.map _ _).Perm _
    rw [← List.map_append]
    exact (List.filter_append_perm _ _).map _
  · exact List.append_nil (s.staleIds changed) ▸ ha.append (.nil rfl rfl)

/-- A change of a document that the session has nothing to do with. -/
lemma handle_of_load?_eq_none {w : World} {path : Path} (hl : s.prune.load? w path = none) :
    s.handle w path = ({ path }, s.prune) := by
  rw [handle, hl]

/-- A change of a document that does not load. -/
lemma handle_of_load?_eq_error {w : World} {path : Path} {e : SessionError}
    (hl : s.prune.load? w path = some (.error e)) :
    s.handle w path = ({ path }, (s.prune.report path e).markBroken path) := by
  rw [handle, hl]

/-- A change of a document that loads. -/
lemma handle_of_load?_eq_ok {w : World} {path : Path}
    (hl : s.prune.load? w path = some (.ok loaded)) :
    s.handle w path = (loaded.markSound path).reapply path := by
  rw [handle, hl]

/-- A change whose document loads: the roots whose nodes are gone leave, the document is loaded,
and the stale roots are attempted. -/
lemma Noted.handle_of_load? (h : Noted s tried) {w : World} {path : Path}
    (hl : s.prune.load? w path = some (.ok loaded)) :
    Noted loaded tried ∧ loaded.roots = s.prune.roots ∧
      (s.handle w path).1.attempted.Perm (loaded.staleIds path) ∧
      loaded.Attempts (loaded.staleIds path) (s.handle w path).2 := by
  obtain ⟨hp, hr⟩ := load?_spec h.prune.sound hl
  have hn : Noted loaded tried := h.prune.later hp hr
  have hn' : Noted (loaded.markSound path) tried := hn.congr rfl rfl
  obtain ⟨hperm, ha⟩ := hn'.reapply path
  have cleared : loaded.Attempts [] (loaded.markSound path) := .nil rfl rfl
  rw [handle_of_load?_eq_ok hl]
  exact ⟨hn, hr, hperm, cleared.append ha⟩

/-- A change that is handled notes what its attempts depended on. -/
lemma Noted.handle (h : Noted s tried) (w : World) (path : Path) :
    Noted (s.handle w path).2 (tried ++ (s.handle w path).1.attempted) := by
  cases hl : s.prune.load? w path with
  | none =>
    rw [handle_of_load?_eq_none hl]
    exact (List.append_nil tried).symm ▸ h.prune
  | some result =>
    cases result with
    | error e =>
      rw [handle_of_load?_eq_error hl]
      exact (List.append_nil tried).symm ▸ h.prune.congr rfl rfl
    | ok loaded =>
      obtain ⟨hn, _, hperm, ha⟩ := h.handle_of_load? hl
      have hids : ∀ id ∈ loaded.staleIds path, ∃ r, loaded.roots.get? id = some r := by
        intro id hid
        obtain ⟨r, hr, _⟩ := hn.mem_staleIds_iff.1 hid
        exact ⟨r, hr⟩
      exact (hn.attempts ha hids).of_subset fun id hid => by
        rcases List.mem_append.1 hid with hid | hid
        · exact List.mem_append_left _ hid
        · exact List.mem_append_right _ (hperm.mem_iff.1 hid)

/-! ### Requests -/

/-- The roots attempted when a document of shared styles is watched: those of its first loading. -/
def attemptedByWatching (s : Session H) (w : World) (path : Path) : List RootId :=
  if s.styleDocuments.contains path.key then []
  else
    match s.startWatcher w path with
    | .error _ => []
    | .ok watcher =>
        let s := { s with styleDocuments := s.styleDocuments.insert path.key { path, watcher } }
        (s.handle w path).1.attempted

/-- What a request does: the registered roots that it attempts to apply, and the session after it.
A root whose instantiation failed is not registered any more. -/
def serve (s : Session H) : SessionRequest H → List RootId × Session H
  | .register w b path? => ([], (s.register w b path?).2)
  | .unregister id => ([], (s.unregister id).2)
  | .watchStyles w path => (s.attemptedByWatching w path, (s.watchStyles w path).2)
  | .discover w dir => ([], (s.discover w dir).2)
  | .instantiate w typeName =>
      let (outcome, after) := s.instantiate w typeName
      (outcome.toOption.toList, after)
  | .edit tree => ([], { s with tree })
  | .provide capabilities => ([], { s with capabilities })
  | .handle w path =>
      let (outcome, after) := s.handle w path
      (outcome.attempted, after)

/-- A session came about by requests, and has attempted the given roots on the way. -/
inductive Reached : Session H → List RootId → Prop where
  /-- A new session. -/
  | new (settings : Settings) (capabilities : Capabilities H) : Reached { settings, capabilities } []
  /-- One more request. -/
  | serve {s : Session H} {tried : List RootId} (request : SessionRequest H) : Reached s tried →
      Reached (s.serve request).2 (tried ++ (s.serve request).1)


/-- Watching shared styles attempts what their first loading attempts. -/
lemma Noted.watchStyles (h : Noted s tried) (w : World) (path : Path) :
    Noted (s.watchStyles w path).2 (tried ++ s.attemptedByWatching w path) := by
  unfold Session.watchStyles attemptedByWatching
  by_cases hc : s.styleDocuments.contains path.key = true
  · simp only [hc, ↓reduceIte, List.append_nil]
    exact h
  · simp only [hc, Bool.false_eq_true, ↓reduceIte]
    cases s.startWatcher w path with
    | error e =>
      simp only [List.append_nil]
      exact h.congr rfl rfl
    | ok watcher =>
      have hw : Noted { s with
          styleDocuments := s.styleDocuments.insert path.key { path, watcher } } tried :=
        h.congr rfl rfl
      exact hw.handle w path

omit [Widget H] in
/-- Loading a document that was found leads to later definitions. -/
lemma Noted.discoverDocument (h : Noted s tried) (w : World) (found : List String)
    (path : Path) : Noted (discoverDocument w s found path).1 tried := by
  unfold Session.discoverDocument
  split
  · exact h.congr rfl rfl
  · next d _ =>
    split
    · exact h
    · exact h.later (.learnAll h.sound path d.definitions found) rfl

omit [Widget H] in
/-- A search leaves what was noted. -/
lemma Noted.discover (h : Noted s tried) (w : World) (dir : Path) :
    Noted (s.discover w dir).2 tried :=
  discover_induction (P := fun s => Noted s tried) dir h (fun _ => h.congr rfl rfl)
    fun _ found path h => h.discoverDocument w found path

/-- Making a component notes what its root depended on. -/
lemma Noted.instantiate (h : Noted s tried) (w : World) (typeName : String) :
    Noted (s.instantiate w typeName).2
      (tried ++ (s.instantiate w typeName).1.toOption.toList) := by
  have hcases := s.instantiates w typeName
  generalize s.instantiate w typeName = outcome at hcases ⊢
  have registered : ∀ (tree : ViewTree H) (b : Binding),
      Noted (Session.register { s with tree } w b none).2 tried := fun tree b =>
    (h.congr rfl rfl : Noted { s with tree } tried).register w b none
  cases hcases with
  | unknown _ => exact (List.append_nil tried).symm ▸ h
  | @unregistered node tree e s₁ _ hregister =>
    have hreg := registered tree (.adopting node typeName)
    rw [hregister] at hreg
    exact (List.append_nil tried).symm ▸ hreg.congr rfl rfl
  | @failed node tree id r e s₁ _ hregister hroot =>
    have hreg := registered tree (.adopting node typeName)
    rw [hregister] at hreg
    have happlied := (hreg.applyRoot hroot).of_subset (List.subset_append_left tried [id])
    exact (List.append_nil tried).symm ▸ (happlied.unregister id).congr rfl rfl
  | @made node tree id r s₁ _ hregister hroot =>
    have hreg := registered tree (.adopting node typeName)
    rw [hregister] at hreg
    exact hreg.applyRoot hroot

/-- Every request notes what its attempts depended on. -/
lemma Noted.serve (h : Noted s tried) (request : SessionRequest H) :
    Noted (s.serve request).2 (tried ++ (s.serve request).1) := by
  cases request with
  | register w b path? => exact (List.append_nil tried).symm ▸ h.register w b path?
  | unregister id => exact (List.append_nil tried).symm ▸ h.unregister id
  | watchStyles w path => exact h.watchStyles w path
  | discover w dir => exact (List.append_nil tried).symm ▸ h.discover w dir
  | instantiate w typeName => exact h.instantiate w typeName
  | edit tree => exact (List.append_nil tried).symm ▸ h.congr rfl rfl
  | provide capabilities => exact (List.append_nil tried).symm ▸ h.congr rfl rfl
  | handle w path => exact h.handle w path

/-- The invariant holds in every session that requests lead to. -/
theorem Reached.noted (h : s.Reached tried) : Noted s tried := by
  induction h with
  | new settings capabilities => exact .new settings capabilities
  | serve request _ ih => exact ih.serve request

/-- A document with an empty component. -/
lemma ofText_emptyComponent :
    Definition.ofText "<Component type=\"A\"/>" = .ok ⟨"A", false, false, [], [], []⟩ := by
  rw [Definition.ofText_ofList]
  cbv

end Session

end ViewMarkup
