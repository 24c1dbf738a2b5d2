import ViewMarkup.Proofs.Session.Providing
import ViewMarkup.Session.Polling

/-!
# What a session keeps track of

A session notes in several places which documents it has to do with: the roots and the documents
that they are bound to, the definitions and where they were read, the broken documents and the
errors. Requests change these one by one and may fail on the way. Still they fit together at all
times: nothing is watched that no root is bound to, no definition outlives its document, and no
document is broken without an error.

## Main definitions

* `Session.Arises` — a session came about by requests and by letting time pass.
* `Session.Subscribed`, `Session.Owned`, `Session.Diagnosed` — how the collections fit together.
* `Session.Tidy` — all of this.

## Main statements

* `Session.unregister_cases` — everything that the leaving of a root can do.
* `Session.Tidy.serve` — requests keep the collections together.
* `Session.bookkeeping_of_arises` — what is kept of documents, definitions and errors.
-/

namespace ViewMarkup

variable {H : Type}

/-- A value that changes stays where it is. -/
lemma Table.contains_modify {κ α : Type} [DecidableEq κ] (t : Table κ α) (k k' : κ) (f : α → α) :
    (t.modify k f).contains k' = t.contains k' := by
  rw [contains, contains, get?_modify]
  split
  · exact Option.isSome_map
  · rfl

/-- What is erased is gone, and nothing else. -/
lemma Table.contains_erase {κ α : Type} [DecidableEq κ] {t : Table κ α} {k k' : κ} :
    (t.erase k).contains k' = true ↔ k ≠ k' ∧ t.contains k' = true := by
  rw [contains, contains, get?_erase]
  split
  · next h => exact iff_of_false Bool.false_ne_true fun hk => hk.1 h
  · next h => exact ⟨fun hk => ⟨h, hk⟩, fun hk => hk.2⟩

namespace DefinitionStore

/-- What is left when a path is removed belongs to other paths. -/
lemma owner?_removePath_eq_some_iff {s : DefinitionStore} (hs : s.Sound) {path : Path}
    {name : String} {key : PathKey} :
    (s.removePath path).owner? name = some key ↔ s.owner? name = some key ∧ key ≠ path.key := by
  refine ⟨fun ho => ?_, fun ho => owner?_removePath hs ho.1 ho.2⟩
  rw [owner?, Precedes.get?_removePath hs] at ho
  obtain ⟨e, he, rfl⟩ := Option.map_eq_some_iff.1 ho
  obtain ⟨he, hne⟩ := Option.filter_eq_some_iff.1 he
  exact ⟨by rw [owner?, he, Option.map_some], by simpa using hne⟩

end DefinitionStore

namespace Session

variable {s s' : Session H}

/-! ### Reachable sessions -/

/-- **A session came about** by requests, by roots leaving whose nodes are gone, and by watchers
looking at their files, while changes waited to be handled or were taken out to be handled. -/
inductive Arises [Widget H] : Session H → Prop where
  /-- A new session. -/
  | new (settings : Settings) (capabilities : Capabilities H) : Arises { settings, capabilities }
  /-- One more request. -/
  | serve {s : Session H} (request : SessionRequest H) : Arises s → Arises (s.serve request).2
  /-- Roots leave whose nodes are gone. -/
  | prune {s : Session H} : Arises s → Arises s.prune
  /-- Every watcher looks at its file. -/
  | poll {s : Session H} (files : Directory) : Arises s → Arises (s.poll files)
  /-- Other changes wait. -/
  | requeue {s : Session H} (queue : List Path) : Arises s → Arises { s with queue }

namespace Arises

variable [Widget H]

/-- What arose before changes were handled has arisen after. -/
lemma handleAll (w : World) (paths : List Path) (h : s.Arises) :
    (s.handleAll w paths).2.Arises := by
  induction paths generalizing s with
  | nil => exact h
  | cons path paths ih => exact ih (h.serve (.handle w path))

/-- So it is with all changes that wait. -/
lemma processPending (w : World) (h : s.Arises) : (s.processPending w).2.Arises :=
  (h.requeue []).handleAll w s.queue

/-- So it is when time passes. -/
lemma run (w : World) (h : s.Arises) : (s.run w).Arises :=
  ((h.processPending w).poll w.files).processPending w

/-- So it is when everything is reloaded. -/
lemma reloadAll (h : s.Arises) : s.reloadAll.Arises := h.prune.requeue _

/-- So it is when several documents of shared styles are watched. -/
lemma watchAllStyles (w : World) (paths : List Path) (h : s.Arises) :
    (s.watchAllStyles w paths).2.Arises := by
  induction paths generalizing s with
  | nil => exact h
  | cons path paths ih =>
    have hw := h.serve (.watchStyles w path)
    change (s.watchStyles w path).2.Arises at hw
    unfold Session.watchAllStyles
    split
    · next hs => rw [hs] at hw; exact ih hw
    · next hs => rwa [hs] at hw

/-- So it is when a session is started. -/
lemma start (w : World) (h : s.Arises) : (s.start w).2.Arises := by
  have hw := h.watchAllStyles w s.settings.sharedStyles
  unfold Session.start
  split
  · next hs => rwa [hs] at hw
  · next s' hs =>
    rw [hs] at hw
    split
    · exact hw
    · next root _ =>
      have hd := hw.serve (.discover w root)
      change (s'.discover w root).2.Arises at hd
      split <;> next hs' => rwa [hs'] at hd

end Arises

/-! ### How the collections fit together -/

/-- The document that a root is bound to. -/
def documentOf? (s : Session H) (id : RootId) : Option PathKey :=
  (s.roots.get? id).map (·.path.key)

/-- The roots that are noted for a document. -/
def subscribersOf (s : Session H) (key : PathKey) : List RootId :=
  ((s.documents.get? key).map (·.subscribers)).getD []

/-- The watched documents are those that roots are bound to, and each has noted its roots. -/
structure Subscribed (s : Session H) : Prop where
  /-- A document has noted the roots that are bound to it. -/
  mem_iff : ∀ key id, id ∈ s.subscribersOf key ↔ s.documentOf? id = some key
  /-- Each of them is noted once. -/
  nodup : ∀ key, (s.subscribersOf key).Nodup
  /-- A watched document has some. -/
  ne_nil : ∀ key, s.documents.contains key = true → s.subscribersOf key ≠ []

/-- Every definition was read from a document that stays. -/
def Owned (s : Session H) : Prop :=
  ∀ name key, s.definitions.owner? name = some key →
    s.documents.contains key = true ∨ key ∈ s.discovered

/-- Every broken document has an error. -/
def Diagnosed (s : Session H) : Prop :=
  ∀ key ∈ s.broken, ∃ p : Path, p.key = key ∧ s.diagnostics.contains p = true

/-- **The invariant** about what a session keeps track of. -/
structure Tidy (s : Session H) : Prop where
  /-- Roots and definitions are stored soundly. -/
  noted : Noted s []
  /-- Documents and roots fit together. -/
  subscribed : s.Subscribed
  /-- Definitions and documents fit together. -/
  owned : s.Owned
  /-- Broken documents and errors fit together. -/
  diagnosed : s.Diagnosed

/-- A document with subscribers is watched. -/
lemma contains_of_mem_subscribersOf {key : PathKey} {id : RootId}
    (h : id ∈ s.subscribersOf key) : s.documents.contains key = true := by
  rw [Table.contains]
  cases hw : s.documents.get? key with
  | none =>
    rw [subscribersOf, hw] at h
    cases h
  | some watch => rfl

/-- The subscribers of a watched document. -/
lemma subscribersOf_of_get? {key : PathKey} {watch : DocumentWatch}
    (h : s.documents.get? key = some watch) : s.subscribersOf key = watch.subscribers := by
  rw [subscribersOf, h]
  rfl

/-! ### Roots and their documents -/

namespace Subscribed

/-- A new session has no roots and no subscribers. -/
lemma new (settings : Settings) (capabilities : Capabilities H) :
    Subscribed ({ settings, capabilities } : Session H) where
  mem_iff _ _ := iff_of_false List.not_mem_nil nofun
  nodup _ := List.nodup_nil
  ne_nil _ := nofun

/-- Roots may change if they keep their documents, and so may watchers. -/
lemma congr (h : s.Subscribed) (hr : ∀ id, s'.documentOf? id = s.documentOf? id)
    (hd : ∀ key, (s'.documents.get? key).map (·.subscribers) =
      (s.documents.get? key).map (·.subscribers)) : s'.Subscribed := by
  have same : ∀ key, s'.subscribersOf key = s.subscribersOf key := fun key =>
    congrArg (Option.getD · []) (hd key)
  refine ⟨fun key id => ?_, fun key => same key ▸ h.nodup key, fun key hc => ?_⟩
  · rw [same, hr, h.mem_iff]
  · rw [same]
    refine h.ne_nil key ?_
    rw [Table.contains, ← Option.isSome_map, ← hd, Option.isSome_map]
    exact hc

/-- A root comes, and is noted for its document. -/
lemma join (h : s.Subscribed) {id : RootId} {key : PathKey} (hnew : s.documentOf? id = none)
    (hr : ∀ id', s'.documentOf? id' = if id' = id then some key else s.documentOf? id')
    (hd : ∀ key', s'.subscribersOf key' =
      if key = key' then s.subscribersOf key' ++ [id] else s.subscribersOf key')
    (hc : ∀ key', s'.documents.contains key' = true → key = key' ∨
      s.documents.contains key' = true) : s'.Subscribed := by
  have fresh : ∀ key', id ∉ s.subscribersOf key' := fun key' hm => by
    rw [h.mem_iff, hnew] at hm
    cases hm
  refine ⟨fun key' id' => ?_, fun key' => ?_, fun key' hc' => ?_⟩
  · rw [hd, hr]
    by_cases hid : id' = id
    · subst hid
      by_cases hk : key = key' <;> simp [hk, fresh]
    · by_cases hk : key = key' <;> simp [hid, hk, h.mem_iff]
  · rw [hd]
    split
    · refine List.nodup_append.2 ⟨h.nodup key', List.nodup_singleton id, fun a ha b hb => ?_⟩
      rw [List.mem_singleton.1 hb]
      rintro rfl
      exact fresh key' ha
    · exact h.nodup key'
  · rw [hd]
    split
    · exact List.append_ne_nil_of_right_ne_nil _ (List.cons_ne_nil _ _)
    · next hne => exact h.ne_nil key' ((hc key' hc').resolve_left hne)

/-- A root leaves, and its document with it if no other root is noted for it. -/
lemma leave (h : s.Subscribed) {id : RootId} {key : PathKey} (hid : s.documentOf? id = some key)
    (hr : ∀ id', s'.documentOf? id' = if id = id' then none else s.documentOf? id')
    (hd : ∀ key', s'.subscribersOf key' =
      if key = key' then (s.subscribersOf key').filter (· ≠ id) else s.subscribersOf key')
    (hc : ∀ key', s'.documents.contains key' = true → s.documents.contains key' = true ∧
      (key = key' → (s.subscribersOf key').filter (· ≠ id) ≠ [])) : s'.Subscribed := by
  refine ⟨fun key' id' => ?_, fun key' => ?_, fun key' hc' => ?_⟩
  · rw [hd, hr]
    by_cases hid' : id = id'
    · subst hid'
      by_cases hk : key = key'
      · simp [hk]
      · simp [hk, h.mem_iff, hid]
    · by_cases hk : key = key' <;> simp [hk, hid', h.mem_iff, Ne.symm hid']
  · rw [hd]
    split
    · exact (h.nodup key').filter _
    · exact h.nodup key'
  · rw [hd]
    obtain ⟨hk, hne⟩ := hc key' hc'
    split
    · next heq => exact hne heq
    · exact h.ne_nil key' hk

end Subscribed

/-- **Everything that the leaving of a root can do**: nothing if the root is not registered. Else
the root goes, and with the last one that is noted for a document the document goes; if no document
is watched for the root, nothing else happens. -/
theorem unregister_cases (s : Session H) (id : RootId) :
    (s.roots.get? id = none ∧ (s.unregister id).2 = s) ∨
    ∃ r, s.roots.get? id = some r ∧
      ((s.documents.get? r.path.key = none ∧
          (s.unregister id).2 = { s with roots := s.roots.erase id }) ∨
        ∃ watch, s.documents.get? r.path.key = some watch ∧
          (watch.subscribers.filter (· ≠ id) = [] ∧
              (s.unregister id).2 = abandon { s with roots := s.roots.erase id } r.path ∨
            watch.subscribers.filter (· ≠ id) ≠ [] ∧
              (s.unregister id).2 = { s with
                roots := s.roots.erase id
                documents := s.documents.modify r.path.key fun watch' =>
                  { watch' with subscribers := watch.subscribers.filter (· ≠ id) } })) := by
  unfold unregister
  split
  · next hr => exact .inl ⟨hr, rfl⟩
  · next r hr =>
    refine .inr ⟨r, hr, ?_⟩
    simp only
    split
    · next hw => exact .inl ⟨hw, rfl⟩
    · next watch hw =>
      refine .inr ⟨watch, hw, ?_⟩
      split
      · next hempty => exact .inl ⟨List.isEmpty_iff.1 hempty, rfl⟩
      · next hempty => exact .inr ⟨fun he => hempty (List.isEmpty_iff.2 he), rfl⟩

/-- A root that goes is bound to no document any more. -/
lemma documentOf?_erase (s : Session H) (id id' : RootId) :
    ((s.roots.erase id).get? id').map (·.path.key) =
      if id = id' then none else s.documentOf? id' := by
  rw [Roots.get?_erase]
  split <;> rfl

/-- A root leaves, and its document with it if no other root is noted for it. -/
lemma Subscribed.unregister (h : s.Subscribed) (id : RootId) : (s.unregister id).2.Subscribed := by
  rcases s.unregister_cases id with ⟨-, hs⟩ | ⟨r, hr, hcases⟩
  · rwa [hs]
  have hid : s.documentOf? id = some r.path.key := by
    rw [documentOf?, hr]
    rfl
  have hroots := documentOf?_erase s id
  rcases hcases with ⟨hw, -⟩ | ⟨watch, hw, ⟨hnil, hs⟩ | ⟨hne, hs⟩⟩
  · -- A document is watched for every registered root.
    have hc := contains_of_mem_subscribersOf ((h.mem_iff _ _).2 hid)
    rw [Table.contains, hw] at hc
    cases hc
  · rw [hs]
    refine h.leave hid hroots (fun key => ?_) fun key hc => ?_
    · change (((s.documents.erase r.path.key).get? key).map (·.subscribers)).getD [] = _
      rw [Table.get?_erase]
      split
      · next hk => rw [← hk, subscribersOf_of_get? hw, hnil]; rfl
      · rfl
    · obtain ⟨hne, hc⟩ := Table.contains_erase.1 hc
      exact ⟨hc, fun hk => (hne hk).elim⟩
  · rw [hs]
    refine h.leave hid hroots (fun key => ?_) fun key hc => ?_
    · change (((s.documents.modify r.path.key _).get? key).map (·.subscribers)).getD [] = _
      rw [Table.get?_modify]
      split
      · next hk => rw [← hk, subscribersOf_of_get? hw, hw]; rfl
      · rfl
    · refine ⟨(Table.contains_modify _ _ _ _).symm.trans hc, fun hk => ?_⟩
      rwa [← hk, subscribersOf_of_get? hw]

/-- The definitions of a document go with it, unless a search has loaded them. -/
lemma Owned.abandon (h : s.Owned) (hs : s.definitions.Sound) (path : Path) :
    (s.abandon path).Owned := by
  intro name key ho
  change (if path.key ∈ s.discovered then s.definitions
    else s.definitions.removePath path).owner? name = some key at ho
  have hkept : s.definitions.owner? name = some key ∧ (path.key = key → key ∈ s.discovered) := by
    split at ho
    · next hf => exact ⟨ho, fun hk => hk ▸ hf⟩
    · obtain ⟨ho, hk⟩ := (DefinitionStore.owner?_removePath_eq_some_iff hs).1 ho
      exact ⟨ho, fun he => (hk he.symm).elim⟩
  by_cases hk : path.key = key
  · exact .inr (hkept.2 hk)
  · exact (h name key hkept.1).imp_left fun hc => Table.contains_erase.2 ⟨hk, hc⟩

/-- A root that leaves takes no definition from a path that is still watched or found. -/
lemma Owned.unregister (h : s.Owned) (hs : s.definitions.Sound) (id : RootId) :
    (s.unregister id).2.Owned := by
  rcases s.unregister_cases id with ⟨-, he⟩ | ⟨r, -, ⟨-, he⟩ | ⟨watch, -, ⟨-, he⟩ | ⟨-, he⟩⟩⟩
  · rwa [he]
  · rwa [he]
  · rw [he]
    exact Owned.abandon (s := { s with roots := s.roots.erase id }) h hs r.path
  · rw [he]
    intro name key ho
    exact (h name key ho).imp_left (Table.contains_modify _ _ _ _).trans

/-- A document that is sound again has no error and needs none. -/
lemma Diagnosed.markSound (h : s.Diagnosed) (path : Path) : (s.markSound path).Diagnosed := by
  intro key hk
  obtain ⟨hk, hne⟩ := List.mem_filter.1 hk
  obtain ⟨p, rfl, hp⟩ := h key hk
  exact ⟨p, rfl, Diagnostics.contains_clear.2 ⟨fun he => of_decide_eq_true hne he.symm, hp⟩⟩

/-- A root that leaves takes no error from a document that stays broken. -/
lemma Diagnosed.unregister (h : s.Diagnosed) (id : RootId) : (s.unregister id).2.Diagnosed := by
  rcases s.unregister_cases id with ⟨-, he⟩ | ⟨r, -, ⟨-, he⟩ | ⟨watch, -, ⟨-, he⟩ | ⟨-, he⟩⟩⟩
  · rwa [he]
  · rwa [he]
  · rw [he]
    exact Diagnosed.markSound (s := { s with
      roots := s.roots.erase id
      documents := s.documents.erase r.path.key
      definitions := if r.path.key ∈ s.discovered then s.definitions
        else s.definitions.removePath r.path }) h r.path
  · rwa [he]

namespace Tidy

/-- A new session is tidy. -/
lemma new (settings : Settings) (capabilities : Capabilities H) :
    Tidy ({ settings, capabilities } : Session H) where
  noted := .new settings capabilities
  subscribed := .new settings capabilities
  owned _ _ ho := nomatch ho
  diagnosed _ hb := (List.not_mem_nil hb).elim

/-- Errors may be added, and the tree, the shared styles and the changes that wait do not matter. -/
lemma congr (h : s.Tidy) (hr : s'.roots = s.roots) (hd : s'.documents = s.documents)
    (hs : s'.definitions = s.definitions) (hf : s'.discovered = s.discovered)
    (hb : s'.broken = s.broken)
    (hkept : ∀ p, s.diagnostics.contains p = true → s'.diagnostics.contains p = true) :
    s'.Tidy where
  noted := h.noted.congr hs hr
  subscribed := h.subscribed.congr (fun id => by rw [documentOf?, hr]; rfl) fun key => by rw [hd]
  owned name key ho := by
    rw [hd, hf]
    exact h.owned name key (hs ▸ ho)
  diagnosed key hk := by
    obtain ⟨p, hp, hc⟩ := h.diagnosed key (hb ▸ hk)
    exact ⟨p, hp, hkept p hc⟩

/-- Reporting an error keeps the books tidy. -/
lemma report (h : s.Tidy) (path : Path) (e : SessionError) : (s.report path e).Tidy :=
  h.congr rfl rfl rfl rfl rfl fun _ hp => (Diagnostics.contains_record _).2 (.inr hp)

/-- A document that does not load has an error from then on. -/
lemma refuse (h : s.Tidy) (path : Path) (e : SessionError) :
    ((s.report path e).markBroken path).Tidy where
  noted := h.noted.congr rfl rfl
  subscribed := h.subscribed.congr (fun _ => rfl) fun _ => rfl
  owned := h.owned
  diagnosed key hk := by
    rcases List.mem_insert_iff.1 hk with rfl | hk
    · exact ⟨path, rfl, (Diagnostics.contains_record _).2 (.inl rfl)⟩
    · exact (h.report path e).diagnosed key hk

/-- A root that leaves keeps the books tidy. -/
lemma unregister (h : s.Tidy) (id : RootId) : (s.unregister id).2.Tidy :=
  ⟨h.noted.unregister id, h.subscribed.unregister id, h.owned.unregister h.noted.sound id,
    h.diagnosed.unregister id⟩

/-- So do all that leave. -/
lemma prune (h : s.Tidy) : s.prune.Tidy := by
  unfold Session.prune
  induction s.goneRoots generalizing s with
  | nil => exact h
  | cons id ids ih => exact ih (h.unregister id)

end Tidy

/-! ### Registering -/

/-- A document that is watched now has no roots yet, or it was watched before. -/
lemma watchDocument_spec {w : World} {path : Path} (h : s.watchDocument w path = (.ok (), s')) :
    s' = { s with documents := s'.documents } ∧
      (∀ key, s'.subscribersOf key = s.subscribersOf key) ∧
      ∀ key, s'.documents.contains key = true ↔ path.key = key ∨ s.documents.contains key = true := by
  unfold watchDocument at h
  split at h
  · next hc =>
    cases h
    exact ⟨rfl, fun _ => rfl, fun key => ⟨.inr, fun hk => hk.elim (· ▸ hc) id⟩⟩
  · next hc =>
    split at h
    · cases h
    · cases h
      rw [Table.contains, Bool.not_eq_true, Option.isSome_eq_false_iff, Option.isNone_iff_eq_none]
        at hc
      refine ⟨rfl, fun key => ?_, fun key => ?_⟩
      · rw [subscribersOf, subscribersOf, Table.get?_insert]
        split
        · next hk => rw [← hk, hc]; rfl
        · rfl
      · rw [Table.contains, Table.get?_insert]
        split
        · next hk => exact iff_of_true rfl (.inl hk)
        · next hk => exact ⟨.inr, fun ho => ho.resolve_left hk⟩

/-- A new root is noted for its document. -/
lemma subscribersOf_addRoot (b : Binding) {path : Path}
    (hc : s.documents.contains path.key = true) (key : PathKey) :
    (s.addRoot b path).2.subscribersOf key =
      if path.key = key then s.subscribersOf key ++ [⟨s.roots.issued⟩] else s.subscribersOf key := by
  change (((s.documents.modify path.key _).get? key).map (·.subscribers)).getD [] = _
  rw [Table.get?_modify]
  split
  · next hk =>
    obtain ⟨watch, hw⟩ := Option.isSome_iff_exists.1 hc
    rw [← hk, subscribersOf_of_get? hw, hw]
    rfl
  · rfl

/-- A new root is bound to its document. -/
lemma documentOf?_addRoot (s : Session H) (b : Binding) (path : Path) (id : RootId) :
    (s.addRoot b path).2.documentOf? id =
      if id = ⟨s.roots.issued⟩ then some path.key else s.documentOf? id := by
  change ((s.roots.insert b path).2.get? id).map (·.path.key) = _
  rw [Roots.get?_insert]
  split
  · next hid => exact (if_pos hid).symm
  · next hid => exact (if_neg hid).symm

namespace Tidy

/-- Registering a root keeps the books tidy. -/
lemma register (h : s.Tidy) (w : World) (b : Binding) (path? : Option Path) :
    (s.register w b path?).2.Tidy := by
  have hnoted := h.noted.register w b path?
  unfold Session.register at hnoted ⊢
  split
  · exact h
  · next path hpath =>
    simp only [hpath] at hnoted
    split
    · next e s' hs =>
      have hs' : s' = s.report path e := by
        unfold watchDocument at hs
        split at hs
        · cases hs
        · split at hs <;> cases hs
          rfl
      exact hs' ▸ h.report path e
    · next s' hs =>
      rw [hs] at hnoted
      obtain ⟨he, hsub, hcon⟩ := watchDocument_spec hs
      have hroots : s'.roots = s.roots := by rw [he]
      have hwatched : ∀ key, (s'.addRoot b path).2.documents.contains key = true ↔
          path.key = key ∨ s.documents.contains key = true := fun key => by
        rw [← hcon]
        exact iff_of_eq (congrArg (· = true) (Table.contains_modify _ _ _ _))
      refine ⟨hnoted, ?_, fun name key ho => ?_, ?_⟩
      · have hnew : s.documentOf? ⟨s.roots.issued⟩ = none := by
          rw [documentOf?, Option.map_eq_none_iff, Option.eq_none_iff_forall_ne_some]
          exact fun r hr => Nat.lt_irrefl _ (h.noted.lt_issued _ r hr)
        change ((s'.addRoot b path).2.enqueue path).Subscribed
        refine h.subscribed.join hnew (fun id => ?_) (fun key => ?_) fun key => (hwatched key).1
        · refine (documentOf?_addRoot s' b path id).trans ?_
          rw [hroots, documentOf?, hroots, ← documentOf?]
        · refine (subscribersOf_addRoot b ((hcon path.key).2 (.inl rfl)) key).trans ?_
          rw [hsub, hroots]
      · change s'.definitions.owner? name = some key at ho
        rw [he] at ho
        refine (h.owned name key ho).imp (fun hc => (hwatched key).2 (.inr hc)) fun hf => ?_
        change key ∈ s'.discovered
        rwa [he]
      · change s'.Diagnosed
        rw [he]
        exact h.diagnosed

/-! ### Searching -/

/-- So does a document that a search finds. -/
lemma discoverDocument (h : s.Tidy) (w : World) (found : List String) (path : Path) :
    (discoverDocument w s found path).1.Tidy := by
  have hnoted := h.noted.discoverDocument w found path
  unfold Session.discoverDocument at hnoted ⊢
  split
  · exact h.refuse path _
  · next d hd =>
    simp only [hd] at hnoted
    split
    · exact h
    · next hc =>
      rw [if_neg hc] at hnoted
      refine ⟨hnoted, h.subscribed.congr (fun _ => rfl) fun _ => rfl, fun name key ho => ?_,
        Diagnosed.markSound (s := { s with
          definitions := (d.definitions.foldl (learn path) (s.definitions, found)).1
          discovered := s.discovered.insert path.key }) h.diagnosed path⟩
      change (d.definitions.foldl (learn path) (s.definitions, found)).1.owner? name = some key at ho
      rw [DefinitionStore.learn_foldl_fst, DefinitionStore.owner?_foldl_insert] at ho
      change s.documents.contains key = true ∨ key ∈ s.discovered.insert path.key
      rw [List.mem_insert_iff]
      split at ho
      · exact .inr (.inl (Option.some.inj ho).symm)
      · exact (h.owned name key ho).imp_right .inr

/-- So does a whole search. -/
lemma discover (h : s.Tidy) (w : World) (dir : Path) : (s.discover w dir).2.Tidy :=
  discover_induction (P := Tidy) dir h (h.report dir) fun _ found path h =>
    h.discoverDocument w found path

/-! ### Handling a change -/

/-- A document is loaded, and is no longer broken. -/
lemma load (h : s.Tidy) {w : World} {path : Path} {loaded : Session H}
    (hl : s.load? w path = some (.ok loaded)) : (loaded.markSound path).Tidy := by
  have hnoted : Noted loaded [] := by
    obtain ⟨hp, hr⟩ := load?_spec h.noted.sound hl
    exact h.noted.later hp hr
  suffices hloaded : loaded.Subscribed ∧ loaded.Owned ∧ loaded.Diagnosed from
    ⟨hnoted.congr rfl rfl, hloaded.1.congr (fun _ => rfl) fun _ => rfl, hloaded.2.1,
      hloaded.2.2.markSound path⟩
  unfold load? at hl
  split at hl
  · have hl := Option.some.inj hl
    unfold loadStyles at hl
    split at hl
    · cases hl
    · cases hl
      refine ⟨h.subscribed.congr (fun _ => rfl) fun _ => rfl, fun name key ho => ?_, h.diagnosed⟩
      exact h.owned name key ((DefinitionStore.owner?_renewAll _ _).symm.trans ho)
  · split at hl
    · next hc =>
      have hl := Option.some.inj hl
      unfold loadDocument at hl
      split at hl
      · cases hl
      · next d _ =>
        cases hl
        refine ⟨h.subscribed.congr (fun _ => rfl) fun _ => rfl, fun name key ho => ?_, h.diagnosed⟩
        change (s.definitions.insertDocument d path).owner? name = some key at ho
        rw [DefinitionStore.insertDocument, DefinitionStore.owner?_foldl_insert] at ho
        split at ho
        · exact .inl (Option.some.inj ho ▸ hc)
        · exact h.owned name key
            ((DefinitionStore.owner?_removePath_eq_some_iff h.noted.sound).1 ho).1
    · cases hl

/-- Attempts to apply roots change nothing that is kept together, but for errors that they add. -/
lemma tries (h : s.Tidy) {as : List Attempt} (ht : s.Tries as s') (hn : Noted s' []) :
    s'.Tidy where
  noted := hn
  subscribed := h.subscribed.congr
    (fun id => by
      have hp := congrArg (Option.map Path.key) (ht.path_eq id)
      rwa [Option.map_map, Option.map_map] at hp)
    fun key => by rw [ht.only]
  owned name key ho := by
    rw [ht.only] at ho ⊢
    exact h.owned name key ho
  diagnosed key hk := by
    rw [ht.only] at hk
    obtain ⟨p, hp, hc⟩ := h.diagnosed key hk
    exact ⟨p, hp, ht.kept p hc⟩

/-- The errors of broken documents are not cleared. -/
lemma clearSucceeded (h : s.Tidy) (as : List Attempt) : (s.clearSucceeded as).Tidy where
  noted := h.noted.congr rfl rfl
  subscribed := h.subscribed.congr (fun _ => rfl) fun _ => rfl
  owned := h.owned
  diagnosed key hk := by
    obtain ⟨p, rfl, hc⟩ := h.diagnosed key hk
    exact ⟨p, rfl, (contains_clearSucceeded s as p).2 ⟨hc, fun hcl => hcl.2.2 hk⟩⟩

/-- Watchers may look at their files. -/
lemma poll (h : s.Tidy) (files : Directory) : (s.poll files).Tidy where
  noted := h.noted.congr rfl rfl
  subscribed := h.subscribed.congr (fun _ => rfl) fun key => by
    change ((s.documents.map _).get? key).map _ = _
    rw [Table.get?_map, Option.map_map]
    rfl
  owned name key ho := by
    refine (h.owned name key ho).imp_left fun hc => ?_
    change ((s.documents.map _).get? key).isSome = true
    rw [Table.get?_map, Option.isSome_map]
    exact hc
  diagnosed := h.diagnosed

variable [Widget H]

/-- Applying roots again keeps the books tidy. -/
lemma reapply (h : s.Tidy) (changed : Path) : (s.reapply changed).2.Tidy := by
  obtain ⟨-, ht⟩ := s.attemptAll_tries ((s.staleRoots changed).map fun e => (e.1, e.2.path))
  have registered : ∀ e ∈ (s.staleRoots changed).map fun e => (e.1, e.2.path),
      ∃ r, s.roots.get? e.1 = some r := by
    intro e he
    obtain ⟨e', he', rfl⟩ := List.mem_map.1 he
    exact ⟨e'.2, (h.noted.mem_staleRoots_iff.1 he').1⟩
  have ids : ∀ id ∈ ((s.staleRoots changed).map fun e => (e.1, e.2.path)).map (·.1),
      ∃ r, s.roots.get? id = some r := fun id hid => by
    obtain ⟨e, he, rfl⟩ := List.mem_map.1 hid
    exact registered e he
  have hn := h.noted.attempts (Attempts.attemptAll _ registered).2 ids
  exact (h.tries ht (hn.of_subset (List.nil_subset _))).clearSucceeded _

/-- So does handling a change. -/
lemma handle (h : s.Tidy) (w : World) (path : Path) : (s.handle w path).2.Tidy := by
  cases hl : s.prune.load? w path with
  | none => rw [handle_of_load?_eq_none hl]; exact h.prune
  | some result =>
    cases result with
    | error e => rw [handle_of_load?_eq_error hl]; exact h.prune.refuse path e
    | ok loaded => rw [handle_of_load?_eq_ok hl]; exact (h.prune.load hl).reapply path

/-! ### Requests -/

/-- So does watching shared styles. -/
lemma watchStyles (h : s.Tidy) (w : World) (path : Path) : (s.watchStyles w path).2.Tidy :=
  watchStyles_induction (P := Tidy) w path h (h.report path)
    (fun _ => h.congr rfl rfl rfl rfl rfl fun _ hp => hp) fun _ h => h.handle w path

/-- A root that is made may leave again at once. -/
lemma instantiate (h : s.Tidy) (w : World) (typeName : String) :
    (s.instantiate w typeName).2.Tidy :=
  instantiate_induction (P := Tidy) w typeName h
    (fun _ _ h => h.congr rfl rfl rfl rfl rfl fun _ hp => hp) (fun _ b h => h.register w b none)
    (fun s id _ hroot h => h.tries (s.applyRoot_tries id).1
      ((h.noted.applyRoot hroot).of_subset (List.nil_subset _)))
    (fun _ id h => h.unregister id) fun _ _ h => h.congr rfl rfl rfl rfl rfl fun _ hp => hp

/-- **Requests keep the collections together.** -/
theorem serve (h : s.Tidy) (request : SessionRequest H) : (s.serve request).2.Tidy := by
  cases request with
  | register w b path? => exact h.register w b path?
  | unregister id => exact h.unregister id
  | watchStyles w path => exact h.watchStyles w path
  | discover w dir => exact h.discover w dir
  | instantiate w typeName => exact h.instantiate w typeName
  | edit tree => exact h.congr rfl rfl rfl rfl rfl fun _ hp => hp
  | provide capabilities => exact h.congr rfl rfl rfl rfl rfl fun _ hp => hp
  | handle w path => exact h.handle w path

end Tidy

variable [Widget H]

/-- Whatever arises is tidy. -/
lemma Arises.tidy (h : s.Arises) : s.Tidy := by
  induction h with
  | new settings capabilities => exact .new settings capabilities
  | serve request _ ih => exact ih.serve request
  | prune _ ih => exact ih.prune
  | poll files _ ih => exact ih.poll files
  | requeue queue _ ih => exact ih.congr rfl rfl rfl rfl rfl fun _ hp => hp

/-- **What is kept of documents, definitions and errors.** In every session that requests lead to, a
document is watched exactly if a root is bound to it, and exactly those roots are noted for it, each
once. Every definition was read from a watched document or from one that a search has loaded, and
every broken document has an error.

**Proof sketch.** Each collection is changed together with those that it has to fit: a root is noted
for its document when it comes and struck out when it leaves, the last one takes the document and
its definitions with it (`unregister_cases`), and an error is cleared together with the mark of a
broken document, or only if there is no such mark. Steps that fail have changed nothing but errors,
the tree and generations, or are taken back by a root leaving. -/
theorem bookkeeping_of_arises (h : s.Arises) :
    (∀ key, s.documents.contains key = true ↔
      ∃ id r, s.roots.get? id = some r ∧ r.path.key = key) ∧
    (∀ key watch, s.documents.get? key = some watch → watch.subscribers.Nodup ∧
      ∀ id, id ∈ watch.subscribers ↔ ∃ r, s.roots.get? id = some r ∧ r.path.key = key) ∧
    (∀ name e, s.definitions.get? name = some e →
      s.documents.contains e.path.key = true ∨ e.path.key ∈ s.discovered) ∧
    ∀ key ∈ s.broken, ∃ p message, p.key = key ∧ s.diagnostics.get? p = some message := by
  obtain ⟨-, hsub, howned, hdiag⟩ := h.tidy
  have bound : ∀ key id, id ∈ s.subscribersOf key ↔
      ∃ r, s.roots.get? id = some r ∧ r.path.key = key := fun key id => by
    rw [hsub.mem_iff, documentOf?, Option.map_eq_some_iff]
  refine ⟨fun key => ⟨fun hc => ?_, ?_⟩, fun key watch hw => ?_, fun name e he => ?_,
    fun key hk => ?_⟩
  · obtain ⟨id, hid⟩ := List.exists_mem_of_ne_nil _ (hsub.ne_nil key hc)
    exact ⟨id, (bound key id).1 hid⟩
  · rintro ⟨id, hid⟩
    exact contains_of_mem_subscribersOf ((bound key id).2 hid)
  · rw [← subscribersOf_of_get? hw]
    exact ⟨hsub.nodup key, bound key⟩
  · exact howned name e.path.key (by rw [DefinitionStore.owner?, he, Option.map_some])
  · obtain ⟨p, hp, hc⟩ := hdiag key hk
    obtain ⟨message, hm⟩ := Option.isSome_iff_exists.1 hc
    exact ⟨p, message, hp, hm⟩

/-- A session with a root whose document is not there. -/
def boundToNothing : Session Empty :=
  let tree := (({} : ViewTree Empty).insert { element := .generic (.wrapper "A") }).2
  let edited := (({ settings := {}, capabilities := {} } : Session Empty).serve (.edit tree)).2
  (edited.serve (.register ⟨{}, true⟩ (.adopting ⟨0⟩ "A") (some ⟨"a"⟩))).2

/-- When the document could not be read, it stays watched for its root, and has an error. -/
theorem bookkeeping_boundToNothing :
    let s := (boundToNothing.serve (.handle ⟨{}, true⟩ ⟨"a"⟩)).2
    (∃ id r, s.roots.get? id = some r ∧ r.path.key = (Path.mk "a").key) ∧
      s.broken = [(Path.mk "a").key] ∧
      ∃ p message, p.key = (Path.mk "a").key ∧ s.diagnostics.get? p = some message := by
  intro s
  have fresh : Arises ({ settings := {}, capabilities := {} } : Session Empty) := .new {} {}
  have h : s.Arises := ((fresh.serve (.edit _)).serve (.register _ _ _)).serve (.handle _ _)
  have hl : boundToNothing.prune.load? ⟨{}, true⟩ ⟨"a"⟩ =
      some (.error (.unreadable ⟨"a"⟩ .notFound)) := by cbv
  have hs : s = (boundToNothing.prune.report ⟨"a"⟩ (.unreadable ⟨"a"⟩ .notFound)).markBroken ⟨"a"⟩ :=
    congrArg Prod.snd (handle_of_load?_eq_error hl)
  have hwatched : s.documents.contains (Path.mk "a").key = true := by
    have hc : boundToNothing.prune.documents.contains (Path.mk "a").key = true := by cbv
    rw [hs]
    exact hc
  have hbroken : s.broken = [(Path.mk "a").key] := by
    have hb : boundToNothing.prune.broken = [] := by cbv
    rw [hs]
    change boundToNothing.prune.broken.insert (Path.mk "a").key = _
    rw [hb, List.insert_nil]
  obtain ⟨hroots, -, -, hdiag⟩ := bookkeeping_of_arises h
  exact ⟨(hroots _).1 hwatched, hbroken, hdiag _ (hbroken ▸ List.mem_singleton_self _)⟩

end Session

end ViewMarkup
