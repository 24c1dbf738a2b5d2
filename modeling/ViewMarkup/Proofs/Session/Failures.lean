import Mathlib.Data.Set.Basic
import ViewMarkup.Proofs.Session.Reports

/-!
# Failures that still stand

When the handling of a change could not apply a root, there is an error for the root's document, and
the error is to stay until the root is attempted again or leaves. Errors are kept by documents, though,
and several roots may be bound to one. Two things remove the error of a root that is left alone: a
search that loads its document, and a change after which another root of the document is applied and
none of them fails. Nothing else does, whatever is asked of the session.

## Main definitions

* `Session.handling?` — the handling of a change in the course of a request.
* `Session.Disturbs` — a request removes the error of a root that it does not attempt.
* `Session.Failing` — a session came about by requests, and handling left given roots failed.
* `Session.Reported` — what is invariant about registered roots and the errors of their documents.

## Main statements

* `Session.Reported.serve` — what a request does to the errors of failed roots.
* `Session.diagnostics_of_failing` — a failure that still stands has an error.
-/

namespace ViewMarkup

variable {H : Type}

namespace Session

/-- A search below a directory loads the document of a path. -/
def Discovers (s : Session H) (w : World) (dir path : Path) : Prop :=
  ∃ files, w.files.filesBelow dir = .ok files ∧ ∃ found ∈ files, s.settings.isDocument found = true ∧
    found.key = path.key ∧ ∃ d, w.readDefinition found = .ok d ∧ d.typeName ∉ s.settings.compiled

section

variable [Widget H]

/-- The handling of a change in the course of a request, if there is one: the change may be reported,
or a document of shared styles may be loaded for the first time. -/
def handling? (s : Session H) : SessionRequest H → Option Outcome
  | .handle w path => some (s.handle w path).1
  | .watchStyles w path =>
      if s.styleDocuments.contains path.key then none
      else
        match s.startWatcher w path with
        | .error _ => none
        | .ok watcher =>
            let s := { s with styleDocuments := s.styleDocuments.insert path.key { path, watcher } }
            some (s.handle w path).1
  | _ => none

/-- The roots that the handling in the course of a request applied. -/
def reappliedBy (s : Session H) (request : SessionRequest H) : List RootId :=
  (s.handling? request).elim [] (·.reapplied)

/-- The roots that it could not apply. -/
def failedBy (s : Session H) (request : SessionRequest H) : List RootId :=
  (s.handling? request).elim [] (·.failed)

/-- **A request removes the error of a root without attempting it**: a search loads the root's
document, or a change is handled after which another root of the document is applied, none of them
fails, and the document is not broken. -/
inductive Disturbs (s : Session H) : SessionRequest H → RootId → Prop where
  /-- A search. -/
  | discover {w : World} {dir : Path} {id : RootId} {r : Root} : s.roots.get? id = some r →
      s.Discovers w dir r.path → Disturbs s (.discover w dir) id
  /-- The success of another root. -/
  | silence {request : SessionRequest H} {o : Outcome} {id : RootId} {r : Root} :
      s.handling? request = some o → id ∉ o.attempted →
      (s.serve request).2.roots.get? id = some r → (s.serve request).2.Silences o r.path →
      Disturbs s request id

/-- **A session came about by requests.** The first roots given are those whose last attempt made when
a change was handled has failed. The error of the second ones was removed since, though they were not
attempted again. -/
inductive Failing : Session H → Set RootId → Set RootId → Prop where
  /-- A new session. -/
  | new (settings : Settings) (capabilities : Capabilities H) :
      Failing { settings, capabilities } ∅ ∅
  /-- One more request. -/
  | serve {s : Session H} {failing disturbed : Set RootId} (request : SessionRequest H) :
      Failing s failing disturbed →
      Failing (s.serve request).2
        {id | id ∈ s.failedBy request ∨ id ∈ failing ∧ id ∉ s.reappliedBy request}
        {id | (id ∈ disturbed ∨ s.Disturbs request id) ∧
          id ∉ s.failedBy request ∧ id ∉ s.reappliedBy request}

end

/-- **The invariant of reports**: every registered root is among the subscribers of its document, and
every root whose failure stands has an error for its document. -/
structure Reported (s : Session H) (standing : Set RootId) : Prop where
  /-- Registered roots are subscribers of their documents. -/
  subscribed : ∀ id r, s.roots.get? id = some r →
    ∃ watch, s.documents.get? r.path.key = some watch ∧ id ∈ watch.subscribers
  /-- Roots whose failure stands have identities that were given. -/
  lt_issued : ∀ id ∈ standing, id.index < s.roots.issued
  /-- They have errors. -/
  reported : ∀ id ∈ standing, ∀ r, s.roots.get? id = some r → s.diagnostics.contains r.path = true

namespace Reported

variable {s s' : Session H} {standing standing' : Set RootId}

/-- A new session has no roots. -/
lemma new (settings : Settings) (capabilities : Capabilities H) :
    Reported ({ settings, capabilities } : Session H) ∅ where
  subscribed _ _ h := by cases h
  lt_issued _ h := h.elim
  reported _ h := h.elim

/-- What holds of failures that stand holds of some of them. -/
lemma mono (h : Reported s standing) (hsub : standing' ⊆ standing) : Reported s standing' where
  subscribed := h.subscribed
  lt_issued id hid := h.lt_issued id (hsub hid)
  reported id hid := h.reported id (hsub hid)

/-- Errors may be added. -/
lemma congr (h : Reported s standing) (hr : s'.roots = s.roots) (hd : s'.documents = s.documents)
    (hkept : ∀ p, s.diagnostics.contains p = true → s'.diagnostics.contains p = true) :
    Reported s' standing where
  subscribed := by
    rw [hr, hd]
    exact h.subscribed
  lt_issued := hr ▸ h.lt_issued
  reported id hid r hg := hkept _ (h.reported id hid r (hr ▸ hg))

/-- Reporting an error leaves a standing failure reported. -/
lemma report (h : Reported s standing) (path : Path) (e : SessionError) :
    Reported (s.report path e) standing :=
  h.congr rfl rfl fun _ hp => (Diagnostics.contains_record _).2 (.inr hp)

/-- The error of a document may be removed if no failure stands for a root of it. -/
lemma markSound (h : Reported s standing) (path : Path) :
    Reported (s.markSound path)
      {id | id ∈ standing ∧ ∀ r, s.roots.get? id = some r → r.path.key ≠ path.key} where
  subscribed := h.subscribed
  lt_issued id hid := h.lt_issued id hid.1
  reported id hid r hg :=
    Diagnostics.contains_clear.2 ⟨(hid.2 r hg).symm, h.reported id hid.1 r hg⟩

/-! ### Registering -/

/-- Watching a document leaves a standing failure reported. -/
lemma watchDocument (h : Reported s standing) (w : World) (path : Path) :
    Reported (s.watchDocument w path).2 standing := by
  unfold Session.watchDocument
  split
  · exact h
  · next hc =>
    split
    · exact h.report _ _
    · refine ⟨fun id r hg => ?_, h.lt_issued, h.reported⟩
      -- No root is bound to a document that is not watched yet.
      obtain ⟨watch, hw, hid⟩ := h.subscribed id r hg
      have hne : path.key ≠ r.path.key := by
        intro hk
        rw [Table.contains, hk, hw] at hc
        exact hc rfl
      exact ⟨watch, by rw [Table.get?_insert, if_neg hne, hw], hid⟩

/-- A document that could be watched is watched. -/
lemma contains_watchDocument {w : World} {path : Path} (h : s.watchDocument w path = (.ok (), s')) :
    ∃ watch, s'.documents.get? path.key = some watch := by
  unfold Session.watchDocument at h
  split at h
  · next hc =>
    cases h
    exact Option.isSome_iff_exists.1 hc
  · split at h
    · cases h
    · cases h
      exact ⟨_, by rw [Table.get?_insert, if_pos rfl]⟩

/-- A new root leaves the failures of the others reported. -/
lemma addRoot (h : Reported s standing) (b : Binding) {path : Path} {watch : DocumentWatch}
    (hw : s.documents.get? path.key = some watch) : Reported (s.addRoot b path).2 standing where
  subscribed id r hg := by
    change (s.roots.insert b path).2.get? id = some r at hg
    change ∃ watch', (s.documents.modify path.key _).get? r.path.key = some watch' ∧ _
    rw [Table.get?_modify]
    rw [Roots.get?_insert] at hg
    split at hg
    · next hid =>
      cases hg
      rw [if_pos rfl, hw]
      exact ⟨_, rfl, List.mem_append_right _ (List.mem_singleton.2 hid)⟩
    · obtain ⟨watch', hw', hid'⟩ := h.subscribed id r hg
      rw [hw']
      split
      · exact ⟨_, rfl, List.mem_append_left _ hid'⟩
      · exact ⟨_, rfl, hid'⟩
  lt_issued id hid := Nat.lt_succ_of_lt (h.lt_issued id hid)
  reported id hid r hg := by
    -- The new root has an identity that no failed one has.
    change (s.roots.insert b path).2.get? id = some r at hg
    rw [Roots.get?_insert, if_neg] at hg
    · exact h.reported id hid r hg
    · rintro rfl
      exact Nat.lt_irrefl _ (h.lt_issued _ hid)

/-- So does registering one. -/
lemma register (h : Reported s standing) (w : World) (b : Binding) (path? : Option Path) :
    Reported (s.register w b path?).2 standing := by
  unfold Session.register
  split
  · exact h
  · next path _ =>
    have hw := h.watchDocument w path
    split
    · next hs => rwa [hs] at hw
    · next hs =>
      rw [hs] at hw
      obtain ⟨watch, hwatch⟩ := contains_watchDocument hs
      exact (hw.addRoot b hwatch).congr rfl rfl fun _ hp => hp

/-- A root leaves. Its document goes with the last of its subscribers, so no failure stands for it
any more. -/
lemma unregister (h : Reported s standing) (id : RootId) :
    Reported (s.unregister id).2 standing := by
  have issued : (s.roots.erase id).issued = s.roots.issued := by
    unfold Roots.erase
    split <;> rfl
  have kept : ∀ id' r, (s.roots.erase id).get? id' = some r → id ≠ id' ∧ s.roots.get? id' = some r := by
    intro id' r hg
    rw [Roots.get?_erase] at hg
    split at hg
    · cases hg
    · next hne => exact ⟨hne, hg⟩
  unfold Session.unregister
  split
  · exact h
  · next r hr =>
    simp only
    split
    · exact ⟨fun id' r' hg => h.subscribed id' r' (kept id' r' hg).2, issued ▸ h.lt_issued,
        fun id' hid r' hg => h.reported id' hid r' (kept id' r' hg).2⟩
    · next watch hw =>
      have remains : ∀ id' r', (s.roots.erase id).get? id' = some r' → r'.path.key = r.path.key →
          id' ∈ watch.subscribers.filter (· ≠ id) := by
        intro id' r' hg hk
        obtain ⟨hne, hg⟩ := kept id' r' hg
        obtain ⟨watch', hw', hid'⟩ := h.subscribed id' r' hg
        rw [hk, hw] at hw'
        cases hw'
        exact List.mem_filter.2 ⟨hid', decide_eq_true hne.symm⟩
      split
      · next hempty =>
        have apart : ∀ id' r', (s.roots.erase id).get? id' = some r' → r.path.key ≠ r'.path.key := by
          intro id' r' hg hk
          have hm := remains id' r' hg hk.symm
          rw [List.isEmpty_iff.1 hempty] at hm
          cases hm
        refine ⟨fun id' r' hg => ?_, issued ▸ h.lt_issued, fun id' hid r' hg => ?_⟩
        · change ∃ watch', (s.documents.erase r.path.key).get? r'.path.key = some watch' ∧ _
          rw [Table.get?_erase, if_neg (apart id' r' hg)]
          exact h.subscribed id' r' (kept id' r' hg).2
        · exact Diagnostics.contains_clear.2
            ⟨apart id' r' hg, h.reported id' hid r' (kept id' r' hg).2⟩
      · refine ⟨fun id' r' hg => ?_, issued ▸ h.lt_issued,
          fun id' hid r' hg => h.reported id' hid r' (kept id' r' hg).2⟩
        change ∃ watch', (s.documents.modify r.path.key _).get? r'.path.key = some watch' ∧ _
        obtain ⟨watch', hw', hid'⟩ := h.subscribed id' r' (kept id' r' hg).2
        rw [Table.get?_modify, hw']
        split
        · next hk => exact ⟨_, rfl, remains id' r' hg hk.symm⟩
        · exact ⟨_, rfl, hid'⟩

/-- Roots that leave leave the failures of the others reported. -/
lemma prune (h : Reported s standing) : Reported s.prune standing := by
  unfold Session.prune
  induction s.goneRoots generalizing s with
  | nil => exact h
  | cons id ids ih => exact ih (h.unregister id)

/-! ### Searching -/

/-- A document that a search finds leaves standing failures reported, unless it is the document of one
of them, loads, and is not compiled in. -/
lemma discoverDocument (h : Reported s standing) (w : World) (found : List String) (path : Path)
    (hs : ∀ id ∈ standing, ∀ r, s.roots.get? id = some r → path.key = r.path.key →
      ∀ d, w.readDefinition path = .ok d → d.typeName ∈ s.settings.compiled) :
    Reported (discoverDocument w s found path).1 standing ∧
      (discoverDocument w s found path).1.roots = s.roots ∧
      (discoverDocument w s found path).1.settings = s.settings := by
  unfold Session.discoverDocument
  split
  · exact ⟨(h.report _ _).congr rfl rfl fun _ hp => hp, rfl, rfl⟩
  · next d hd =>
    split
    · exact ⟨h, rfl, rfl⟩
    · next hcompiled =>
      refine ⟨?_, rfl, rfl⟩
      have hl : ∀ definitions discovered, Reported { s with definitions, discovered } standing :=
        fun _ _ => h.congr rfl rfl fun _ hp => hp
      exact ((hl _ _).markSound path).mono fun id hid =>
        ⟨hid, fun r hg hk => hcompiled (hs id hid r hg hk.symm d hd)⟩

/-- A search removes no error of a root whose document it does not load. -/
lemma discover (h : Reported s standing) (w : World) (dir : Path) :
    Reported (s.discover w dir).2
      {id | id ∈ standing ∧ ∀ r, s.roots.get? id = some r → ¬ s.Discovers w dir r.path} := by
  have all : ∀ (paths : List Path) (acc : Session H × List String) (standing : Set RootId),
      Reported acc.1 standing → (∀ path ∈ paths, ∀ id ∈ standing, ∀ r,
        acc.1.roots.get? id = some r → path.key = r.path.key →
        ∀ d, w.readDefinition path = .ok d → d.typeName ∈ acc.1.settings.compiled) →
      Reported (paths.foldl (fun acc path => Session.discoverDocument w acc.1 acc.2 path) acc).1
        standing := by
    intro paths
    induction paths with
    | nil => exact fun _ _ h _ => h
    | cons path paths ih =>
      intro acc standing h hs
      rw [List.forall_mem_cons] at hs
      obtain ⟨h', hr, hset⟩ := h.discoverDocument w acc.2 path hs.1
      refine ih _ standing h' ?_
      rw [hr, hset]
      exact hs.2
  unfold Session.discover
  split
  · exact (h.report _ _).mono fun id hid => hid.1
  · next files hfiles =>
    refine all _ (s, []) _ (h.mono fun id hid => hid.1) fun path hp id hid r hg hk d hd => ?_
    rw [List.mem_mergeSort, List.mem_filter] at hp
    by_contra hc
    exact hid.2 r hg ⟨files, hfiles, path, hp.1, hp.2, hk, d, hd, hc⟩

/-! ### Handling a change -/

/-- Loading changes neither roots nor the documents that they are bound to nor errors. -/
lemma load? (h : Reported s standing) {w : World} {path : Path} {loaded : Session H}
    (hl : s.load? w path = some (.ok loaded)) : Reported loaded standing := by
  unfold Session.load? at hl
  split at hl
  · have hl := Option.some.inj hl
    unfold loadStyles at hl
    split at hl
    · cases hl
    · cases hl
      exact h.congr rfl rfl fun _ hp => hp
  · split at hl
    · have hl := Option.some.inj hl
      unfold loadDocument at hl
      split at hl
      · cases hl
      · cases hl
        exact h.congr rfl rfl fun _ hp => hp
    · cases hl

/-- A root that keeps its document was bound to it before. -/
lemma exists_of_path_eq
    (hpath : ∀ id, (s'.roots.get? id).map (·.path) = (s.roots.get? id).map (·.path)) {id : RootId}
    {r : Root} (hg : s'.roots.get? id = some r) :
    ∃ r', s.roots.get? id = some r' ∧ r'.path = r.path := by
  have hp := hpath id
  rw [hg] at hp
  exact Option.map_eq_some_iff.1 hp.symm

variable [Widget H]

omit [Widget H] in
/-- Only roots and errors change, and every root keeps its document. -/
lemma only (h : Reported s standing) (ho : s.OnlyRoots s')
    (hpath : ∀ id, (s'.roots.get? id).map (·.path) = (s.roots.get? id).map (·.path))
    (hlt : ∀ id ∈ standing', id.index < s'.roots.issued)
    (hkept : ∀ id ∈ standing', ∀ r, s'.roots.get? id = some r →
      s'.diagnostics.contains r.path = true) : Reported s' standing' where
  subscribed id r hg := by
    obtain ⟨r', hg', hr'⟩ := exists_of_path_eq hpath hg
    rw [← hr', show s'.documents = s.documents by rw [ho]]
    exact h.subscribed id r' hg'
  lt_issued := hlt
  reported := hkept

/-- **What the handling of a change does to the errors**: all roots that it could not apply have one,
and so has every failed root that it left alone, unless it silenced the error. -/
theorem handle {tried : List RootId} (h : Reported s standing) (hn : Noted s tried) (w : World)
    (path : Path) :
    Reported (s.handle w path).2
      {id | id ∈ (s.handle w path).1.failed ∨ id ∈ standing ∧ id ∉ (s.handle w path).1.attempted ∧
        ∀ r, (s.handle w path).2.roots.get? id = some r →
          ¬ (s.handle w path).2.Silences (s.handle w path).1 r.path} := by
  cases hl : s.prune.load? w path with
  | none =>
    rw [handle_of_load?_eq_none hl]
    refine h.prune.mono ?_
    rintro id (hm | ⟨hm, -⟩)
    · exact (List.not_mem_nil hm).elim
    · exact hm
  | some result =>
    cases result with
    | error e =>
      rw [handle_of_load?_eq_error hl]
      have R : Reported ((s.prune.report path e).markBroken path) standing :=
        (h.prune.report path e).congr rfl rfl fun _ hp => hp
      refine R.mono ?_
      rintro id (hm | ⟨hm, -⟩)
      · exact (List.not_mem_nil hm).elim
      · exact hm
    | ok loaded =>
      obtain ⟨hnl, -, hperm, hatt⟩ := hn.handle_of_load? hl
      have hh := handle_of_load?_eq_ok hl
      have hm : Noted (loaded.markSound path) tried := hnl.congr rfl rfl
      obtain ⟨ho, hpath, hfailed, hkept⟩ := hm.reapply_reports path
      rw [← hh] at ho hpath hfailed hkept
      have R := (h.prune.load? hl).markSound path
      -- A root that is left alone is not bound to the document that has changed.
      have left : ∀ id, id ∉ (s.handle w path).1.attempted →
          ∀ r, loaded.roots.get? id = some r → r.path.key ≠ path.key := fun id hid r hr hk =>
        hid (hperm.mem_iff.2 (hnl.mem_staleIds_iff.2 ⟨r, hr, isStale_iff.2 (.inl hk)⟩))
      refine R.only ho hpath ?_ ?_
      · rw [hatt.issued_eq]
        rintro id (hid | ⟨hid, hleft, -⟩)
        · obtain ⟨r, hr, -⟩ := hnl.mem_staleIds_iff.1
            (hperm.mem_iff.1 (List.mem_append_right _ hid))
          exact hnl.lt_issued id r hr
        · exact R.lt_issued id ⟨hid, left id hleft⟩
      · rintro id (hid | ⟨hid, hleft, hs⟩) r hr
        · exact hfailed id hid r hr
        · obtain ⟨r', hr', hrp⟩ := exists_of_path_eq hpath hr
          exact hkept r.path (hrp ▸ R.reported id ⟨hid, left id hleft⟩ r' hr') (hs r hr)

/-! ### Requests -/

/-- Applying a root removes no error. -/
lemma applyRoot (h : Reported s standing) {id : RootId} {r : Root}
    (hroot : s.roots.get? id = some r) : Reported (s.applyRoot id).2 standing := by
  obtain ⟨T, -⟩ := applyRoot_tries s id
  refine h.only T.only T.path_eq (fun id' hid' => ?_) fun id' hid' r' hr' => ?_
  · rw [(Attempts.applyRoot hroot).issued_eq]
    exact h.lt_issued id' hid'
  · obtain ⟨r'', hr'', hp⟩ := exists_of_path_eq T.path_eq hr'
    exact T.kept _ (hp ▸ h.reported id' hid' r'' hr'')

/-- Making a component leaves a standing failure reported. -/
lemma instantiate (h : Reported s standing) (w : World) (typeName : String) :
    Reported (s.instantiate w typeName).2 standing :=
  instantiate_induction (P := fun s => Reported s standing) w typeName h
    (fun _ _ h => h.congr rfl rfl fun _ hp => hp) (fun _ b h => h.register w b none)
    (fun _ _ _ hroot h => h.applyRoot hroot) (fun _ id h => h.unregister id)
    fun _ _ h => h.congr rfl rfl fun _ hp => hp

/-- Nothing is handled in the course of a request. -/
lemma of_handling?_eq_none (request : SessionRequest H)
    (h : Reported (s.serve request).2 standing) (hnone : s.handling? request = none) :
    Reported (s.serve request).2 {id | id ∈ s.failedBy request ∨ id ∈ standing ∧
      id ∉ s.reappliedBy request ∧ ¬ s.Disturbs request id} := by
  refine h.mono ?_
  rintro id (hid | ⟨hid, -⟩)
  · rw [failedBy, hnone] at hid
    exact (List.not_mem_nil hid).elim
  · exact hid

/-- **What a request does to the errors of failed roots**: those that it could not apply when it
handled a change have one, and no other root loses its error unless it is applied or disturbed. -/
theorem serve {tried : List RootId} (h : Reported s standing) (hn : Noted s tried)
    (request : SessionRequest H) :
    Reported (s.serve request).2 {id | id ∈ s.failedBy request ∨ id ∈ standing ∧
      id ∉ s.reappliedBy request ∧ ¬ s.Disturbs request id} := by
  have handled : ∀ (s₀ : Session H) (w : World) (path : Path), Reported s₀ standing →
      Noted s₀ tried → s.handling? request = some (s₀.handle w path).1 →
      (s.serve request).2 = (s₀.handle w path).2 →
      Reported (s.serve request).2 {id | id ∈ s.failedBy request ∨ id ∈ standing ∧
        id ∉ s.reappliedBy request ∧ ¬ s.Disturbs request id} := by
    intro s₀ w path h₀ hn₀ ho hs
    rw [failedBy, reappliedBy, ho, hs]
    refine (h₀.handle hn₀ w path).mono ?_
    rintro id (hid | ⟨hid, happlied, hd⟩)
    · exact .inl hid
    · by_cases hf : id ∈ (s₀.handle w path).1.failed
      · exact .inl hf
      · have hleft : id ∉ (s₀.handle w path).1.attempted := fun hm =>
          (List.mem_append.1 hm).elim happlied hf
        exact .inr ⟨hid, hleft, fun r hr hsil => hd (.silence ho hleft (hs ▸ hr) (hs ▸ hsil))⟩
  cases request with
  | register w b path? => exact of_handling?_eq_none (.register w b path?) (h.register w b path?) rfl
  | unregister id => exact of_handling?_eq_none (.unregister id) (h.unregister id) rfl
  | instantiate w typeName =>
    exact of_handling?_eq_none (.instantiate w typeName) (h.instantiate w typeName) rfl
  | edit tree => exact of_handling?_eq_none (.edit tree) (h.congr rfl rfl fun _ hp => hp) rfl
  | provide capabilities =>
    exact of_handling?_eq_none (.provide capabilities) (h.congr rfl rfl fun _ hp => hp) rfl
  | handle w path => exact handled s w path h hn rfl rfl
  | discover w dir =>
    refine (h.discover w dir).mono ?_
    rintro id (hid | ⟨hid, -, hd⟩)
    · exact (List.not_mem_nil hid).elim
    · exact ⟨hid, fun r hr hfound => hd (.discover hr hfound)⟩
  | watchStyles w path =>
    by_cases hc : s.styleDocuments.contains path.key = true
    · have hs : (s.serve (.watchStyles w path)).2 = s := by
        simp only [Session.serve, Session.watchStyles, hc, ↓reduceIte]
      refine of_handling?_eq_none (.watchStyles w path) (hs.symm ▸ h) ?_
      simp only [handling?, hc, ↓reduceIte]
    · cases hw : s.startWatcher w path with
      | error e =>
        have hs : (s.serve (.watchStyles w path)).2 = s.report path e := by
          simp only [Session.serve, Session.watchStyles, hc, Bool.false_eq_true, ↓reduceIte, hw]
        refine of_handling?_eq_none (.watchStyles w path) (hs.symm ▸ h.report path e) ?_
        simp only [handling?, hc, Bool.false_eq_true, ↓reduceIte, hw]
      | ok watcher =>
        refine handled { s with
            styleDocuments := s.styleDocuments.insert path.key { path, watcher } } w path
          (h.congr rfl rfl fun _ hp => hp) (hn.congr rfl rfl) ?_ ?_
        · simp only [handling?, hc, Bool.false_eq_true, ↓reduceIte, hw]
        · simp only [Session.serve, Session.watchStyles, hc, Bool.false_eq_true, ↓reduceIte, hw]

end Reported

variable [Widget H] {s : Session H} {failing disturbed : Set RootId}

/-- A session with failures in view was reached. -/
lemma Failing.reached (h : s.Failing failing disturbed) : ∃ tried, s.Reached tried := by
  induction h with
  | new settings capabilities => exact ⟨_, .new settings capabilities⟩
  | serve request _ ih =>
    obtain ⟨tried, hr⟩ := ih
    exact ⟨_, hr.serve request⟩

/-- All failures that stand and were not disturbed are reported. -/
lemma Failing.reported (h : s.Failing failing disturbed) : Reported s (failing \ disturbed) := by
  induction h with
  | new settings capabilities => exact (Reported.new settings capabilities).mono fun id hid => hid.1
  | @serve s failing disturbed request h ih =>
    obtain ⟨tried, hr⟩ := h.reached
    refine (ih.serve hr.noted request).mono ?_
    rintro id ⟨hid | ⟨hid, happlied⟩, hdisturbed⟩
    · exact .inl hid
    · by_cases hf : id ∈ s.failedBy request
      · exact .inl hf
      · have hnot : ¬ (id ∈ disturbed ∨ s.Disturbs request id) := fun hd =>
          hdisturbed ⟨hd, hf, happlied⟩
        rw [not_or] at hnot
        exact .inr ⟨⟨hid, hnot.1⟩, happlied, hnot.2⟩

/-- **A failure that stands has an error.** In every session that requests lead to, each registered
root whose last attempt made when a change was handled has failed has an error for its document,
unless since then a search has loaded the document, or the handling of a change that left the root
alone applied another root of the document while none of them failed.

**Proof sketch.** A failure is recorded when it happens. Errors are removed when a document loads,
and then all its roots are attempted; when its last root leaves; and after attempts or in a search,
which is what disturbs. -/
theorem diagnostics_of_failing (h : s.Failing failing disturbed) {id : RootId} (hid : id ∈ failing)
    (hd : id ∉ disturbed) {r : Root} (hr : s.roots.get? id = some r) :
    s.diagnostics.contains r.path = true :=
  h.reported.reported id ⟨hid, hd⟩ r hr

/-- A document with a component. -/
def oneDocument : World where
  files := { entries := ⟨[(["a"], .file "<Component type=\"A\"/>".toUTF8 0)]⟩ }
  runsWatchers := true

/-- A session with two roots. The first is bound to a document that does not define its type. -/
def twoRoots : Session Empty :=
  let tree := (({} : ViewTree Empty).insert { element := .generic (.wrapper "Missing") }).2
  let tree := (tree.insert { element := .generic (.wrapper "B") }).2
  let edited := (({ settings := {}, capabilities := {} } : Session Empty).serve (.edit tree)).2
  let first := (edited.serve (.register oneDocument (.adopting ⟨0⟩ "Missing") (some ⟨"a"⟩))).2
  (first.serve (.register oneDocument (.adopting ⟨1⟩ "B") (some ⟨"b"⟩))).2

/-- The session with the document loaded. -/
def twoRootsLoaded : Session Empty :=
  { twoRoots.prune with
    definitions :=
      twoRoots.prune.definitions.insertDocument ⟨"A", false, false, [], [], []⟩ ⟨"a"⟩ }

/-- The first root cannot be applied. -/
lemma handle_twoRoots :
    (twoRoots.handle oneDocument ⟨"a"⟩).1.failed = [⟨0⟩] ∧
      ((twoRoots.handle oneDocument ⟨"a"⟩).2.roots.get? ⟨0⟩).map (·.path) = some ⟨"a"⟩ := by
  have hd : oneDocument.readDefinition ⟨"a"⟩ = .ok ⟨"A", false, false, [], [], []⟩ :=
    World.readDefinition_eq_ok (Directory.read_eq_ok (l := .inside ["a"]) rfl rfl)
      ofText_emptyComponent
  have hstyle : twoRoots.prune.styleDocuments.contains (Path.mk "a").key = false := by cbv
  have hdoc : twoRoots.prune.documents.contains (Path.mk "a").key = true := by cbv
  have hl : twoRoots.prune.load? oneDocument ⟨"a"⟩ = some (.ok twoRootsLoaded) :=
    load?_document hstyle hdoc hd
  have hstale : (((twoRootsLoaded.markSound ⟨"a"⟩).staleRoots ⟨"a"⟩).map fun e => (e.1, e.2.path)) =
      [(⟨0⟩, ⟨"a"⟩)] := by cbv
  have hpath : ((twoRootsLoaded.markSound ⟨"a"⟩).roots.get? ⟨0⟩).map (·.path) = some ⟨"a"⟩ := by cbv
  have hfails : ((twoRootsLoaded.markSound ⟨"a"⟩).applyRoot ⟨0⟩).1.toOption = none := by cbv
  obtain ⟨-, T⟩ := (twoRootsLoaded.markSound ⟨"a"⟩).attempt_tries ⟨0⟩ ⟨"a"⟩
  rw [handle_of_load?_eq_ok hl, reapply, hstale]
  simp only [attemptAll]
  refine ⟨?_, (T.path_eq ⟨0⟩).trans hpath⟩
  rw [attempt]
  rcases ha : (twoRootsLoaded.markSound ⟨"a"⟩).applyRoot ⟨0⟩ with ⟨e | u, s'⟩
  · rfl
  · rw [ha] at hfails
    cases hfails

/-- The error of a failed root is still there when a root of another document has left. -/
theorem diagnostics_twoRoots :
    ((twoRoots.serve (.handle oneDocument ⟨"a"⟩)).2.serve
      (.unregister ⟨1⟩)).2.diagnostics.contains ⟨"a"⟩ = true := by
  obtain ⟨hfailed, hpath⟩ := handle_twoRoots
  obtain ⟨r, hr, hrp⟩ := Option.map_eq_some_iff.1 hpath
  have fresh : Failing ({ settings := {}, capabilities := {} } : Session Empty) ∅ ∅ := .new {} {}
  obtain ⟨failing, disturbed, run⟩ : ∃ failing disturbed, twoRoots.Failing failing disturbed :=
    ⟨_, _, ((fresh.serve (.edit _)).serve (.register _ _ _)).serve (.register _ _ _)⟩
  have hmem : (⟨0⟩ : RootId) ∈ twoRoots.failedBy (.handle oneDocument ⟨"a"⟩) := by
    rw [failedBy, handling?, Option.elim_some, hfailed]
    exact List.mem_cons_self
  have hget : ((twoRoots.serve (.handle oneDocument ⟨"a"⟩)).2.serve
      (.unregister ⟨1⟩)).2.roots.get? ⟨0⟩ = some r := by
    change ((twoRoots.handle oneDocument ⟨"a"⟩).2.unregister ⟨1⟩).2.roots.get? ⟨0⟩ = some r
    rw [get?_unregister, if_neg (by decide), hr]
  refine hrp ▸ diagnostics_of_failing
    ((run.serve (.handle oneDocument ⟨"a"⟩)).serve (.unregister ⟨1⟩)) ?_ ?_ hget
  · exact .inr ⟨.inl hmem, List.not_mem_nil⟩
  · rintro ⟨hd | hd, -⟩
    · exact hd.2.1 hmem
    · cases hd with
      | silence ho => cases ho

end Session

end ViewMarkup
