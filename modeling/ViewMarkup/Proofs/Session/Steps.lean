import Mathlib.Tactic.Lemma
import ViewMarkup.Session.Discovery

/-!
# What the operations of a session do

An operation of a session changes some of its parts and leaves all others alone, and most operations
are made of the same few steps. What each of them leaves alone, and what steps it takes, is said here
once.

## Main definitions

* `Session.Instantiates` — everything that the making of a root can do.

## Main statements

* `Session.register_only`, `Session.unregister_only`, `Session.prune_only`, `Session.discover_only` —
  what these operations change.
* `Session.discover_induction` — what a search keeps if loading a document keeps it.
* `Session.instantiates` — the making of a root does nothing else.
-/

namespace ViewMarkup.Session

variable {H : Type} {s : Session H} {w : World}

/-! ### Registering -/

/-- Watching a document changes no more than the documents and their errors. -/
lemma watchDocument_only (s : Session H) (w : World) (path : Path) :
    (s.watchDocument w path).2 = { s with
      documents := (s.watchDocument w path).2.documents
      diagnostics := (s.watchDocument w path).2.diagnostics } := by
  unfold watchDocument
  split
  · rfl
  · split <;> rfl

/-- Registering a root changes roots and documents, besides errors and waiting changes. -/
theorem register_only (s : Session H) (w : World) (b : Binding) (path? : Option Path) :
    (s.register w b path?).2 = { s with
      roots := (s.register w b path?).2.roots
      documents := (s.register w b path?).2.documents
      diagnostics := (s.register w b path?).2.diagnostics
      queue := (s.register w b path?).2.queue } := by
  unfold register
  split
  · rfl
  · next path _ =>
    have hw := s.watchDocument_only w path
    split
    · next s₁ hs =>
      rw [hs] at hw
      rw [show s₁ = _ from hw]
    · next s₁ hs =>
      rw [hs] at hw
      rw [show s₁ = _ from hw]
      rfl

/-- A root that was just registered is there. -/
lemma get?_register {s' : Session H} {b : Binding} {path? : Option Path} {id : RootId}
    (h : s.register w b path? = (.ok id, s')) : ∃ r, s'.roots.get? id = some r := by
  unfold register at h
  split at h
  · cases h
  · split at h <;> cases h
    exact ⟨_, (Roots.get?_insert _ _ _ _).trans (if_pos rfl)⟩

/-- A root that leaves changes roots, documents and definitions, besides errors. -/
theorem unregister_only (s : Session H) (id : RootId) :
    (s.unregister id).2 = { s with
      roots := (s.unregister id).2.roots
      documents := (s.unregister id).2.documents
      definitions := (s.unregister id).2.definitions
      diagnostics := (s.unregister id).2.diagnostics
      broken := (s.unregister id).2.broken } := by
  unfold unregister
  split
  · rfl
  · simp only
    split
    · rfl
    · split <;> rfl

/-- Roots that leave change no more than this. -/
theorem prune_only (s : Session H) :
    s.prune = { s with
      roots := s.prune.roots
      documents := s.prune.documents
      definitions := s.prune.definitions
      diagnostics := s.prune.diagnostics
      broken := s.prune.broken } := by
  unfold prune
  induction s.goneRoots generalizing s with
  | nil => rfl
  | cons id ids ih =>
    rw [List.foldl_cons, ih, s.unregister_only]

/-! ### Searching -/

/-- A document that a search finds changes no more than this. -/
lemma discoverDocument_only (w : World) (s : Session H) (found : List String) (path : Path) :
    (discoverDocument w s found path).1 = { s with
      definitions := (discoverDocument w s found path).1.definitions
      diagnostics := (discoverDocument w s found path).1.diagnostics
      broken := (discoverDocument w s found path).1.broken
      discovered := (discoverDocument w s found path).1.discovered } := by
  unfold discoverDocument
  split
  · rfl
  · split <;> rfl

/-- **What a search keeps**: all that is kept when an error is recorded, and when a document is
loaded. -/
theorem discover_induction {P : Session H → Prop} (dir : Path) (h : P s)
    (report : ∀ e, P (s.report dir e))
    (one : ∀ s found path, P s → P (discoverDocument w s found path).1) :
    P (s.discover w dir).2 := by
  have all : ∀ (paths : List Path) (acc : Session H × List String), P acc.1 →
      P (paths.foldl (fun acc path => discoverDocument w acc.1 acc.2 path) acc).1 := by
    intro paths
    induction paths with
    | nil => exact fun _ h => h
    | cons path paths ih => exact fun acc h => ih _ (one acc.1 acc.2 path h)
  unfold discover
  split
  · exact report _
  · exact all _ (s, []) h

/-- A search changes definitions, besides errors and the notes on documents. -/
theorem discover_only (s : Session H) (w : World) (dir : Path) :
    (s.discover w dir).2 = { s with
      definitions := (s.discover w dir).2.definitions
      diagnostics := (s.discover w dir).2.diagnostics
      broken := (s.discover w dir).2.broken
      discovered := (s.discover w dir).2.discovered } := by
  refine discover_induction (P := fun s' => s' = { s with
    definitions := s'.definitions
    diagnostics := s'.diagnostics
    broken := s'.broken
    discovered := s'.discovered }) dir rfl (fun _ => rfl) fun s' found path h => ?_
  rw [discoverDocument_only, h]

/-! ### Making a root -/

/-- **Everything that the making of a root can do**: a node comes, the root is registered for it and
applied, and what came before a failure goes again. -/
inductive Instantiates [Widget H] (s : Session H) (w : World) (typeName : String) :
    Except SessionError RootId × Session H → Prop where
  /-- The type is not loaded. -/
  | unknown (hunknown : s.definitions.contains typeName = false) :
      Instantiates s w typeName (.error (.unknownType typeName), s)
  /-- The root is not registered. -/
  | unregistered {node : NodeId} {tree : ViewTree H} {e : SessionError} {s₁ : Session H}
      (hnode : s.tree.insert { element := s.freshElement typeName } = (node, tree))
      (hregister : register { s with tree } w (.adopting node typeName) none = (.error e, s₁)) :
      Instantiates s w typeName (.error e, { s₁ with tree := (s₁.tree.remove node).2 })
  /-- The root is not applied. -/
  | failed {node : NodeId} {tree : ViewTree H} {id : RootId} {r : Root} {e : SessionError}
      {s₁ : Session H}
      (hnode : s.tree.insert { element := s.freshElement typeName } = (node, tree))
      (hregister : register { s with tree } w (.adopting node typeName) none = (.ok id, s₁))
      (hroot : s₁.roots.get? id = some r) (happly : (s₁.applyRoot id).1 = .error e) :
      Instantiates s w typeName (.error e, { ((s₁.applyRoot id).2.unregister id).2 with
        tree := (((s₁.applyRoot id).2.unregister id).2.tree.remove node).2 })
  /-- The root is applied. -/
  | made {node : NodeId} {tree : ViewTree H} {id : RootId} {r : Root} {s₁ : Session H}
      (hnode : s.tree.insert { element := s.freshElement typeName } = (node, tree))
      (hregister : register { s with tree } w (.adopting node typeName) none = (.ok id, s₁))
      (hroot : s₁.roots.get? id = some r) (happly : (s₁.applyRoot id).1 = .ok ()) :
      Instantiates s w typeName (.ok id, (s₁.applyRoot id).2)

/-- **The making of a root does nothing else.** -/
theorem instantiates [Widget H] (s : Session H) (w : World) (typeName : String) :
    s.Instantiates w typeName (s.instantiate w typeName) := by
  unfold instantiate
  split
  · simp only
    split
    · next hs => exact .unregistered rfl hs
    · next id s₁ hs =>
      obtain ⟨r, hroot⟩ := get?_register hs
      cases happly : s₁.applyRoot id with
      | mk result s₂ =>
        have h₂ : s₂ = (s₁.applyRoot id).2 := by rw [happly]
        cases result with
        | ok _ => exact h₂ ▸ .made rfl hs hroot (by rw [happly])
        | error e => exact h₂ ▸ .failed rfl hs hroot (by rw [happly])
  · next hc => exact .unknown (Bool.eq_false_iff.2 hc)

/-- **What the making of a root keeps**: all that is kept when a node comes or goes, and when a root
joins, is applied, and leaves. -/
theorem instantiate_induction [Widget H] {P : Session H → Prop} (w : World) (typeName : String)
    (h : P s) (insert : ∀ s node, P s → P { s with tree := (s.tree.insert node).2 })
    (register : ∀ s b, P s → P (s.register w b none).2)
    (applyRoot : ∀ s id r, s.roots.get? id = some r → P s → P (s.applyRoot id).2)
    (unregister : ∀ s id, P s → P (s.unregister id).2)
    (remove : ∀ s id, P s → P { s with tree := (s.tree.remove id).2 }) :
    P (s.instantiate w typeName).2 := by
  have hcases := s.instantiates w typeName
  generalize s.instantiate w typeName = outcome at hcases ⊢
  have joined : ∀ {node tree result s₁},
      s.tree.insert { element := s.freshElement typeName } = (node, tree) →
      Session.register { s with tree } w (.adopting node typeName) none = (result, s₁) → P s₁ := by
    intro node tree result s₁ hnode hregister
    have hp := register _ (.adopting node typeName) (insert s { element := s.freshElement typeName } h)
    rwa [hnode, hregister] at hp
  cases hcases with
  | unknown _ => exact h
  | unregistered hnode hregister => exact remove _ _ (joined hnode hregister)
  | failed hnode hregister hroot =>
    exact remove _ _ (unregister _ _ (applyRoot _ _ _ hroot (joined hnode hregister)))
  | made hnode hregister hroot => exact applyRoot _ _ _ hroot (joined hnode hregister)

/-- **What watching shared styles keeps**: all that is kept when an error is recorded, when a watcher
comes, and when a change is handled. -/
theorem watchStyles_induction [Widget H] {P : Session H → Prop} (w : World) (path : Path) (h : P s)
    (report : ∀ e, P (s.report path e))
    (watch : ∀ watcher,
      P { s with styleDocuments := s.styleDocuments.insert path.key { path, watcher } })
    (handle : ∀ s, P s → P (s.handle w path).2) : P (s.watchStyles w path).2 := by
  unfold watchStyles
  split
  · exact h
  · cases s.startWatcher w path with
    | error e => exact report e
    | ok watcher => exact handle _ (watch watcher)

end ViewMarkup.Session
