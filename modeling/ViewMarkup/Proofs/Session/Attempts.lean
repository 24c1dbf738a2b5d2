import ViewMarkup.Proofs.Session.Generations

/-!
# What attempts to apply roots leave behind

Whether an attempt to apply a root succeeds or fails, the root notes the generations of all types
that it depends on, and definitions and other roots stay as they are. Registering, removing and
loading keep what is noted, though it may be about earlier definitions then.

## Main definitions

* `Session.Noted` — what is invariant about registered roots and the generations they have noted.
* `Session.Attempts` — what attempts to apply roots do to a session.

## Main statements

* `Session.Noted.register`, `Session.Noted.unregister`, `Session.Noted.prune`,
  `Session.Noted.attempts` — what keeps the invariant.
* `Session.Attempts.attemptAll` — all roots are attempted, each once, whatever becomes of the others.
-/

namespace ViewMarkup

variable {H : Type}

namespace Session

/-- A root was last attempted with the generations that its type depended on at some time before
the given definitions. -/
def NotedBefore (store : DefinitionStore) (r : Root) : Prop :=
  ∃ old : DefinitionStore, old.Sound ∧ old.Precedes store ∧
    r.attempted = old.dependencies r.binding.typeName

/-- **The invariant** about noted generations: every registered root that was ever attempted has
noted what its type depended on at some time. -/
structure Noted (s : Session H) (tried : List RootId) : Prop where
  /-- Definitions are stored soundly. -/
  sound : s.definitions.Sound
  /-- No root is listed twice. -/
  nodup : s.roots.table.keys.Nodup
  /-- A registered root has an identity that was given. -/
  lt_issued : ∀ id r, s.roots.get? id = some r → id.index < s.roots.issued
  /-- So has an attempted one. -/
  tried_lt_issued : ∀ id ∈ tried, id.index < s.roots.issued
  /-- Attempted roots have noted what they depended on. -/
  noted : ∀ id ∈ tried, ∀ r, s.roots.get? id = some r → NotedBefore s.definitions r

/-- What was noted stays so when the store changes. -/
lemma NotedBefore.mono {store store' : DefinitionStore} {r : Root} (h : NotedBefore store r)
    (hp : store.Precedes store') : NotedBefore store' r := by
  obtain ⟨old, hs, ho, ha⟩ := h
  exact ⟨old, hs, ho.trans hp, ha⟩

/-- What a root has just noted is noted. -/
lemma NotedBefore.of_dependencies {store : DefinitionStore} (hs : store.Sound) {r : Root}
    (h : r.attempted = store.dependencies r.binding.typeName) : NotedBefore store r :=
  ⟨store, hs, .refl hs, h⟩

namespace Noted

variable {s s' : Session H} {tried : List RootId}

/-- A new session has attempted nothing. -/
lemma new (settings : Settings) (capabilities : Capabilities H) :
    Noted ({ settings, capabilities } : Session H) [] where
  sound := .empty
  nodup := List.nodup_nil
  lt_issued _ _ h := by cases h
  tried_lt_issued _ h := by cases h
  noted _ h := by cases h

/-- Definitions may give way to later ones. -/
lemma later (h : Noted s tried) (hp : s.definitions.Precedes s'.definitions)
    (hr : s'.roots = s.roots) : Noted s' tried where
  sound := hp.sound
  nodup := hr ▸ h.nodup
  lt_issued := hr ▸ h.lt_issued
  tried_lt_issued := hr ▸ h.tried_lt_issued
  noted id hid r hg := (h.noted id hid r (hr ▸ hg)).mono hp

/-- Nothing but definitions and roots matters. -/
lemma congr (h : Noted s tried) (hd : s'.definitions = s.definitions) (hr : s'.roots = s.roots) :
    Noted s' tried :=
  h.later (hd.symm ▸ .refl h.sound) hr

/-- What holds of attempted roots holds of some of them. -/
lemma of_subset (h : Noted s tried) {tried' : List RootId} (hsub : tried' ⊆ tried) :
    Noted s tried' where
  sound := h.sound
  nodup := h.nodup
  lt_issued := h.lt_issued
  tried_lt_issued id hid := h.tried_lt_issued id (hsub hid)
  noted id hid := h.noted id (hsub hid)

/-! ### Registering -/

/-- A root that goes takes nothing from the others. -/
lemma erase (h : Noted s tried) (id : RootId) :
    Noted { s with roots := s.roots.erase id } tried := by
  have kept : ∀ id' r, (s.roots.erase id).get? id' = some r → s.roots.get? id' = some r := by
    intro id' r hg
    rw [Roots.get?_erase] at hg
    split at hg
    · cases hg
    · exact hg
  have issued : (s.roots.erase id).issued = s.roots.issued := by
    unfold Roots.erase
    split <;> rfl
  have nodup : (s.roots.erase id).table.keys.Nodup := by
    unfold Roots.erase
    split
    · rw [Table.keys_erase]
      exact h.nodup.filter _
    · exact h.nodup
  exact
    { sound := h.sound
      nodup
      lt_issued := fun id' r hg => issued ▸ h.lt_issued id' r (kept id' r hg)
      tried_lt_issued := fun id' hid => issued ▸ h.tried_lt_issued id' hid
      noted := fun id' hid r hg => h.noted id' hid r (kept id' r hg) }

/-- A root that comes has noted nothing. -/
lemma addRoot (h : Noted s tried) (b : Binding) (path : Path) :
    Noted (s.addRoot b path).2 tried where
  sound := h.sound
  nodup := Table.nodup_keys_insert h.nodup _ _
  lt_issued id r hg := by
    change (s.roots.insert b path).2.get? id = some r at hg
    rw [Roots.get?_insert] at hg
    split at hg
    · next hid => exact hid ▸ Nat.lt_succ_self _
    · exact Nat.lt_succ_of_lt (h.lt_issued id r hg)
  tried_lt_issued id hid := Nat.lt_succ_of_lt (h.tried_lt_issued id hid)
  noted id hid r hg := by
    -- The new root has an identity that no attempted one has.
    change (s.roots.insert b path).2.get? id = some r at hg
    rw [Roots.get?_insert, if_neg] at hg
    · exact h.noted id hid r hg
    · rintro rfl
      exact Nat.lt_irrefl _ (h.tried_lt_issued _ hid)

/-- Watching a document notes nothing. -/
lemma watchDocument (h : Noted s tried) (w : World) (path : Path) :
    Noted (s.watchDocument w path).2 tried := by
  unfold Session.watchDocument
  split
  · exact h
  · split <;> exact h.congr rfl rfl

/-- Registering a root notes nothing. -/
theorem register (h : Noted s tried) (w : World) (b : Binding) (path? : Option Path) :
    Noted (s.register w b path?).2 tried := by
  unfold Session.register
  split
  · exact h
  · next path _ =>
    have hw := h.watchDocument w path
    split
    · next hs => rwa [hs] at hw
    · next hs =>
      rw [hs] at hw
      exact (hw.addRoot b path).congr rfl rfl

/-- Giving a document up takes nothing from the other roots. -/
lemma abandon (h : Noted s tried) (path : Path) : Noted (s.abandon path) tried := by
  refine h.later ?_ rfl
  change s.definitions.Precedes (if path.key ∈ s.discovered then s.definitions else _)
  split
  · exact .refl h.sound
  · exact .removePath h.sound path

/-- Neither does a root that leaves. -/
theorem unregister (h : Noted s tried) (id : RootId) : Noted (s.unregister id).2 tried := by
  unfold Session.unregister
  split
  · exact h
  · simp only
    split
    · exact h.erase id
    · split
      · exact (h.erase id).abandon _
      · exact (h.erase id).congr rfl rfl

/-- Nor do all that leave. -/
theorem prune (h : Noted s tried) : Noted s.prune tried := by
  unfold Session.prune
  induction s.goneRoots generalizing s with
  | nil => exact h
  | cons id ids ih => exact ih (h.unregister id)

end Noted

/-! ### Attempting -/

/-- What attempts to apply roots do to a session: the attempted roots note what their types depend
on, and definitions and all other roots stay. -/
structure Attempts (s : Session H) (ids : List RootId) (s' : Session H) : Prop where
  /-- Definitions stay. -/
  definitions_eq : s'.definitions = s.definitions
  /-- The same roots are registered. -/
  keys_eq : s'.roots.table.keys = s.roots.table.keys
  /-- No identity is given. -/
  issued_eq : s'.roots.issued = s.roots.issued
  /-- An attempted root has noted what its type depends on. -/
  noted : ∀ id ∈ ids, ∀ r, s'.roots.get? id = some r →
    r.attempted = s.definitions.dependencies r.binding.typeName
  /-- Another root stays as it is. -/
  get?_eq : ∀ id ∉ ids, s'.roots.get? id = s.roots.get? id

namespace Attempts

variable {s s' s'' : Session H} {ids ids' : List RootId}

/-- Where nothing but the tree and the errors changes, nothing is attempted. -/
lemma nil (hd : s'.definitions = s.definitions) (hr : s'.roots = s.roots) :
    s.Attempts [] s' :=
  ⟨hd, by rw [hr], by rw [hr], fun _ h => (List.not_mem_nil h).elim, fun _ _ => by rw [hr]⟩

/-- Attempts of some roots and then of others are attempts of them all. -/
lemma append (h : s.Attempts ids s') (h' : s'.Attempts ids' s'') :
    s.Attempts (ids ++ ids') s'' where
  definitions_eq := h'.definitions_eq.trans h.definitions_eq
  keys_eq := h'.keys_eq.trans h.keys_eq
  issued_eq := h'.issued_eq.trans h.issued_eq
  noted id hid r hg := by
    by_cases hid' : id ∈ ids'
    · rw [h'.noted id hid' r hg, h.definitions_eq]
    · rw [h'.get?_eq id hid'] at hg
      exact h.noted id ((List.mem_append.1 hid).resolve_right hid') r hg
  get?_eq id hid := by
    rw [List.mem_append, not_or] at hid
    rw [h'.get?_eq id hid.2, h.get?_eq id hid.1]

/-- A root is registered after attempts if it was before. -/
lemma contains (h : s.Attempts ids s') {id : RootId} {r : Root}
    (hg : s.roots.get? id = some r) : ∃ r', s'.roots.get? id = some r' := by
  have hk : id ∈ s'.roots.table.keys := h.keys_eq ▸ Table.mem_keys_iff.2 ⟨r, hg⟩
  exact Table.mem_keys_iff.1 hk

variable [Widget H]

/-- Applying never makes a binding one of another type. -/
lemma typeName_apply (a : Applier H) (t : ViewTree H) (b : Binding) (d : Definition) :
    (a.apply t b d).2.2.typeName = b.typeName := by
  unfold Applier.apply
  split <;> rfl

/-- Whether an attempt succeeds or fails, it changes the attempted root alone, which keeps its type
and notes what that depends on. -/
lemma applyTo_spec (s : Session H) (id : RootId) (r : Root) :
    (s.applyTo id r).2.definitions = s.definitions ∧
      ∃ f : Root → Root, (s.applyTo id r).2.roots = s.roots.modify id f ∧
        (f r).binding.typeName = r.binding.typeName ∧
        (f r).attempted = s.definitions.dependencies r.binding.typeName := by
  unfold applyTo
  simp only
  split
  · exact ⟨rfl, _, rfl, rfl, rfl⟩
  · next stored _ =>
    split <;>
    · next hb =>
      refine ⟨rfl, _, rfl, ?_, rfl⟩
      exact typeName_apply s.applier s.tree r.binding stored.definition

/-- Applying a root attempts that root. -/
lemma applyRoot {id : RootId} {r : Root} (hg : s.roots.get? id = some r) :
    s.Attempts [id] (s.applyRoot id).2 := by
  have hs : s.applyRoot id = s.applyTo id r := by rw [Session.applyRoot, hg]
  obtain ⟨hd, f, hr, ht, ha⟩ := applyTo_spec s id r
  rw [← hs] at hd hr
  exact
    { definitions_eq := hd
      keys_eq := by
        rw [hr]
        exact Table.keys_modify _ _ _
      issued_eq := by rw [hr]; rfl
      noted := fun id' hid' r' hg' => by
        rw [List.mem_singleton.1 hid', hr, Roots.get?_modify, if_pos rfl, hg] at hg'
        cases hg'
        rw [ha, ht]
      get?_eq := fun id' hid' => by
        rw [hr, Roots.get?_modify, if_neg fun h => hid' (List.mem_singleton.2 h.symm)] }

/-- An attempt is one of the root that it reports. -/
lemma attempt {id : RootId} {r : Root} (hg : s.roots.get? id = some r) (path : Path) :
    (s.attempt id path).1.root = id ∧ s.Attempts [id] (s.attempt id path).2 := by
  have h := applyRoot hg
  unfold Session.attempt
  split
  · next ha =>
    rw [ha] at h
    exact ⟨rfl, h⟩
  · next ha =>
    rw [ha] at h
    exact ⟨rfl, h.append (nil rfl rfl)⟩

/-- Roots are attempted in order, each once, whatever becomes of the others. -/
theorem attemptAll (es : List (RootId × Path))
    (hg : ∀ e ∈ es, ∃ r, s.roots.get? e.1 = some r) :
    (s.attemptAll es).1.map (·.root) = es.map (·.1) ∧
      s.Attempts (es.map (·.1)) (s.attemptAll es).2 := by
  induction es generalizing s with
  | nil => exact ⟨rfl, nil rfl rfl⟩
  | cons e es ih =>
    obtain ⟨id, path⟩ := e
    obtain ⟨r, hr⟩ := hg (id, path) List.mem_cons_self
    obtain ⟨hroot, ha⟩ := attempt hr path
    have hg' : ∀ e ∈ es, ∃ r, (s.attempt id path).2.roots.get? e.1 = some r := fun e he => by
      obtain ⟨r', hr'⟩ := hg e (List.mem_cons_of_mem _ he)
      exact ha.contains hr'
    obtain ⟨hroots, has⟩ := ih hg'
    exact ⟨congrArg₂ List.cons hroot hroots, ha.append has⟩

end Attempts

/-- Attempts keep the invariant. -/
theorem Noted.attempts {s s' : Session H} {tried ids : List RootId} (h : Noted s tried)
    (ha : s.Attempts ids s') (hids : ∀ id ∈ ids, ∃ r, s.roots.get? id = some r) :
    Noted s' (tried ++ ids) where
  sound := ha.definitions_eq ▸ h.sound
  nodup := ha.keys_eq ▸ h.nodup
  lt_issued id r hg := by
    obtain ⟨r', hr'⟩ := Table.mem_keys_iff.1 (ha.keys_eq ▸ Table.mem_keys_iff.2 ⟨r, hg⟩)
    exact ha.issued_eq ▸ h.lt_issued id r' hr'
  tried_lt_issued id hid := by
    rw [ha.issued_eq]
    rcases List.mem_append.1 hid with hid | hid
    · exact h.tried_lt_issued id hid
    · obtain ⟨r, hr⟩ := hids id hid
      exact h.lt_issued id r hr
  noted id hid r hg := by
    rw [ha.definitions_eq]
    by_cases hm : id ∈ ids
    · exact .of_dependencies h.sound (ha.noted id hm r hg)
    · rw [ha.get?_eq id hm] at hg
      exact h.noted id ((List.mem_append.1 hid).resolve_right hm) r hg

/-- So does an attempt to apply a registered root. -/
lemma Noted.applyRoot [Widget H] {s : Session H} {tried : List RootId} (h : Noted s tried)
    {id : RootId} {r : Root} (hroot : s.roots.get? id = some r) :
    Noted (s.applyRoot id).2 (tried ++ [id]) :=
  h.attempts (.applyRoot hroot) fun _ hid => ⟨r, List.mem_singleton.1 hid ▸ hroot⟩

end Session

end ViewMarkup
