import ViewMarkup.Proofs.Session.Generations

/-!
# How generations are given

A store of definitions counts upwards, and every storing and every renewal takes the next number. Entries
come and go in between: a document is stored again without a type, another document takes the type over,
the type comes back under its old name. Through all of that a number is never given again. So it is enough
to compare numbers to know that a type has been left alone.

## Main definitions

* `DefinitionStore.Change`, `DefinitionStore.Edit` — what changes a store, and what that consists of.
* `DefinitionStore.after`, `DefinitionStore.given` — the store after changes, and the generations that were
  given in their course.
* `DefinitionStore.Numbered` — the invariant of the generations given so far.

## Main statements

* `DefinitionStore.Edit.exists_of_get?` — everything that an edit can do to the entry of a type.
* `DefinitionStore.Numbered.edit` — one edit gives a generation above all others.
* `DefinitionStore.generations_of_changes` — the generations in the course of any changes.
-/

namespace ViewMarkup.DefinitionStore

variable {s : DefinitionStore} {name : String} {x : StoredDefinition}

/-! ### Changes -/

/-- What changes a store of definitions. -/
inductive Change where
  /-- A definition is stored. -/
  | insert (d : Definition) (path : Path)
  /-- A document is stored instead of what was read from its path before. -/
  | insertDocument (d : Definition) (path : Path)
  /-- All entries are renewed. -/
  | renewAll
  /-- What was read from a path is removed. -/
  | removePath (path : Path)

/-- What changes consist of. An edit gives one generation at most. -/
inductive Edit where
  /-- A definition is stored. -/
  | put (d : Definition) (path : Path)
  /-- The entry of a type is renewed. -/
  | renew (typeName : String)
  /-- What was read from a path is removed. -/
  | drop (path : Path)

namespace Edit

/-- The store after an edit. -/
def apply (s : DefinitionStore) : Edit → DefinitionStore
  | put d path => s.insert d path
  | renew typeName => s.renew typeName
  | drop path => s.removePath path

/-- The type whose entry is stored or renewed. -/
def typeName? : Edit → Option String
  | put d _ => some d.typeName
  | renew typeName => some typeName
  | drop _ => none

/-- Whether an edit removes what was read from a path. -/
def removes (key : PathKey) : Edit → Bool
  | drop path => path.key = key
  | _ => false

/-- The generation that an edit gives: the one that the type has right after it. -/
def given? (s : DefinitionStore) (e : Edit) : Option Nat := e.typeName?.bind (e.apply s).generation?

end Edit

namespace Change

/-- The store after a change. -/
def apply (s : DefinitionStore) : Change → DefinitionStore
  | insert d path => s.insert d path
  | insertDocument d path => s.insertDocument d path
  | renewAll => s.renewAll
  | removePath path => s.removePath path

/-- The edits that a change consists of. -/
def edits (s : DefinitionStore) : Change → List Edit
  | insert d path => [.put d path]
  | insertDocument d path => .drop path :: d.definitions.map (.put · path)
  | renewAll => s.typeNames.map .renew
  | removePath path => [.drop path]

/-- The types that a change stores or renews. -/
def renewed (s : DefinitionStore) : Change → List String
  | insert d _ => [d.typeName]
  | insertDocument d _ => d.definitions.map (·.typeName)
  | renewAll => s.typeNames
  | removePath _ => []

/-- Whether a change removes what was read from a path. -/
def removes (key : PathKey) : Change → Bool
  | insertDocument _ path | removePath path => path.key = key
  | _ => false

end Change

/-- The generations that edits give, one after the other. -/
def givenBy (s : DefinitionStore) : List Edit → List Nat
  | [] => []
  | e :: es => (e.given? s).toList ++ givenBy (e.apply s) es

/-- The generations that changes give, one after the other. -/
def givenFrom (s : DefinitionStore) : List Change → List Nat
  | [] => []
  | c :: cs => s.givenBy (c.edits s) ++ givenFrom (c.apply s) cs

/-- The store after changes of an empty one. -/
def after (cs : List Change) : DefinitionStore := cs.foldl Change.apply {}

/-- The generations that were given in the course of changes of an empty store. -/
def given (cs : List Change) : List Nat := givenFrom {} cs

/-- A change does what its edits do. -/
lemma Change.apply_eq (s : DefinitionStore) (c : Change) :
    c.apply s = (c.edits s).foldl Edit.apply s := by
  cases c with
  | insert | removePath => rfl
  | insertDocument | renewAll =>
    simp only [edits, List.foldl_cons, List.foldl_map]
    rfl

/-- The types that the edits of a change store are those that it renews. -/
lemma Change.filterMap_edits (s : DefinitionStore) (c : Change) :
    (c.edits s).filterMap Edit.typeName? = c.renewed s := by
  cases c with
  | insert | removePath => rfl
  | insertDocument | renewAll =>
    simp [edits, List.filterMap_cons, Edit.typeName?, renewed, Function.comp_def]

/-- The edits of a change remove a path if the change does. -/
lemma Change.any_edits (s : DefinitionStore) (c : Change) (key : PathKey) :
    (c.edits s).any (Edit.removes key) = c.removes key := by
  cases c <;> simp [edits, Edit.removes, removes]

/-! ### One edit -/

namespace Edit

variable {e : Edit} {g : Nat}

/-- An edit goes forward. -/
lemma precedes (hs : s.Sound) (e : Edit) : s.Precedes (e.apply s) := by
  cases e with
  | put d path => exact .insert hs d path
  | renew typeName => exact .renew hs typeName
  | drop path => exact .removePath hs path

/-- What an edit gives has not been given before. -/
lemma lt_of_given? (h : e.given? s = some g) :
    s.lastGeneration < g ∧ g ≤ (e.apply s).lastGeneration := by
  cases e with
  | put d path =>
    simp only [given?, typeName?, apply, Option.bind_some, generation?, get?_insert, ↓reduceIte,
      Option.map_some, Option.some.injEq] at h
    exact h ▸ ⟨Nat.lt_succ_self _, Nat.le_refl _⟩
  | renew typeName =>
    simp only [given?, typeName?, apply, Option.bind_some, generation?, get?_renew, ↓reduceIte,
      Option.map_map, Option.map_eq_some_iff] at h
    obtain ⟨_, -, rfl⟩ := h
    exact ⟨Nat.lt_succ_self _, Nat.le_refl _⟩
  | drop path => cases h

/-- An edit leaves the entry of any other type alone, or removes it. -/
lemma get?_apply_of_ne (hs : s.Sound) (h : e.typeName? ≠ some name) :
    (e.apply s).get? name = (s.get? name).filter fun x => !e.removes x.path.key := by
  cases e with
  | put d path =>
    rw [apply, get?_insert, if_neg fun hd => h (congrArg some hd)]
    cases s.get? name <;> rfl
  | renew typeName =>
    rw [apply, get?_renew, if_neg fun hn => h (congrArg some hn)]
    cases s.get? name <;> rfl
  | drop path =>
    rw [apply, Precedes.get?_removePath hs]
    refine congrArg (Option.filter · _) (funext fun x => ?_)
    simp [removes, eq_comm]

/-- **Everything that an edit can do to the entry of a type**: the type has the generation that the edit
gives, or the entry is as it was. -/
theorem exists_of_get? (hs : s.Sound) (h : (e.apply s).get? name = some x) :
    e.typeName? = some name ∧ e.given? s = some x.generation ∨
      e.typeName? ≠ some name ∧ s.get? name = some x := by
  by_cases hn : e.typeName? = some name
  · refine .inl ⟨hn, ?_⟩
    rw [given?, hn, Option.bind_some, generation?, h, Option.map_some]
  · rw [get?_apply_of_ne hs hn] at h
    exact .inr ⟨hn, (Option.filter_eq_some_iff.1 h).1⟩

/-- A type that is loaded stays loaded if nothing is removed. -/
lemma exists_get?_apply (he : ∀ key, e.removes key = false) (h : ∃ x, s.get? name = some x) :
    ∃ x, (e.apply s).get? name = some x := by
  obtain ⟨x, hx⟩ := h
  cases e with
  | put d path =>
    rw [apply, get?_insert]
    split
    · exact ⟨_, rfl⟩
    · exact ⟨x, hx⟩
  | renew typeName =>
    rw [apply, get?_renew, hx]
    split
    · exact ⟨_, rfl⟩
    · exact ⟨x, rfl⟩
  | drop path => exact absurd (he path.key) (by simp [removes])

end Edit

/-! ### Edits one after the other -/

section Edits

variable {es : List Edit}

/-- Edits go forward. -/
lemma precedes_edits (hs : s.Sound) (es : List Edit) : s.Precedes (es.foldl Edit.apply s) :=
  .foldl (fun _ e hs => e.precedes hs) es hs

/-- What edits give has not been given before. -/
lemma lt_of_mem_givenBy (hs : s.Sound) {g : Nat} (h : g ∈ s.givenBy es) : s.lastGeneration < g := by
  induction es generalizing s with
  | nil => cases h
  | cons e es ih =>
    rcases List.mem_append.1 h with h | h
    · exact (Edit.lt_of_given? (Option.mem_toList.1 h)).1
    · have later := e.precedes hs
      exact Nat.lt_of_le_of_lt later.lastGeneration_le (ih later.sound h)

/-- Edits leave the entry of any other type alone, or remove it. -/
lemma get?_edits_of_not_mem (hs : s.Sound) (h : name ∉ es.filterMap Edit.typeName?) :
    (es.foldl Edit.apply s).get? name =
      (s.get? name).filter fun x => !es.any (Edit.removes x.path.key) := by
  induction es generalizing s with
  | nil => rw [List.foldl_nil]; cases s.get? name <;> rfl
  | cons e es ih =>
    have hn : e.typeName? ≠ some name := fun hn => h (by simp [hn])
    have hes : name ∉ es.filterMap Edit.typeName? := fun hm => h (by
      obtain ⟨e', he', hn'⟩ := List.mem_filterMap.1 hm
      exact List.mem_filterMap.2 ⟨e', List.mem_cons_of_mem _ he', hn'⟩)
    rw [List.foldl_cons, ih (e.precedes hs).sound hes, Edit.get?_apply_of_ne hs hn,
      Option.filter_filter]
    refine congrArg (Option.filter · _) (funext fun x => ?_)
    rw [List.any_cons, Bool.not_or, Bool.and_comm]

/-- The entry of a type that is stored or renewed has a generation that was given. -/
lemma mem_givenBy_of_get? (hs : s.Sound) (hm : name ∈ es.filterMap Edit.typeName?)
    (h : (es.foldl Edit.apply s).get? name = some x) : x.generation ∈ s.givenBy es := by
  induction es generalizing s with
  | nil => cases hm
  | cons e es ih =>
    rw [givenBy, List.mem_append]
    by_cases hes : name ∈ es.filterMap Edit.typeName?
    · exact .inr (ih (e.precedes hs).sound hes h)
    · -- No later edit has to do with the type, so the entry is the one that this edit has made.
      rw [List.foldl_cons, get?_edits_of_not_mem (e.precedes hs).sound hes] at h
      rcases Edit.exists_of_get? hs (Option.filter_eq_some_iff.1 h).1 with ⟨-, hg⟩ | ⟨hn, -⟩
      · exact .inl (Option.mem_toList.2 hg)
      · rw [List.filterMap_cons] at hm
        split at hm
        · exact (hes hm).elim
        · next n he =>
          rcases List.mem_cons.1 hm with rfl | hm
          · exact (hn he).elim
          · exact (hes hm).elim

/-- Without a removal, what is stored stays stored. -/
lemma exists_get?_edits (hes : ∀ e ∈ es, ∀ key, e.removes key = false)
    (h : ∃ x, s.get? name = some x) : ∃ x, (es.foldl Edit.apply s).get? name = some x := by
  induction es generalizing s with
  | nil => exact h
  | cons e es ih =>
    rw [List.forall_mem_cons] at hes
    exact ih hes.2 (Edit.exists_get?_apply hes.1 h)

/-- The types of definitions that are stored are loaded. -/
lemma exists_get?_puts {ds : List Definition} {path : Path} (h : name ∈ ds.map (·.typeName)) :
    ∃ x, ((ds.map (Edit.put · path)).foldl Edit.apply s).get? name = some x := by
  induction ds generalizing s with
  | nil => cases h
  | cons d ds ih =>
    rw [List.map_cons, List.foldl_cons]
    rcases List.mem_cons.1 h with rfl | h
    · refine exists_get?_edits (fun e he key => ?_) ⟨_, by rw [Edit.apply, get?_insert, if_pos rfl]⟩
      obtain ⟨_, -, rfl⟩ := List.mem_map.1 he
      rfl
    · exact ih h

end Edits

/-! ### One change -/

namespace Change

/-- A change goes forward. -/
lemma precedes (hs : s.Sound) (c : Change) : s.Precedes (c.apply s) := by
  rw [c.apply_eq]
  exact precedes_edits hs _

/-- The types that a change stores or renews are loaded after it. -/
lemma exists_get?_of_mem_renewed (c : Change) (h : name ∈ c.renewed s) :
    ∃ x, (c.apply s).get? name = some x := by
  rw [apply_eq]
  cases c with
  | insert d path =>
    change ∃ x, (([d].map (Edit.put · path)).foldl Edit.apply s).get? name = some x
    exact exists_get?_puts h
  | insertDocument d path => exact exists_get?_puts h
  | renewAll =>
    refine exists_get?_edits (fun e he key => ?_) (Table.mem_keys_iff.1 (List.mem_mergeSort.1 h))
    obtain ⟨_, -, rfl⟩ := List.mem_map.1 he
    rfl
  | removePath path => cases h

/-- A type that a change stores or renews has a generation that the change gives. -/
lemma exists_mem_givenBy (hs : s.Sound) (c : Change) (h : name ∈ c.renewed s) :
    ∃ x, (c.apply s).get? name = some x ∧ x.generation ∈ s.givenBy (c.edits s) := by
  obtain ⟨x, hx⟩ := c.exists_get?_of_mem_renewed h
  refine ⟨x, hx, mem_givenBy_of_get? hs ?_ (c.apply_eq s ▸ hx)⟩
  rwa [c.filterMap_edits]

/-- Every other entry is left alone, or removed. -/
lemma get?_apply_of_not_mem (hs : s.Sound) (c : Change) (h : name ∉ c.renewed s) :
    (c.apply s).get? name = (s.get? name).filter fun x => !c.removes x.path.key := by
  rw [c.apply_eq, get?_edits_of_not_mem hs (by rwa [c.filterMap_edits])]
  simp only [c.any_edits]

end Change

/-! ### Histories -/

/-- **What holds of the generations given so far**: each is above all that were given before it, and every
entry has one of them, no two entries the same. -/
structure Numbered (s : DefinitionStore) (gs : List Nat) : Prop where
  /-- The store is sound. -/
  sound : s.Sound
  /-- Each generation is above those given before. -/
  increasing : gs.Pairwise (· < ·)
  /-- None is above the last one. -/
  le_last : ∀ g ∈ gs, g ≤ s.lastGeneration
  /-- Entries have generations that were given. -/
  mem : ∀ name x, s.get? name = some x → x.generation ∈ gs
  /-- Different entries have different generations. -/
  unique : ∀ name name' x x', s.get? name = some x → s.get? name' = some x' →
    x.generation = x'.generation → name = name'

namespace Numbered

variable {gs : List Nat}

/-- The empty store has given no generation. -/
lemma empty : ({} : DefinitionStore).Numbered [] :=
  ⟨.empty, .nil, nofun, nofun, nofun⟩

/-- **One edit** gives a generation above all others, or none. -/
theorem edit (h : s.Numbered gs) (e : Edit) : (e.apply s).Numbered (gs ++ (e.given? s).toList) := by
  have later := e.precedes h.sound
  -- The new entry of a type has a generation that no old entry has.
  have apart : ∀ {name name' : String} {x x' : StoredDefinition}, e.given? s = some x.generation →
      s.get? name' = some x' → x.generation = x'.generation → name = name' := fun hg hx' heq => by
    have := (Edit.lt_of_given? hg).1
    have := h.sound.generation_le _ _ hx'
    omega
  refine ⟨later.sound, ?_, fun g hg => ?_, fun name x hx => ?_, fun name name' x x' hx hx' heq => ?_⟩
  · refine List.pairwise_append.2 ⟨h.increasing, ?_, fun g hg g' hg' => ?_⟩
    · cases e.given? s with
      | none => exact .nil
      | some g => exact List.pairwise_singleton _ _
    · exact Nat.lt_of_le_of_lt (h.le_last g hg) (Edit.lt_of_given? (Option.mem_toList.1 hg')).1
  · rcases List.mem_append.1 hg with hg | hg
    · exact Nat.le_trans (h.le_last g hg) later.lastGeneration_le
    · exact (Edit.lt_of_given? (Option.mem_toList.1 hg)).2
  · rw [List.mem_append]
    rcases Edit.exists_of_get? h.sound hx with ⟨-, hg⟩ | ⟨-, hx⟩
    · exact .inr (Option.mem_toList.2 hg)
    · exact .inl (h.mem name x hx)
  · rcases Edit.exists_of_get? h.sound hx with ⟨hn, hg⟩ | ⟨-, hx⟩ <;>
      rcases Edit.exists_of_get? h.sound hx' with ⟨hn', hg'⟩ | ⟨-, hx'⟩
    · exact Option.some.inj (hn.symm.trans hn')
    · exact apart hg hx' heq
    · exact (apart hg' hx heq.symm).symm
    · exact h.unique name name' x x' hx hx' heq

/-- Edits give their generations after those given before. -/
lemma edits (h : s.Numbered gs) (es : List Edit) :
    (es.foldl Edit.apply s).Numbered (gs ++ s.givenBy es) := by
  induction es generalizing s gs with
  | nil => rwa [givenBy, List.append_nil]
  | cons e es ih =>
    rw [givenBy, ← List.append_assoc]
    exact ih (h.edit e)

/-- So do changes. -/
lemma changes (h : s.Numbered gs) (cs : List Change) :
    (cs.foldl Change.apply s).Numbered (gs ++ s.givenFrom cs) := by
  induction cs generalizing s gs with
  | nil => rwa [givenFrom, List.append_nil]
  | cons c cs ih =>
    rw [givenFrom, ← List.append_assoc]
    refine ih ?_
    rw [c.apply_eq]
    exact h.edits _

end Numbered

/-- After any changes, the generations that were given are numbered. -/
lemma numbered_after (cs : List Change) : (after cs).Numbered (given cs) := Numbered.empty.changes cs

/-- Some changes and then others. -/
lemma after_append (cs later : List Change) :
    after (cs ++ later) = later.foldl Change.apply (after cs) := List.foldl_append

/-- Later changes go forward. -/
lemma precedes_after (cs later : List Change) : (after cs).Precedes (after (cs ++ later)) := by
  rw [after_append]
  exact .foldl (fun _ c hs => c.precedes hs) later (numbered_after cs).sound

/-- A type that has an old generation has the entry that it had at the time. -/
lemma get?_after_of_generation? {cs later : List Change} {g : Nat}
    (h : (after cs).generation? name = some g) (h' : (after (cs ++ later)).generation? name = some g) :
    (after (cs ++ later)).get? name = (after cs).get? name := by
  obtain ⟨x, hx, hxg⟩ := Option.map_eq_some_iff.1 h
  obtain ⟨x', hx', hxg'⟩ := Option.map_eq_some_iff.1 h'
  have hle : x'.generation ≤ (after cs).lastGeneration := by
    rw [hxg', ← hxg]
    exact (numbered_after cs).sound.generation_le name x hx
  rw [hx', (precedes_after cs later).get?_of_le name x' hx' hle]

/-- **Generations in the course of any changes** of a store that was empty at first. No generation is given
twice. A change gives every type that it stores or renews a generation above all given before, and every
other entry is left as it is, or removed with its path. Entries have different generations, none above the
last one given. And if a type has one generation at two moments, then it has the same entry at both, and no
change in between has stored, renewed or removed it.

**Proof sketch.** Edits take numbers one by one (`Numbered.edit`), so an entry with a number that had been
given before is an old one (`Precedes`). A change in between that had to do with the type would have left
it with a later number, or without an entry, and neither is undone. -/
theorem generations_of_changes (cs : List Change) :
    (given cs).Nodup ∧
    (∀ c : Change,
      (∀ name ∈ c.renewed (after cs), ∃ x, (after (cs ++ [c])).get? name = some x ∧
        x.generation ∈ (after cs).givenBy (c.edits (after cs)) ∧ ∀ g ∈ given cs, g < x.generation) ∧
      ∀ name, name ∉ c.renewed (after cs) → (after (cs ++ [c])).get? name =
        ((after cs).get? name).filter fun x => !c.removes x.path.key) ∧
    ((∀ name x, (after cs).get? name = some x → x.generation ≤ (after cs).lastGeneration) ∧
      ∀ name name' x x', (after cs).get? name = some x → (after cs).get? name' = some x' →
        x.generation = x'.generation → name = name') ∧
    ∀ later name g, (after cs).generation? name = some g →
      (after (cs ++ later)).generation? name = some g →
        (after (cs ++ later)).get? name = (after cs).get? name ∧
        ∀ between c rest, later = between ++ c :: rest →
          name ∉ c.renewed (after (cs ++ between)) ∧
            ∀ x, (after (cs ++ between)).get? name = some x → c.removes x.path.key = false := by
  have N := numbered_after cs
  refine ⟨N.increasing.imp Nat.ne_of_lt, fun c => ⟨fun name hm => ?_, fun name hm => ?_⟩,
    ⟨N.sound.generation_le, N.unique⟩, fun later name g hg hg' => ⟨get?_after_of_generation? hg hg', ?_⟩⟩
  · obtain ⟨x, hx, hmem⟩ := c.exists_mem_givenBy N.sound hm
    refine ⟨x, by rw [after_append]; exact hx, hmem, fun g hg => ?_⟩
    exact Nat.lt_of_le_of_lt (N.le_last g hg) (lt_of_mem_givenBy N.sound hmem)
  · rw [after_append]
    exact c.get?_apply_of_not_mem N.sound hm
  · rintro between c rest rfl
    obtain ⟨x, hx, rfl⟩ := Option.map_eq_some_iff.1 hg
    obtain ⟨y, hy, hyg⟩ := Option.map_eq_some_iff.1 hg'
    have hle := N.sound.generation_le name x hx
    -- The entry has stayed until right before the change, and until right after it.
    have stays : ∀ first second, between ++ c :: rest = first ++ second →
        (after (cs ++ first)).get? name = some y := fun first second hsplit => by
      rw [hsplit, ← List.append_assoc] at hy
      refine (precedes_after (cs ++ first) second).get?_of_le name y hy ?_
      exact hyg ▸ Nat.le_trans hle (precedes_after cs first).lastGeneration_le
    have hbefore := stays between (c :: rest) rfl
    have hafter := stays (between ++ [c]) rest (by simp)
    rw [← List.append_assoc, after_append] at hafter
    have M := numbered_after (cs ++ between)
    have hm : name ∉ c.renewed (after (cs ++ between)) := fun hm => by
      obtain ⟨z, hz, hmem⟩ := c.exists_mem_givenBy M.sound hm
      cases hafter.symm.trans hz
      have hlt := lt_of_mem_givenBy M.sound hmem
      exact absurd (M.sound.generation_le name y hbefore) (Nat.not_le_of_lt hlt)
    refine ⟨hm, fun z hz => ?_⟩
    cases hbefore.symm.trans hz
    have hkept := c.get?_apply_of_not_mem M.sound hm
    rw [hbefore] at hkept
    simpa using (Option.filter_eq_some_iff.1 (hkept.symm.trans hafter)).2

/-- A document takes a type over, and its removal does not give the old number back. -/
example :
    let badge : Definition := ⟨"Badge", false, false, [], [], []⟩
    given [.insert badge ⟨"a"⟩, .insertDocument badge ⟨"b"⟩, .renewAll, .removePath ⟨"b"⟩,
      .insert badge ⟨"a"⟩] = [1, 2, 3, 4] := by cbv

end ViewMarkup.DefinitionStore
