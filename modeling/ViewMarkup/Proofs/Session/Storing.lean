import Mathlib.Data.List.Dedup
import ViewMarkup.Proofs.Session.Generations

/-!
# What storing a document leaves

A document is stored in two steps: what was read from its path before is removed, and then its definitions
are stored one after the other, whatever has the name of one of them. So types of other documents may be
taken over, and where a document has several definitions of one name, the last one stays. Nothing else is
lost, and nothing old is left of the path.

## Main statements

* `DefinitionStore.get?_foldl_insert_append` — the last definition of a name is stored, under a number that
  tells its place in the document.
* `DefinitionStore.rising_foldl_insert` — generations rise along the last definitions of the names.
* `DefinitionStore.storeDocument_spec` — everything about the store after a document was stored.
-/

namespace ViewMarkup.DefinitionStore

variable {s : DefinitionStore} {path : Path} {name : String} {ds : List Definition}

/-- Every definition that is stored takes one generation. -/
lemma lastGeneration_foldl_insert (s : DefinitionStore) (path : Path) (ds : List Definition) :
    (ds.foldl (fun s d => s.insert d path) s).lastGeneration = s.lastGeneration + ds.length := by
  induction ds generalizing s with
  | nil => rfl
  | cons d ds ih =>
    rw [List.foldl_cons, ih, List.length_cons]
    exact Nat.succ_add_eq_add_succ _ _

/-- The last definition of a name is stored, under a number that tells its place in the document. -/
theorem get?_foldl_insert_append (s : DefinitionStore) (path : Path) (before : List Definition)
    {d : Definition} {after : List Definition} (h : d.typeName ∉ after.map (·.typeName)) :
    ((before ++ d :: after).foldl (fun s d => s.insert d path) s).get? d.typeName =
      some ⟨d, path, s.lastGeneration + before.length + 1⟩ := by
  rw [List.foldl_append, List.foldl_cons, get?_foldl_insert_of_not_mem h, get?_insert, if_pos rfl,
    lastGeneration_foldl_insert]

/-- Every name in a list of definitions has a last definition. -/
lemma exists_last (h : name ∈ ds.map (·.typeName)) :
    ∃ before d after, ds = before ++ d :: after ∧ d.typeName = name ∧
      name ∉ after.map (·.typeName) := by
  induction ds with
  | nil => cases h
  | cons d ds ih =>
    by_cases hm : name ∈ ds.map (·.typeName)
    · obtain ⟨before, d', after, rfl, hd', ha⟩ := ih hm
      exact ⟨d :: before, d', after, rfl, hd', ha⟩
    · exact ⟨[], d, ds, rfl, ((List.mem_cons.1 h).resolve_right hm).symm, hm⟩

/-- The entry of a type that was stored belongs to the path and is new. -/
lemma exists_get?_foldl_insert (s : DefinitionStore) (path : Path) (h : name ∈ ds.map (·.typeName)) :
    ∃ x, (ds.foldl (fun s d => s.insert d path) s).get? name = some x ∧ x.path = path ∧
      s.lastGeneration < x.generation := by
  obtain ⟨before, d, after, rfl, rfl, ha⟩ := exists_last h
  exact ⟨_, get?_foldl_insert_append s path before ha, rfl,
    Nat.lt_succ_of_le (Nat.le_add_right _ _)⟩

/-- **Generations rise** along the last definitions of the names. -/
theorem rising_foldl_insert (s : DefinitionStore) (path : Path) (ds : List Definition) :
    ((ds.map (·.typeName)).dedup.filterMap
      (ds.foldl (fun s d => s.insert d path) s).generation?).Pairwise (· < ·) := by
  induction ds generalizing s with
  | nil => exact .nil
  | cons d ds ih =>
    rw [List.map_cons, List.foldl_cons]
    by_cases hm : d.typeName ∈ ds.map (·.typeName)
    · rw [List.dedup_cons_of_mem hm]
      exact ih _
    · have first : (ds.foldl (fun s d => s.insert d path) (s.insert d path)).generation? d.typeName =
          some (s.lastGeneration + 1) := by
        rw [generation?, get?_foldl_insert_of_not_mem hm, get?_insert, if_pos rfl, Option.map_some]
      rw [List.dedup_cons_of_notMem hm, List.filterMap_cons_some first]
      refine List.pairwise_cons.2 ⟨fun g hg => ?_, ih _⟩
      -- All others are stored later, when this generation has been given.
      obtain ⟨name, hname, hg⟩ := List.mem_filterMap.1 hg
      obtain ⟨x, hx, -, hlt⟩ :=
        exists_get?_foldl_insert (s.insert d path) path (List.mem_dedup.1 hname)
      rw [generation?, hx] at hg
      exact Option.some.inj hg ▸ hlt

/-- **The store after a document was stored**, in a store that lists no type twice. The types that are
answered are those of all definitions, in document order. The entries that belong to the path are just
those types. Each has the last definition of its name, with the path as it is spelled now and a generation
that tells its place, so that generations rise along the last definitions. An entry of another path is there
if and only if it was there before and the document defines no type of its name.

**Proof sketch.** What is stored under a name is what was stored last under it
(`get?_foldl_insert_append`), and what the document does not name is left as it is
(`get?_foldl_insert_of_not_mem`), after all entries of the path were removed. -/
theorem storeDocument_spec (hs : s.entries.keys.Nodup) (d : Definition) (path : Path) :
    (s.storeDocument d path).2 = d.definitions.map (·.typeName) ∧
    (∀ name, (∃ x, (s.storeDocument d path).1.get? name = some x ∧ x.path.key = path.key) ↔
      name ∈ d.definitions.map (·.typeName)) ∧
    (∀ before nested after, d.definitions = before ++ nested :: after →
      nested.typeName ∉ after.map (·.typeName) →
        (s.storeDocument d path).1.get? nested.typeName =
          some ⟨nested, path, s.lastGeneration + before.length + 1⟩) ∧
    (∀ name x, x.path.key ≠ path.key → ((s.storeDocument d path).1.get? name = some x ↔
      s.get? name = some x ∧ name ∉ d.definitions.map (·.typeName))) ∧
    ((d.definitions.map (·.typeName)).dedup.filterMap
      (s.storeDocument d path).1.generation?).Pairwise (· < ·) := by
  rw [storeDocument_eq]
  have others : ∀ name, name ∉ d.definitions.map (·.typeName) →
      (s.insertDocument d path).get? name = (s.get? name).filter fun x => x.path.key ≠ path.key :=
    fun name hm => (get?_foldl_insert_of_not_mem hm).trans (Table.get?_filter hs _ name)
  have own : ∀ name, name ∈ d.definitions.map (·.typeName) →
      ∃ x, (s.insertDocument d path).get? name = some x ∧ x.path = path := fun name hm =>
    (exists_get?_foldl_insert (s.removePath path) path hm).imp fun _ h => ⟨h.1, h.2.1⟩
  refine ⟨rfl, fun name => ⟨fun ⟨x, hx, hk⟩ => ?_, fun hm => ?_⟩, fun before nested after hsplit ha => ?_,
    fun name x hne => ⟨fun hx => ?_, fun ⟨hx, hm⟩ => ?_⟩, rising_foldl_insert _ path _⟩
  · by_contra hm
    rw [others name hm, Option.filter_eq_some_iff] at hx
    exact of_decide_eq_true hx.2 hk
  · obtain ⟨x, hx, rfl⟩ := own name hm
    exact ⟨x, hx, rfl⟩
  · change (d.definitions.foldl (fun s d => s.insert d path) (s.removePath path)).get? _ = _
    rw [hsplit]
    exact get?_foldl_insert_append _ path before ha
  · have hm : name ∉ d.definitions.map (·.typeName) := fun hm => by
      obtain ⟨y, hy, hyp⟩ := own name hm
      cases hx.symm.trans hy
      exact hne (congrArg Path.key hyp)
    rw [others name hm] at hx
    exact ⟨(Option.filter_eq_some_iff.1 hx).1, hm⟩
  · rw [others name hm, hx, Option.filter_some, if_pos (decide_eq_true hne)]

/-- A definition whose elements are components with definitions in place. -/
def containing (typeName : String) (ds : List Definition) : Definition :=
  ⟨typeName, false, false, [], [],
    ds.map fun d => ⟨.component, none, {}, [], [], [], some (.inline d), d.typeName⟩⟩

/-- A document with two cells and two badges, the first badge inside the first cell. -/
def twoCells : Definition :=
  containing "Screen"
    [containing "Cell" [containing "Badge" []], containing "Badge" [], containing "Cell" []]

/-- A store with a type of an older version of the document, and two types of another document. -/
def shelf : DefinitionStore :=
  ((({} : DefinitionStore).insert (containing "Old" []) ⟨"ui/screen"⟩).insert
    (containing "Badge" []) ⟨"ui/badge"⟩).insert (containing "Note" []) ⟨"ui/badge"⟩

/-- The document takes the badge over, though its path is spelled in another way, and the second badge is
stored. The old type is gone, and the other one of the badge's document stays. -/
theorem storeDocument_twoCells :
    shelf.entries.keys.Nodup ∧
    (shelf.storeDocument twoCells ⟨"ui//screen"⟩).2 = ["Screen", "Cell", "Badge", "Badge", "Cell"] ∧
    ("Old" ∉ twoCells.definitions.map (·.typeName) ∧
      ¬ ∃ x, (shelf.storeDocument twoCells ⟨"ui//screen"⟩).1.get? "Old" = some x ∧
        x.path.key = (Path.mk "ui//screen").key) ∧
    (shelf.storeDocument twoCells ⟨"ui//screen"⟩).1.get? "Badge" =
      some ⟨containing "Badge" [], ⟨"ui//screen"⟩, 7⟩ ∧
    (shelf.storeDocument twoCells ⟨"ui//screen"⟩).1.get? "Note" =
      some ⟨containing "Note" [], ⟨"ui/badge"⟩, 3⟩ := by
  have nodup : shelf.entries.keys.Nodup := by decide
  have gone : "Old" ∉ twoCells.definitions.map (·.typeName) := by decide
  obtain ⟨types, owned, last, others, -⟩ := storeDocument_spec nodup twoCells ⟨"ui//screen"⟩
  refine ⟨nodup, types, ⟨gone, fun h => gone ((owned "Old").1 h)⟩, ?_, (others "Note" _ ?_).2 ⟨rfl, ?_⟩⟩
  · exact last [twoCells, containing "Cell" [containing "Badge" []], containing "Badge" []]
      (containing "Badge" []) [containing "Cell" []] rfl (by decide)
  · decide
  · decide

end ViewMarkup.DefinitionStore
