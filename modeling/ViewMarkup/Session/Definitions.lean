import ViewMarkup.Document.Basic
import ViewMarkup.Files.Path
import ViewMarkup.Table

/-!
# Stored definitions

The definitions that a session has loaded, by the names of their types. Every storing, and every
renewal after a change of shared styles, gives an entry the next generation, so that a generation
tells whether a definition is still the one that was seen before.

## Main definitions

* `DefinitionStore`, with `insert`, `insertDocument`, `removePath`, `renewAll`.
* `DefinitionStore.storeDocument` — `insertDocument`, with the types that were stored.
* `DefinitionStore.dependencies` — the generations of all types that a type depends on.

## Main statements

* `DefinitionStore.get?_insert`, `DefinitionStore.get?_renew` — the entries after a change.
* `DefinitionStore.unseen_append_lt` — every loaded type that is followed leaves fewer to follow.
-/

namespace ViewMarkup

/-- A stored definition. -/
structure StoredDefinition where
  /-- The definition. -/
  definition : Definition
  /-- The document that it was read from. -/
  path : Path
  /-- Its generation. -/
  generation : Nat
deriving Repr, BEq

/-- The definitions that are loaded. -/
structure DefinitionStore where
  /-- The entries, by type. -/
  entries : Table String StoredDefinition := {}
  /-- The generation given last. There is no bound for it here; a counter of 64 bits tells generations
  apart as long as fewer than `2 ^ 64` have been given. -/
  lastGeneration : Nat := 0
deriving Repr

namespace DefinitionStore

/-- The entry of a type. -/
def get? (s : DefinitionStore) (typeName : String) : Option StoredDefinition :=
  s.entries.get? typeName

/-- Whether a type is loaded. -/
def contains (s : DefinitionStore) (typeName : String) : Bool := s.entries.contains typeName

/-- The generation of a type. -/
def generation? (s : DefinitionStore) (typeName : String) : Option Nat :=
  (s.get? typeName).map (·.generation)

/-- The loaded types, in order. -/
def typeNames (s : DefinitionStore) : List String :=
  s.entries.keys.mergeSort fun a b => decide (a ≤ b)

/-- The definitions alone. -/
def definitions (s : DefinitionStore) : Table String Definition := s.entries.map (·.definition)

/-- The store with a definition stored or replaced, in the next generation. -/
def insert (s : DefinitionStore) (d : Definition) (path : Path) : DefinitionStore where
  entries := s.entries.insert d.typeName ⟨d, path, s.lastGeneration + 1⟩
  lastGeneration := s.lastGeneration + 1

/-- What storing a definition does to the entry of a type. -/
@[simp]
theorem get?_insert (s : DefinitionStore) (d : Definition) (path : Path) (typeName : String) :
    (s.insert d path).get? typeName
      = if d.typeName = typeName then some ⟨d, path, s.lastGeneration + 1⟩ else s.get? typeName :=
  Table.get?_insert _ _ _ _

/-- The types that were read from a path, in order. -/
def ownedBy (s : DefinitionStore) (path : Path) : List String :=
  ((s.entries.entries.filter fun e => e.2.path.key = path.key).map (·.1)).mergeSort
    fun a b => decide (a ≤ b)

/-- The store without what was read from a path. -/
def removePath (s : DefinitionStore) (path : Path) : DefinitionStore :=
  { s with entries := ⟨s.entries.entries.filter fun e => e.2.path.key ≠ path.key⟩ }

/-- The store with a document's definition and all those in place inside it, in document order,
instead of what was read from its path before. -/
def insertDocument (s : DefinitionStore) (d : Definition) (path : Path) : DefinitionStore :=
  d.definitions.foldl (fun s nested => s.insert nested path) (s.removePath path)

/-- A definition of a document is stored behind others, of which the types were noted. -/
def storeNext (path : Path) (stored : DefinitionStore × List String) (d : Definition) :
    DefinitionStore × List String :=
  (stored.1.insert d path, stored.2 ++ [d.typeName])

/-- A document is stored: the store as after `insertDocument`, and the types that were stored, in
document order and with repetitions. -/
def storeDocument (s : DefinitionStore) (d : Definition) (path : Path) :
    DefinitionStore × List String :=
  d.definitions.foldl (storeNext path) (s.removePath path, [])

/-- Storing definitions one by one, with their names noted. -/
theorem foldl_storeNext (path : Path) (ds : List Definition) (s : DefinitionStore)
    (noted : List String) :
    ds.foldl (storeNext path) (s, noted) =
      (ds.foldl (fun s d => s.insert d path) s, noted ++ ds.map (·.typeName)) := by
  induction ds generalizing s noted with
  | nil => rw [List.foldl_nil, List.foldl_nil, List.map_nil, List.append_nil]
  | cons d ds ih => rw [List.foldl_cons, storeNext, ih, List.foldl_cons, List.map_cons,
      List.append_assoc, List.singleton_append]

/-- The types stored are those of all definitions, in document order. -/
theorem storeDocument_eq (s : DefinitionStore) (d : Definition) (path : Path) :
    s.storeDocument d path = (s.insertDocument d path, d.definitions.map (·.typeName)) :=
  foldl_storeNext path _ _ _

/-- The store with the next generation for a type. -/
def renew (s : DefinitionStore) (typeName : String) : DefinitionStore where
  entries := s.entries.modify typeName fun e => { e with generation := s.lastGeneration + 1 }
  lastGeneration := s.lastGeneration + 1

/-- What renewing a type does to the entry of a type. -/
@[simp]
theorem get?_renew (s : DefinitionStore) (typeName other : String) :
    (s.renew typeName).get? other
      = if typeName = other then
          (s.get? other).map fun e => { e with generation := s.lastGeneration + 1 }
        else s.get? other :=
  Table.get?_modify _ _ _ _

/-- The store with a new generation for every type, given in the order of types. -/
def renewAll (s : DefinitionStore) : DefinitionStore := s.typeNames.foldl renew s

/-- How many loaded types are not among given ones. -/
def unseen (s : DefinitionStore) (seen : List String) : Nat :=
  s.entries.keys.countP fun name => name ∉ seen

/-- No more types are unseen when another one has been seen. -/
theorem unseen_append_le (s : DefinitionStore) (seen : List String) (name : String) :
    s.unseen (seen ++ [name]) ≤ s.unseen seen :=
  List.countP_mono_left fun n _ hn => by
    simp only [List.mem_append, not_or, decide_eq_true_eq] at hn ⊢
    exact hn.1

/-- Fewer are unseen when it is a stored one that had not been seen. -/
theorem unseen_append_lt {s : DefinitionStore} {seen : List String} {name : String}
    {e : StoredDefinition} (h : s.get? name = some e) (hs : name ∉ seen) :
    s.unseen (seen ++ [name]) < s.unseen seen := by
  have hm : name ∈ s.entries.keys := by
    simp only [get?, Table.get?, Option.map_eq_some_iff] at h
    obtain ⟨entry, he, _⟩ := h
    have hn := List.find?_some he
    simp only [decide_eq_true_eq] at hn
    exact List.mem_map.2 ⟨entry, List.mem_of_find?_eq_some he, hn⟩
  unfold unseen
  generalize s.entries.keys = names at hm
  induction names with
  | nil => cases hm
  | cons n ns ih =>
      have mono : (ns.countP fun m => m ∉ seen ++ [name]) ≤ ns.countP fun m => m ∉ seen :=
        List.countP_mono_left fun m _ h' => by
          simp only [List.mem_append, not_or, decide_eq_true_eq] at h' ⊢
          exact h'.1
      rcases List.mem_cons.1 hm with rfl | hm
      · rw [List.countP_cons_of_neg (by simp), List.countP_cons_of_pos (by simpa using hs)]
        omega
      · have := ih hm
        by_cases hn : n ∈ seen
        · rw [List.countP_cons_of_neg (by simp [hn]), List.countP_cons_of_neg (by simp [hn])]
          exact this
        · simp only [List.countP_cons, hn, not_false_eq_true, decide_true, ↓reduceIte]
          split <;> omega

/-- The types seen after those that wait have been followed: each is noted once, and if it is
loaded, the types that its definition refers to wait as well. -/
def follow (s : DefinitionStore) (seen : List String) : List String → List String
  | [] => seen
  | name :: waiting =>
      if _hs : name ∈ seen then follow s seen waiting
      else
        match _h : s.get? name with
        | some e => follow s (seen ++ [name]) (e.definition.referencedTypes ++ waiting)
        | none => follow s (seen ++ [name]) waiting
termination_by waiting => (s.unseen seen, waiting.length)
decreasing_by
  · exact Prod.Lex.right _ (by simp)
  · exact Prod.Lex.left _ _ (unseen_append_lt _h _hs)
  · rcases Nat.lt_or_eq_of_le (s.unseen_append_le seen name) with h | h
    · exact Prod.Lex.left _ _ h
    · rw [h]
      exact Prod.Lex.right _ (by simp)

/-- The types that can be reached from a type by references of loaded definitions, the type itself
among them, each with its generation, or none if it is not loaded. -/
def dependencies (s : DefinitionStore) (typeName : String) : Table String (Option Nat) :=
  ⟨(s.follow [] [typeName]).map fun name => (name, s.generation? name)⟩

end DefinitionStore

end ViewMarkup
