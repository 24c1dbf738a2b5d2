/-!
# Finite tables

A table maps keys to values. Its entries keep the order in which their keys were first inserted.

## Main definitions

* `Table`, with `get?`, `insert`, `erase`, `modify`, `keys`, `values`.

## Main statements

* `Table.get?_insert`, `Table.get?_erase`, `Table.get?_modify`, `Table.get?_map` — what every
  operation does to the value of a key.
* `Table.keys_insert` — a new key comes last, and a known one keeps its place.
-/

namespace ViewMarkup

/-- A finite map, as the list of its entries in the order of first insertion. -/
structure Table (κ α : Type) where
  /-- The entries. -/
  entries : List (κ × α) := []
deriving Repr, DecidableEq

namespace Table

variable {κ α β : Type}

/-- The number of entries. -/
def size (t : Table κ α) : Nat := t.entries.length

/-- The keys in order. -/
def keys (t : Table κ α) : List κ := t.entries.map (·.1)

/-- The values in the order of their keys. -/
def values (t : Table κ α) : List α := t.entries.map (·.2)

/-- The table with every value changed by `f`. -/
def map (f : α → β) (t : Table κ α) : Table κ β := ⟨t.entries.map fun (k, v) => (k, f v)⟩

variable [DecidableEq κ]

/-- The value of a key. -/
def get? (t : Table κ α) (k : κ) : Option α := (t.entries.find? fun e => e.1 = k).map (·.2)

/-- Whether a key has a value. -/
def contains (t : Table κ α) (k : κ) : Bool := (t.get? k).isSome

/-- Entries with a value for a key, in its place or at the end. -/
def put (k : κ) (v : α) : List (κ × α) → List (κ × α)
  | [] => [(k, v)]
  | e :: es => if e.1 = k then (k, v) :: es else e :: put k v es

/-- The table with a value for a key. -/
def insert (t : Table κ α) (k : κ) (v : α) : Table κ α := ⟨put k v t.entries⟩

/-- The table without a key. -/
def erase (t : Table κ α) (k : κ) : Table κ α := ⟨t.entries.filter fun e => e.1 ≠ k⟩

/-- The table with the value of a key changed by `f`, if it has one. -/
def modify (t : Table κ α) (k : κ) (f : α → α) : Table κ α :=
  ⟨t.entries.map fun e => if e.1 = k then (e.1, f e.2) else e⟩

/-- The empty table has no values. -/
@[simp]
theorem get?_empty (k : κ) : ({} : Table κ α).get? k = none := rfl

/-- What putting an entry does to the value of a key. -/
theorem find?_put (es : List (κ × α)) (k k' : κ) (v : α) :
    ((put k v es).find? fun e => e.1 = k').map (·.2)
      = if k = k' then some v else (es.find? fun e => e.1 = k').map (·.2) := by
  induction es with
  | nil => by_cases h : k = k' <;> simp [put, h]
  | cons e es ih =>
      simp only [put]
      split
      · next he => by_cases h : k = k' <;> simp [he, h]
      · next he =>
          by_cases h : e.1 = k'
          · have : k ≠ k' := fun hk => he (h.trans hk.symm)
            simp [h, this]
          · simp only [List.find?_cons, h, decide_false]
            exact ih

/-- What inserting a value does to it. -/
@[simp]
theorem get?_insert (t : Table κ α) (k k' : κ) (v : α) :
    (t.insert k v).get? k' = if k = k' then some v else t.get? k' := find?_put _ _ _ _

/-- What leaving out the entries of a key does to the value of a key. -/
theorem find?_erase (es : List (κ × α)) (k k' : κ) :
    ((es.filter fun e => e.1 ≠ k).find? fun e => e.1 = k').map (·.2)
      = if k = k' then none else (es.find? fun e => e.1 = k').map (·.2) := by
  induction es with
  | nil => simp
  | cons e es ih =>
      by_cases he : e.1 = k
      · rw [List.filter_cons_of_neg (by simp [he]), ih]
        by_cases h : k = k'
        · simp [h]
        · simp [h, he]
      · rw [List.filter_cons_of_pos (by simp [he])]
        by_cases h : e.1 = k'
        · have hk : k ≠ k' := fun hk => he (h.trans hk.symm)
          simp [h, hk]
        · simp only [List.find?_cons, h, decide_false]
          exact ih

/-- What erasing a key does to it. -/
@[simp]
theorem get?_erase (t : Table κ α) (k k' : κ) :
    (t.erase k).get? k' = if k = k' then none else t.get? k' := find?_erase _ _ _

/-- What changing a value does to it. -/
@[simp]
theorem get?_modify (t : Table κ α) (k k' : κ) (f : α → α) :
    (t.modify k f).get? k' = if k = k' then (t.get? k').map f else t.get? k' := by
  obtain ⟨es⟩ := t
  simp only [modify, get?]
  induction es with
  | nil => simp
  | cons e es ih =>
      simp only [List.map_cons, List.find?_cons]
      have key : (if e.1 = k then (e.1, f e.2) else e).1 = e.1 := by split <;> rfl
      rw [key]
      by_cases hk : e.1 = k'
      · simp only [hk, decide_true, Option.map_some]
        by_cases h : k = k'
        · simp [h]
        · simp [h, Ne.symm h]
      · simp only [hk, decide_false]
        exact ih

/-- What changing all values does to the value of a key. -/
@[simp]
theorem get?_map (f : α → β) (t : Table κ α) (k : κ) : (t.map f).get? k = (t.get? k).map f := by
  simp [map, get?, List.find?_map, Function.comp_def]

/-- The keys are those that have a value. -/
theorem mem_keys_iff {t : Table κ α} {k : κ} : k ∈ t.keys ↔ ∃ v, t.get? k = some v := by
  constructor
  · intro h
    obtain ⟨e, he, rfl⟩ := List.mem_map.1 h
    match hf : t.entries.find? fun e' => e'.1 = e.1 with
    | some e' => exact ⟨e'.2, by simp [get?, hf]⟩
    | none =>
        have := List.find?_eq_none.1 hf e he
        simp only [decide_true, not_true_eq_false] at this
  · rintro ⟨v, h⟩
    simp only [get?, Option.map_eq_some_iff] at h
    obtain ⟨e, he, _⟩ := h
    exact List.mem_map.2 ⟨e, List.mem_of_find?_eq_some he, by simpa using List.find?_some he⟩

/-- A new key comes after the others, and a known one keeps its place. -/
theorem keys_insert (t : Table κ α) (k : κ) (v : α) :
    (t.insert k v).keys = if k ∈ t.keys then t.keys else t.keys ++ [k] := by
  obtain ⟨es⟩ := t
  simp only [insert, keys]
  induction es with
  | nil => simp [put]
  | cons e es ih =>
      by_cases he : e.1 = k
      · simp [put, he]
      · have he' : ¬ k = e.1 := fun h => he h.symm
        simp only [put, he, ↓reduceIte, List.map_cons, ih, List.mem_cons, he', false_or]
        split
        · next h => simp [h]
        · next h => simp [h]

/-- What erasing a key does to the keys. -/
@[simp]
theorem keys_erase (t : Table κ α) (k : κ) : (t.erase k).keys = t.keys.filter (· ≠ k) := by
  simp [erase, keys, List.filter_map, Function.comp_def]

/-- Changing a value leaves the keys as they are. -/
@[simp]
theorem keys_modify (t : Table κ α) (k : κ) (f : α → α) : (t.modify k f).keys = t.keys := by
  simp only [modify, keys, List.map_map]
  apply List.map_congr_left
  intro e _
  simp only [Function.comp_apply]
  split <;> rfl

/-- Inserting keeps the keys distinct. -/
theorem nodup_keys_insert {t : Table κ α} (h : t.keys.Nodup) (k : κ) (v : α) :
    (t.insert k v).keys.Nodup := by
  rw [keys_insert]
  split
  · exact h
  · next hk =>
      exact List.nodup_append.2 ⟨h, by simp, fun a ha b hb => by
        rw [List.mem_singleton.1 hb]
        exact fun hab => hk (hab ▸ ha)⟩

end Table

end ViewMarkup
